import ChartCompiler.Number.Basic

/-! The value of a decimal literal. The digits are gathered into one 64-bit significand, digits that
no longer fit are dropped, and the significand is scaled by one rounded power of ten. So a literal
of many digits may come out one step beside the nearest number. -/

namespace ChartCompiler

/-- A literal as it is written: sign, digits before the point, digits after it, and the exponent
with its sign. -/
structure Literal where
  negative : Bool
  whole : List Nat
  fraction : List Nat := []
  exponent : Option (Bool × List Nat) := none

inductive Numeral
  | integer (value : Int)
  | float (value : Number)
  deriving DecidableEq, Repr

namespace Literal

def maxSignificand : Nat := Nat.pow 2 64 - 1

def maxExponent : Nat := Nat.pow 2 31 - 1

/-- Appends digits to a significand while it fits, and gives the digits left over. -/
def gather : Nat → List Nat → Nat × List Nat
  | s, [] => (s, [])
  | s, d :: ds => if s * 10 + d ≤ maxSignificand then gather (s * 10 + d) ds else (s, d :: ds)

def exponentValue (ds : List Nat) : Option Nat :=
  ds.foldlM (fun e d => if e * 10 + d ≤ maxExponent then some (e * 10 + d) else none) 0

def power (n : Nat) : Number := Number.ofNat (Nat.pow 10 n)

/-- Divides by `10 ^ n`, in steps of `10 ^ 308`. -/
def scaleDown (f : Number) (n : Nat) : Number :=
  if n ≤ 308 then f.div (power n)
  else if f.isZero then f
  else scaleDown (f.div (power 308)) (n - 308)
termination_by n

def scale (significand : Nat) (e : Int) : Option Number :=
  let f := Number.ofNat significand
  if e < 0 then some (scaleDown f e.natAbs)
  else if e.toNat ≤ 308 then
    let f := f.mul (power e.toNat)
    if f.isInfinite then none else some f
  else if f.isZero then some f else none

/-- What the literal denotes, none when it is too big. An integer stays one from `-2 ^ 63` to
`2 ^ 64 - 1`, and minus zero is not an integer. -/
def value (l : Literal) : Option Numeral :=
  let (s, dropped) := gather 0 l.whole
  let sign (f : Number) : Numeral := .float (if l.negative then f.neg else f)
  if l.fraction.isEmpty && l.exponent.isNone && dropped.isEmpty then
    if !l.negative then some (.integer s)
    else if 0 < s ∧ s ≤ Nat.pow 2 63 then some (.integer (-s))
    else some (sign (Number.ofNat s))
  else
    let (s, unread) := gather s l.fraction
    let e : Int := dropped.length - (l.fraction.length - unread.length : Nat)
    match l.exponent with
    | none => (scale s e).map sign
    | some (down, ds) =>
      match exponentValue ds with
      | some x => (scale s (if down then e - x else e + x)).map sign
      | none => if s ≠ 0 ∧ !down then none else some (sign (Number.ofNat 0))

end Literal

end ChartCompiler
