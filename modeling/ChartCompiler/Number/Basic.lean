/-! Binary64 numbers held exactly. A finite number is `± mantissa · 2 ^ exponent`, and every
operation computes the exact quotient first and rounds once, to the nearest number of the grid with
ties to the even mantissa. So each operation is a fact about `Nat` and `Int`. -/

namespace ChartCompiler

/-- A binary64 number. `Number.round` writes a finite one in its only normal form: 53 bits of
mantissa, or fewer at the least exponent. -/
inductive Number
  | nan
  | infinite (negative : Bool)
  | finite (negative : Bool) (mantissa : Nat) (exponent : Int)
  deriving DecidableEq, Repr

namespace Number

/-- The exponent of the least positive number. -/
def minExponent : Int := -1074

def maxExponent : Int := 971

/-- The nearest natural number to `n / d`, a half goes to the even one. -/
def roundHalfEven (n d : Nat) : Nat :=
  let q := n / d
  let r := n % d
  if 2 * r < d then q
  else if d < 2 * r then q + 1
  else if q % 2 = 0 then q else q + 1

/-- `n · 2 ^ e` as a fraction of natural numbers. -/
def scaled (n d : Nat) (e : Int) : Nat × Nat :=
  if 0 ≤ e then (n * Nat.pow 2 e.toNat, d) else (n, d * Nat.pow 2 (-e).toNat)

/-- The exponent of the grid on which the positive fraction `n / d` has 53 bits, or the least one.
-/
def gridExponent (n d : Nat) : Int :=
  let e := max ((n.log2 : Int) - d.log2 - 53) minExponent
  let (n', d') := scaled n d (-e)
  if n' / d' < Nat.pow 2 53 then e else e + 1

def round (negative : Bool) (n d : Nat) : Number :=
  if n = 0 ∨ d = 0 then .finite negative 0 minExponent
  else
    let e := gridExponent n d
    let (n', d') := scaled n d (-e)
    let m := roundHalfEven n' d'
    let (m, e) := if m = Nat.pow 2 53 then (Nat.pow 2 52, e + 1) else (m, e)
    if maxExponent < e then .infinite negative else .finite negative m e

/-- The number nearest to a natural number, exact below `2 ^ 53`. -/
def ofNat (n : Nat) : Number := round false n 1

def ofInt (i : Int) : Number := round (i < 0) i.natAbs 1

def neg : Number → Number
  | .nan => .nan
  | .infinite s => .infinite (!s)
  | .finite s m e => .finite (!s) m e

def isZero : Number → Bool
  | .finite _ m _ => m = 0
  | _ => false

def isInfinite : Number → Bool
  | .infinite _ => true
  | _ => false

/-- Below zero. Neither zero is. -/
def isNegative : Number → Bool
  | .nan => false
  | .infinite s => s
  | .finite s m _ => s && m ≠ 0

def mul : Number → Number → Number
  | .finite s m e, .finite s' m' e' =>
    let (n, d) := scaled (m * m') 1 (e + e')
    round (s ^^ s') n d
  | .nan, _ | _, .nan => .nan
  | .infinite s, .infinite s' => .infinite (s ^^ s')
  | .infinite s, .finite s' m _ | .finite s' m _, .infinite s =>
    if m = 0 then .nan else .infinite (s ^^ s')

def div : Number → Number → Number
  | .finite s m e, .finite s' m' e' =>
    if m' = 0 then if m = 0 then .nan else .infinite (s ^^ s')
    else
      let (n, d) := scaled m m' (e - e')
      round (s ^^ s') n d
  | .nan, _ | _, .nan => .nan
  | .infinite _, .infinite _ => .nan
  | .infinite s, .finite s' _ _ => .infinite (s ^^ s')
  | .finite s _ _, .infinite s' => .finite (s ^^ s') 0 minExponent

/-- The magnitude, when it is a natural number. -/
def wholeMagnitude? : Number → Option Nat
  | .finite _ m e =>
    let (n, d) := scaled m 1 e
    if n % d = 0 then some (n / d) else none
  | _ => none

end Number

instance : OfNat Number n := ⟨Number.ofNat n⟩

end ChartCompiler
