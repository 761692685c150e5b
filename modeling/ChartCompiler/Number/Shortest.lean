import ChartCompiler.Number.Basic

/-! The fewest decimal digits that read back as the same number. On each grid `10 ^ k`, from the
coarsest down, only the two neighbours of the number can lie in the interval of reals that round to
it, so the first grid on which one of them does gives the fewest digits. -/

namespace ChartCompiler

/-- The decimal `digits · 10 ^ exponent`. -/
structure Decimal where
  digits : Nat
  exponent : Int
  deriving DecidableEq, Repr

inductive Tie
  | up
  | even
  deriving DecidableEq, Repr

/-- The reals that round to `mantissa · 2 ^ exponent`, over one denominator: `low`, the number
itself and `high`, ends included or not. -/
structure Rounds where
  low : Nat
  value : Nat
  high : Nat
  denominator : Nat
  closed : Bool

namespace Rounds

/-- The interval of a positive number. Below a power of two the grid is twice as fine. -/
def of (mantissa : Nat) (exponent : Int) : Rounds :=
  let low := if mantissa = Nat.pow 2 52 ∧ Number.minExponent < exponent then 1 else 2
  let (unit, denominator) := Number.scaled 1 1 (exponent - 2)
  { low := (4 * mantissa - low) * unit
    value := 4 * mantissa * unit
    high := (4 * mantissa + 2) * unit
    denominator
    closed := mantissa % 2 = 0 }

def inUnits (r : Rounds) (k : Int) : Rounds :=
  if 0 ≤ k then { r with denominator := r.denominator * Nat.pow 10 k.toNat }
  else
    let s := Nat.pow 10 (-k).toNat
    { r with low := r.low * s, value := r.value * s, high := r.high * s }

def contains (r : Rounds) (c : Nat) : Bool :=
  let c := c * r.denominator
  if r.closed then r.low ≤ c && c ≤ r.high else r.low < c && c < r.high

def nearest? (r : Rounds) (tie : Tie) : Option Nat :=
  let below := r.value / r.denominator
  let above := below + 1
  match r.contains below, r.contains above with
  | false, false => none
  | true, false => some below
  | false, true => some above
  | true, true =>
    let rest := 2 * (r.value % r.denominator)
    if rest < r.denominator then some below
    else if r.denominator < rest then some above
    else match tie with
      | .up => some above
      | .even => some (if below % 2 = 0 then below else above)

/-- The first grid from `10 ^ k` down, `fuel` grids at most, that has a point in the interval. -/
def search (r : Rounds) (tie : Tie) (k : Int) : Nat → Decimal
  | 0 => ⟨0, 0⟩
  | fuel + 1 =>
    match (r.inUnits k).nearest? tie with
    | some c => ⟨c, k⟩
    | none => r.search tie (k - 1) fuel

end Rounds

/-- An exponent of ten just above `log10 (m · 2 ^ e)`, by `log10 2 < 1234 / 4096`. -/
def Number.decimalBound (m : Nat) (e : Int) : Int :=
  let bits := (m.log2 : Int) + 1 + e
  if 0 ≤ bits then bits * 1234 / 4096 + 1 else bits * 1233 / 4096 + 1

/-- The fewest digits that read back as `mantissa · 2 ^ exponent`, the nearest such decimal.
Seventeen digits always suffice, so twenty grids do from the bound down. -/
def Number.shortest (mantissa : Nat) (exponent : Int) (tie : Tie) : Decimal :=
  if mantissa = 0 then ⟨0, 0⟩
  else (Rounds.of mantissa exponent).search tie (Number.decimalBound mantissa exponent) 20

end ChartCompiler
