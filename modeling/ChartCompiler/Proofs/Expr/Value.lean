import ChartCompiler.Expr.Basic
import ChartCompiler.Proofs.Grammar.Digits
import Mathlib

/-! What expressions evaluate to, and what their operators do to it. Finite numbers are the elements
of a field, so that arithmetic is exact; the others may stand in a row, but are not computed with.
What a chart never does has no value here: adding a text to a number, comparing texts by order,
dividing by zero, asking for an item that an array does not have. -/

namespace ChartCompiler

/-- A value over exact numbers. A member that an object does not have is undefined. -/
inductive Value (K : Type*)
  | number (x : K)
  | infinite (negative : Bool)
  | nan
  | text (s : String)
  | bool (b : Bool)
  | null
  | undefined
  | array (items : List (Value K))
  | object (members : String → Value K)

variable {K : Type*} [Field K] [LinearOrder K] [FloorRing K]

namespace Value

def truthy : Value K → Bool
  | .number x => x ≠ 0
  | .text s => s ≠ ""
  | .bool b => b
  | .nan | .null | .undefined => false
  | .infinite _ => true
  | .array _ | .object _ => true

def member? (name : String) : Value K → Option (Value K)
  | .object members => some (members name)
  | _ => none

def item? : Value K → Value K → Option (Value K)
  | .array items, .number x => if (⌊x⌋₊ : K) = x then items[⌊x⌋₊]? else none
  | _, _ => none

/-- Equality of kind and value, where `nan` equals nothing. Arrays and objects are not compared, since
only their identity would count. -/
def strictEq? : Value K → Value K → Option Bool
  | .array _, .array _ | .object _, .object _ => none
  | .number x, .number y => some (x = y)
  | .infinite x, .infinite y => some (x = y)
  | .text s, .text t => some (s = t)
  | .bool a, .bool b => some (a = b)
  | .null, .null | .undefined, .undefined => some true
  | _, _ => some false

@[simp] theorem item?_natCast [IsStrictOrderedRing K] (items : List (Value K)) (n : Nat) :
    (array items).item? (.number (n : K)) = items[n]? := by
  rw [item?, Nat.floor_natCast, if_pos rfl]

/-- There is no item before the first. -/
theorem item?_neg_one [IsStrictOrderedRing K] (v : Value K) : v.item? (.number (-1)) = none := by
  have hfloor : ⌊(-1 : K)⌋₊ = 0 := Nat.floor_of_nonpos (by norm_num)
  unfold item?
  cases v with
  | array items =>
    dsimp only
    rw [hfloor, if_neg (by norm_num)]
  | _ => rfl

end Value

namespace Operator

def onNumbers? : Operator → K → K → Option (Value K)
  | .add, x, y => some (.number (x + y))
  | .sub, x, y => some (.number (x - y))
  | .mul, x, y => some (.number (x * y))
  | .div, x, y => if y = 0 then none else some (.number (x / y))
  -- the remainder has the sign of the dividend
  | .mod, x, y =>
    if y = 0 then none
    else some (.number (x - y * if 0 ≤ x / y then (⌊x / y⌋ : K) else (⌈x / y⌉ : K)))
  | .gt, x, y => some (.bool (y < x))
  | .gte, x, y => some (.bool (y ≤ x))
  | .lt, x, y => some (.bool (x < y))
  | .lte, x, y => some (.bool (x ≤ y))
  | .strictEq, _, _ | .strictNe, _, _ | .and, _, _ | .or, _, _ => none

def strict? : Operator → Value K → Value K → Option (Value K)
  | .strictEq, v, w => (v.strictEq? w).map .bool
  | .strictNe, v, w => (v.strictEq? w).map fun b => .bool !b
  | .add, .text s, .text t => some (.text (s ++ t))
  | op, .number x, .number y => op.onNumbers? x y
  | _, _, _ => none

/-- An operator on the value of its left side and what its right side evaluates to. A conjunction and
a disjunction are done with the left side where that decides. -/
def combine? (op : Operator) (v : Value K) (right : Option (Value K)) : Option (Value K) :=
  match op with
  | .and => if v.truthy then right else some v
  | .or => if v.truthy then some v else right
  | op => right.bind (op.strict? v)

@[simp] theorem combine?_add_text (s t : String) :
    add.combine? (.text s : Value K) (some (.text t)) = some (.text (s ++ t)) := rfl

@[simp] theorem combine?_add_number (x y : K) :
    add.combine? (.number x) (some (.number y)) = some (.number (x + y)) := rfl

@[simp] theorem combine?_mul_number (x y : K) :
    mul.combine? (.number x) (some (.number y)) = some (.number (x * y)) := rfl

end Operator

namespace Number

def value? : Number → Option K
  | .nan | .infinite _ => none
  | .finite negative m e => some (if negative then -(m * (2 : K) ^ e) else m * (2 : K) ^ e)

theorem roundHalfEven_one (n : Nat) : roundHalfEven n 1 = n := by
  simp [roundHalfEven, Nat.mod_one]

/-- Natural numbers of 53 bits are held exactly. -/
theorem value?_ofNat [IsStrictOrderedRing K] {n : Nat} (hn : n < Nat.pow 2 53) :
    (ofNat n).value? = some (n : K) := by
  rcases Nat.eq_zero_or_pos n with rfl | hpos
  · rw [ofNat, round, if_pos (.inl rfl), value?]
    simp
  · have hlog : n.log2 < 53 := (Nat.log2_lt (by omega)).2 hn
    have hgrid := gridExponent_le n 1
    have hone : Nat.log2 1 = 0 := rfl
    simp only [minExponent, hone] at hgrid
    -- the grid is at least as fine as the natural numbers
    obtain ⟨k, hk⟩ := Int.exists_eq_neg_ofNat (a := gridExponent n 1) (by omega)
    have hscaled : scaled n 1 (-gridExponent n 1) = (n * Nat.pow 2 k, 1) := by
      rw [hk, neg_neg, scaled, if_pos (by omega)]
      rfl
    have hexact : (n : K) = ((n * Nat.pow 2 k : Nat) : K) * (2 : K) ^ (-(k : Int)) := by
      have hpow : (Nat.pow 2 k : Nat) = 2 ^ k := rfl
      rw [hpow, zpow_neg, zpow_natCast]
      push_cast
      field_simp
    rw [ofNat, round, if_neg (by omega)]
    rw [hk, neg_neg] at hscaled
    simp only [hk, neg_neg, hscaled, roundHalfEven_one]
    split
    next hcarry =>
      have htwo : ((Nat.pow 2 53 : Nat) : K) = ((Nat.pow 2 52 : Nat) : K) * 2 := by norm_num
      rw [if_neg (by simp only [maxExponent]; omega), value?, if_neg (by decide), hexact, hcarry,
        htwo, zpow_add_one₀ two_ne_zero, mul_right_comm, mul_assoc]
    next =>
      rw [if_neg (by simp only [maxExponent]; omega), value?, if_neg (by decide), hexact]

/-- The sign of a number is put on when the number is rounded. -/
theorem round_true (n d : Nat) : round true n d = (round false n d).neg := by
  unfold round
  dsimp only
  by_cases hzero : n = 0 ∨ d = 0
  · rw [if_pos hzero, if_pos hzero]
    rfl
  · rw [if_neg hzero, if_neg hzero, apply_ite neg]
    rfl

omit [LinearOrder K] [FloorRing K] in
theorem value?_neg (x : Number) : x.neg.value? = x.value?.map fun v : K => -v := by
  cases x with
  | finite negative m e => cases negative <;> simp [neg, value?]
  | _ => rfl

/-- So are whole numbers of either sign. -/
theorem value?_ofInt [IsStrictOrderedRing K] {i : Int} (hi : i.natAbs < Nat.pow 2 53) :
    (ofInt i).value? = some (i : K) := by
  have habs : (round false i.natAbs 1).value? = some (i.natAbs : K) := value?_ofNat hi
  unfold ofInt
  rcases le_or_gt 0 i with hpos | hneg
  · have hcast : ((i.natAbs : Int) : K) = i := congrArg Int.cast (Int.natAbs_of_nonneg hpos)
    rw [decide_eq_false (by omega), habs, ← hcast, Int.cast_natCast]
  · have hcast : ((i.natAbs : Int) : K) = ((-i : Int) : K) :=
      congrArg Int.cast (Int.ofNat_natAbs_of_nonpos hneg.le)
    rw [decide_eq_true hneg, round_true, value?_neg, habs, Option.map_some, ← Int.cast_natCast,
      hcast, Int.cast_neg, neg_neg]

end Number

end ChartCompiler
