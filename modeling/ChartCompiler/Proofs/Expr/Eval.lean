import ChartCompiler.Proofs.Expr.Value

/-! The value of an expression on a row. Signals and functions are given from outside. Where a
subexpression that is needed has no value, the whole has none. -/

namespace ChartCompiler

structure Runtime (K : Type*) where
  signal : String → Option (Value K)
  call : String → List (Value K) → Option (Value K)

/-- The fields of a row, undefined where it has none. -/
abbrev Row (K : Type*) := String → Value K

variable {K : Type*} [Field K] [LinearOrder K] [FloorRing K] {σ : Runtime K} {row : Row K}

namespace Expr

mutual

def eval (σ : Runtime K) (row : Row K) : Expr → Option (Value K)
  | .ident n => if n = "datum" then some (.object row) else σ.signal n
  | .member e p => (eval σ row e).bind (Value.member? p)
  | .index e i => (eval σ row e).bind fun v => (eval σ row i).bind v.item?
  | .number v => v.value?.map .number
  | .string s => some (.text s)
  | .bool b => some (.bool b)
  | .null => some .null
  | .not e => (eval σ row e).map fun v => .bool !v.truthy
  | .binary op l r => (eval σ row l).bind fun v => op.combine? v (eval σ row r)
  | .call f args => (evalArgs σ row args).bind (σ.call f)

def evalArgs (σ : Runtime K) (row : Row K) : List Expr → Option (List (Value K))
  | [] => some []
  | e :: es => (eval σ row e).bind fun v => (evalArgs σ row es).map (v :: ·)

end

attribute [local simp] eval evalArgs

@[simp] theorem eval_datum (f : String) : (datum f).eval σ row = some (row f) := by
  simp [datum, eval, Value.member?]

@[simp] theorem eval_string (s : String) : (string s).eval σ row = some (.text s) := by
  rw [eval]

theorem eval_call_one {f : String} {a : Expr} {v : Value K} (ha : a.eval σ row = some v) :
    (call f [a]).eval σ row = σ.call f [v] := by
  rw [Expr.eval, Expr.evalArgs, Expr.evalArgs, ha]
  rfl

theorem eval_call_two {f : String} {a b : Expr} {v w : Value K} (ha : a.eval σ row = some v)
    (hb : b.eval σ row = some w) : (call f [a, b]).eval σ row = σ.call f [v, w] := by
  rw [Expr.eval, Expr.evalArgs, Expr.evalArgs, Expr.evalArgs, ha, hb]
  rfl

section Lookup

variable {a b e i : Expr} {v w : Value K}

theorem eval_signal {n : String} (hn : n ≠ "datum") : (signal n).eval σ row = σ.signal n := by
  rw [signal, eval, if_neg hn]

theorem eval_member (he : e.eval σ row = some v) (p : String) :
    (member e p).eval σ row = v.member? p := by
  rw [eval, he, Option.bind_some]

theorem eval_index (he : e.eval σ row = some v) (hi : i.eval σ row = some w) :
    (index e i).eval σ row = v.item? w := by
  rw [eval, he, hi, Option.bind_some, Option.bind_some]

theorem eval_and (ha : a.eval σ row = some v) :
    (a.and b).eval σ row = if v.truthy then b.eval σ row else some v := by
  rw [Expr.and, eval, ha, Option.bind_some, Operator.combine?]

theorem eval_strictNe (ha : a.eval σ row = some v) (hb : b.eval σ row = some w) :
    (a.strictNe b).eval σ row = (v.strictEq? w).map fun same => .bool !same := by
  rw [strictNe, eval, ha, hb, Option.bind_some]
  rfl

end Lookup

section Arithmetic

variable {a b : Expr} {x y : K} {s t : String}

theorem eval_add_text (ha : a.eval σ row = some (.text s)) (hb : b.eval σ row = some (.text t)) :
    (a + b).eval σ row = some (.text (s ++ t)) := by
  change (binary .add a b).eval σ row = _
  rw [eval, ha, hb, Option.bind_some, Operator.combine?_add_text]

theorem eval_add_number (ha : a.eval σ row = some (.number x))
    (hb : b.eval σ row = some (.number y)) : (a + b).eval σ row = some (.number (x + y)) := by
  change (binary .add a b).eval σ row = _
  rw [eval, ha, hb, Option.bind_some, Operator.combine?_add_number]

theorem eval_mul_number (ha : a.eval σ row = some (.number x))
    (hb : b.eval σ row = some (.number y)) : (a * b).eval σ row = some (.number (x * y)) := by
  change (binary .mul a b).eval σ row = _
  rw [eval, ha, hb, Option.bind_some, Operator.combine?_mul_number]

/-- Counts are far below the numbers that are not held exactly. -/
theorem eval_nat [IsStrictOrderedRing K] {n : Nat} (hn : n < Nat.pow 2 32) :
    (nat n).eval σ row = some (.number (n : K)) := by
  have hbits : n < Nat.pow 2 53 := hn.trans (by decide)
  rw [nat, eval, Number.value?_ofNat hbits, Option.map_some]

theorem eval_int [IsStrictOrderedRing K] {i : Int} (hi : i.natAbs < Nat.pow 2 53) :
    (int i).eval σ row = some (.number (i : K)) := by
  rw [int, eval, Number.value?_ofInt hi, Option.map_some]

/-- A sum is taken from the left, as it is written. -/
theorem eval_foldl_add {α : Type*} {term : α → Expr} {value : α → K} {is : List α}
    (hterm : ∀ i ∈ is, (term i).eval σ row = some (.number (value i)))
    (ha : a.eval σ row = some (.number x)) :
    ((is.map term).foldl (.binary .add) a).eval σ row =
      some (.number (x + (is.map value).sum)) := by
  induction is generalizing a x with
  | nil => simpa using ha
  | cons i is ih =>
    obtain ⟨hi, his⟩ := List.forall_mem_cons.1 hterm
    rw [List.map_cons, List.map_cons, List.sum_cons, ← add_assoc]
    exact ih his (eval_add_number ha hi)

end Arithmetic

end Expr

end ChartCompiler
