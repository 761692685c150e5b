import ChartCompiler.Proofs.Expr.Eval

/-! Which parts of an expression are evaluated on a row. The right side of a conjunction or of a
disjunction is only where the left side leaves the value open. What is evaluated on the way to a
value has a value itself, so no array is asked for an item that it does not have. -/

namespace ChartCompiler

variable {K : Type*} [Field K] [LinearOrder K] [FloorRing K] {σ : Runtime K} {row : Row K}

namespace Operator

def decides : Operator → Value K → Bool
  | .and, v => !v.truthy
  | .or, v => v.truthy
  | _, _ => false

/-- An operator that is not done with its left side needs its right one. -/
theorem isSome_of_combine? {op : Operator} {v w : Value K} {right : Option (Value K)}
    (hop : op.decides v = false) (h : op.combine? v right = some w) : right.isSome := by
  cases right with
  | some r => rfl
  | none =>
    cases op with
    | and => simp_all [decides, combine?]
    | or => simp_all [decides, combine?]
    | _ => cases h

end Operator

namespace Expr

mutual

/-- The parts of an expression that are evaluated, and itself. -/
def demanded (σ : Runtime K) (row : Row K) : Expr → List Expr
  | .ident n => [.ident n]
  | .member e p => .member e p :: demanded σ row e
  | .index e i => .index e i :: (demanded σ row e ++ demanded σ row i)
  | .number v => [.number v]
  | .string s => [.string s]
  | .bool b => [.bool b]
  | .null => [.null]
  | .not e => .not e :: demanded σ row e
  | .binary op l r =>
    .binary op l r :: (demanded σ row l ++
      if (eval σ row l).any op.decides then [] else demanded σ row r)
  | .call f args => .call f args :: demandedOfArgs σ row args

def demandedOfArgs (σ : Runtime K) (row : Row K) : List Expr → List Expr
  | [] => []
  | e :: es => demanded σ row e ++ demandedOfArgs σ row es

end

mutual

theorem isSome_of_demanded (e : Expr) {v : Value K} (h : e.eval σ row = some v) :
    ∀ p ∈ e.demanded σ row, (p.eval σ row).isSome := by
  have hself : (e.eval σ row).isSome := Option.isSome_iff_exists.2 ⟨v, h⟩
  cases e with
  | ident n => exact List.forall_mem_singleton.2 hself
  | number x => exact List.forall_mem_singleton.2 hself
  | string s => exact List.forall_mem_singleton.2 hself
  | bool b => exact List.forall_mem_singleton.2 hself
  | null => exact List.forall_mem_singleton.2 hself
  | member e p =>
    rw [eval] at h
    obtain ⟨w, he, -⟩ := Option.bind_eq_some_iff.1 h
    exact List.forall_mem_cons.2 ⟨hself, isSome_of_demanded e he⟩
  | index e i =>
    rw [eval] at h
    obtain ⟨w, he, hitem⟩ := Option.bind_eq_some_iff.1 h
    obtain ⟨u, hi, -⟩ := Option.bind_eq_some_iff.1 hitem
    exact List.forall_mem_cons.2 ⟨hself,
      List.forall_mem_append.2 ⟨isSome_of_demanded e he, isSome_of_demanded i hi⟩⟩
  | not e =>
    rw [eval] at h
    obtain ⟨w, he, -⟩ := Option.map_eq_some_iff.1 h
    exact List.forall_mem_cons.2 ⟨hself, isSome_of_demanded e he⟩
  | binary op l r =>
    rw [eval] at h
    obtain ⟨w, hl, hcombine⟩ := Option.bind_eq_some_iff.1 h
    refine List.forall_mem_cons.2 ⟨hself,
      List.forall_mem_append.2 ⟨isSome_of_demanded l hl, ?_⟩⟩
    rw [hl, Option.any_some]
    cases hop : op.decides w with
    | true => exact List.forall_mem_nil _
    | false =>
      obtain ⟨u, hr⟩ := Option.isSome_iff_exists.1 (Operator.isSome_of_combine? hop hcombine)
      exact isSome_of_demanded r hr
  | call f args =>
    rw [eval] at h
    obtain ⟨vs, hargs, -⟩ := Option.bind_eq_some_iff.1 h
    exact List.forall_mem_cons.2 ⟨hself, isSome_of_demandedOfArgs args hargs⟩

theorem isSome_of_demandedOfArgs (args : List Expr) {vs : List (Value K)}
    (h : evalArgs σ row args = some vs) :
    ∀ p ∈ demandedOfArgs σ row args, (p.eval σ row).isSome := by
  cases args with
  | nil => exact List.forall_mem_nil _
  | cons e es =>
    rw [evalArgs] at h
    obtain ⟨v, he, hrest⟩ := Option.bind_eq_some_iff.1 h
    obtain ⟨ws, hes, -⟩ := Option.map_eq_some_iff.1 hrest
    exact List.forall_mem_append.2 ⟨isSome_of_demanded e he, isSome_of_demandedOfArgs es hes⟩

end

/-- The item before the first has no value. -/
theorem eval_index_neg_one [IsStrictOrderedRing K] {e i : Expr}
    (hi : i.eval σ row = some (.number (-1))) : (index e i).eval σ row = none := by
  rw [eval, hi]
  cases e.eval σ row with
  | none => rfl
  | some v => exact v.item?_neg_one

end Expr

end ChartCompiler
