import ChartCompiler.Proofs.Document.FirstTrue
import ChartCompiler.Proofs.Expr.Demand

/-! The value of a rule on a row: what the first value with a true test comes out as. On the way to
it the tests up to that one are evaluated, and the value's own expression, and nothing else. -/

namespace ChartCompiler

variable {K : Type*} [Field K] [LinearOrder K] [FloorRing K] {σ : Runtime K} {row : Row K}

/-- What a literal holds. Lists and objects are left out. -/
def Json.value? : Json → Option (Value K)
  | .null => some .null
  | .bool b => some (.bool b)
  | .int i => some (.number i)
  | .float x => x.value?.map .number
  | .text s => some (.text s)
  | .array _ | .object _ => none

namespace ChannelValue

/-- What a value comes out as, by its expression or else by its literal. Scales are left out. -/
def eval (σ : Runtime K) (row : Row K) (v : ChannelValue) : Option (Value K) :=
  v.signal.elim (v.value.bind Json.value?) (Expr.eval σ row)

def demanded (σ : Runtime K) (row : Row K) (v : ChannelValue) : List Expr :=
  v.signal.elim [] (Expr.demanded σ row)

theorem eval_ofSignal (e : Expr) : (ofSignal e).eval σ row = e.eval σ row := rfl

theorem eval_guarded (v : ChannelValue) (e : Expr) : (v.guarded e).eval σ row = v.eval σ row := rfl

theorem isSome_of_demanded {v : ChannelValue} {x : Value K} (h : v.eval σ row = some x) :
    ∀ p ∈ v.demanded σ row, (p.eval σ row).isSome := by
  unfold eval at h
  unfold demanded
  cases hs : v.signal with
  | none => exact List.forall_mem_nil _
  | some e =>
    rw [hs, Option.elim_some] at h
    exact Expr.isSome_of_demanded e h

end ChannelValue

namespace Rule

def outcome (σ : Runtime K) (row : Row K) (e : Expr) : Option Bool :=
  (e.eval σ row).map Value.truthy

def eval (σ : Runtime K) (row : Row K) (r : Rule) : Option (Value K) :=
  (r.pick? (outcome σ row)).bind (ChannelValue.eval σ row)

def demandedOf (σ : Runtime K) (row : Row K) : List ChannelValue → List Expr
  | [] => []
  | v :: vs => v.test.elim (v.demanded σ row) fun e =>
    e.demanded σ row ++
      if outcome σ row e = some true then v.demanded σ row else demandedOf σ row vs

def demanded (σ : Runtime K) (row : Row K) (r : Rule) : List Expr := demandedOf σ row r.values

/-- A value for the rows in which a test is true, and one for all others. -/
theorem eval_guarded_or {v last : ChannelValue} {e : Expr} {x : Value K}
    (he : e.eval σ row = some x) (hlast : last.test = none) :
    (firstOf [v.guarded e, last]).eval σ row =
      if x.truthy then v.eval σ row else last.eval σ row := by
  have houtcome : outcome σ row e = some x.truthy := by rw [outcome, he, Option.map_some]
  unfold eval pick?
  rw [values, firstTrue?_tested rfl houtcome, firstTrue?_untested hlast]
  cases x.truthy with
  | true => exact v.eval_guarded e
  | false => rfl

theorem isSome_of_demandedOf {vs : List ChannelValue} {x : Value K}
    (h : (firstTrue? (outcome σ row) vs).bind (ChannelValue.eval σ row) = some x) :
    ∀ p ∈ demandedOf σ row vs, (p.eval σ row).isSome := by
  induction vs with
  | nil => exact List.forall_mem_nil _
  | cons v vs ih =>
    unfold demandedOf
    cases hv : v.test with
    | none =>
      rw [firstTrue?_untested hv, Option.bind_some] at h
      exact ChannelValue.isSome_of_demanded h
    | some e =>
      cases he : e.eval σ row with
      | none =>
        -- without an outcome of its test the rule would have no value
        rw [firstTrue?, hv, Option.elim_some, outcome, he] at h
        cases h
      | some y =>
        have houtcome : outcome σ row e = some y.truthy := by rw [outcome, he, Option.map_some]
        rw [firstTrue?_tested hv houtcome] at h
        rw [Option.elim_some, houtcome, List.forall_mem_append]
        refine ⟨Expr.isSome_of_demanded e he, ?_⟩
        cases hy : y.truthy with
        | true =>
          rw [hy] at h
          exact ChannelValue.isSome_of_demanded h
        | false =>
          rw [hy] at h
          exact ih h

/-- A rule that has a value asked no array for the item before the first. -/
theorem eval_position_ne [IsStrictOrderedRing K] {r : Rule} {x : Value K}
    (h : r.eval σ row = some x) {e i : Expr} (hd : Expr.index e i ∈ r.demanded σ row) :
    i.eval σ row ≠ some (.number (-1)) := by
  intro hi
  have hsome := isSome_of_demandedOf h _ hd
  rw [Expr.eval_index_neg_one hi] at hsome
  cases hsome

end Rule

end ChartCompiler
