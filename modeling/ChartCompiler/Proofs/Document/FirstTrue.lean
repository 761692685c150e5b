import ChartCompiler.Proofs.Document.Resolves

/-! How a rule is read. The values of a channel are tried in their order, and the first one holds
whose test is true. A rule that ends with its only untested value has a value in every row, and none
of its values stands behind one that always holds. -/

namespace ChartCompiler

/-- The first value whose test is true, by what tests come out as. A value without a test always
holds, and a test without an outcome is not passed over. -/
def firstTrue? (outcome : Expr → Option Bool) : List ChannelValue → Option ChannelValue
  | [] => none
  | v :: vs => v.test.elim (some v) fun e =>
    (outcome e).bind fun holds => if holds then some v else firstTrue? outcome vs

section FirstTrue

variable {outcome : Expr → Option Bool} {v : ChannelValue} {vs : List ChannelValue} {e : Expr}

theorem firstTrue?_untested (h : v.test = none) : firstTrue? outcome (v :: vs) = some v := by
  rw [firstTrue?, h, Option.elim_none]

theorem firstTrue?_tested {holds : Bool} (h : v.test = some e) (he : outcome e = some holds) :
    firstTrue? outcome (v :: vs) = if holds then some v else firstTrue? outcome vs := by
  rw [firstTrue?, h, Option.elim_some, he, Option.bind_some]

end FirstTrue

namespace Rule

def pick? (outcome : Expr → Option Bool) (r : Rule) : Option ChannelValue :=
  firstTrue? outcome r.values

/-- A single value is not tested. In a list the last value is not, and all others are. -/
inductive Complete : Rule → Prop
  | single {v : ChannelValue} (h : v.test = none) : Complete (.single v)
  | firstOf {tested : List ChannelValue} {last : ChannelValue}
    (htested : ∀ v ∈ tested, v.test.isSome) (hlast : last.test = none) :
    Complete (.firstOf (tested ++ [last]))

@[simp] theorem complete_single {v : ChannelValue} : (single v).Complete ↔ v.test = none := by
  constructor
  · rintro ⟨h⟩
    exact h
  · exact .single

theorem complete_guarded_or {v last : ChannelValue} {e : Expr} (hlast : last.test = none) :
    (firstOf [v.guarded e, last]).Complete := by
  have htested : ∀ w ∈ [v.guarded e], w.test.isSome := List.forall_mem_singleton.2 rfl
  exact .firstOf htested hlast

/-- A complete rule has a value whatever its tests come out as, and its values end with the one that
always holds. -/
structure Total (r : Rule) : Prop where
  complete : r.Complete
  picks (holds : Expr → Bool) : ∃ v ∈ r.values, r.pick? (fun e => some (holds e)) = some v
  reached (before : List ChannelValue) (v : ChannelValue) (after : List ChannelValue)
    (hvalues : r.values = before ++ v :: after) (hv : v.test = none) : after = []

variable {r : Rule}

theorem Complete.exists_values (h : r.Complete) : ∃ tested last, r.values = tested ++ [last] ∧
    (∀ v ∈ tested, v.test.isSome) ∧ last.test = none := by
  cases h with
  | single h => exact ⟨[], _, rfl, List.forall_mem_nil _, h⟩
  | firstOf htested hlast => exact ⟨_, _, rfl, htested, hlast⟩

/-- Of tested values in front of an untested one, one holds or that one does. -/
theorem exists_firstTrue? (holds : Expr → Bool) {tested : List ChannelValue}
    {last : ChannelValue} (hlast : last.test = none) :
    ∃ v ∈ tested ++ [last],
      firstTrue? (fun e => some (holds e)) (tested ++ [last]) = some v := by
  induction tested with
  | nil => exact ⟨last, List.mem_cons_self, firstTrue?_untested hlast⟩
  | cons w ws ih =>
    obtain ⟨v, hv, hpick⟩ := ih
    rw [List.cons_append]
    cases hw : w.test with
    | none => exact ⟨w, List.mem_cons_self, firstTrue?_untested hw⟩
    | some e =>
      rw [firstTrue?_tested hw rfl]
      cases holds e with
      | true => exact ⟨w, List.mem_cons_self, rfl⟩
      | false => exact ⟨v, List.mem_cons_of_mem w hv, hpick⟩

theorem Complete.total (h : r.Complete) : r.Total where
  complete := h
  picks holds := by
    obtain ⟨tested, last, hvalues, -, hlast⟩ := h.exists_values
    unfold pick?
    rw [hvalues]
    exact exists_firstTrue? holds hlast
  reached before v after hvalues hv := by
    obtain ⟨tested, last, hsplit, htested, -⟩ := h.exists_values
    rw [hsplit] at hvalues
    cases after with
    | nil => rfl
    | cons w ws =>
      -- a value with another one behind it is not the last, so it is among the tested ones
      have htestedeq : tested = before ++ v :: (w :: ws).dropLast := by
        have hdrop := congrArg List.dropLast hvalues
        rwa [List.dropLast_concat, List.dropLast_append_cons, List.dropLast_cons_cons] at hdrop
      have hsome := htested v (by simp [htestedeq])
      rw [hv] at hsome
      cases hsome

end Rule

end ChartCompiler
