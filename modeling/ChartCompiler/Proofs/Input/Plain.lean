import ChartCompiler.Proofs.Input.Records

/-! The readers of plain values. They look at texts and numbers, which have nothing inside to
change, and at lists of these; and an object that they read has one member. So a plain value can be
reordered inside only where it is refused. -/

namespace ChartCompiler.Input

/-- A reader that no change inside a plain value can be seen by. -/
def IsPlain {α : Type} (r : Reader α) : Prop := ∀ j j', Change .plain j j' → r j = r j'

/-- A change to a plain value puts the members of an object in another order, or stands inside an
object or an array. -/
theorem Change.plain_cases {j j' : Json} (h : Change .plain j j') :
    (∃ ms ms', ms.Perm ms' ∧ j = .object ms ∧ j' = .object ms') ∨
      (∃ before after n i i', Change .plain i i' ∧ j = .object (before ++ (n, i) :: after) ∧
        j' = .object (before ++ (n, i') :: after)) ∨
      ∃ before after i i', Change .plain i i' ∧ j = .array (before ++ i :: after) ∧
        j' = .array (before ++ i' :: after) := by
  cases h with
  | reorder h => exact .inl ⟨_, _, h, rfl, rfl⟩
  | unknown hopen => cases hopen
  | default _ h => cases h
  | member h => exact .inr (.inl ⟨_, _, _, _, _, h, rfl, rfl⟩)
  | item h => exact .inr (.inr ⟨_, _, _, _, by simpa [Part.item, Part.fields] using h, rfl, rfl⟩)

theorem text_plain : IsPlain text := by
  intro j j' h
  cases h <;> rfl

theorem flag_plain : IsPlain flag := by
  intro j j' h
  cases h <;> rfl

theorem number_plain : IsPlain number := by
  intro j j' h
  cases h <;> rfl

section

variable {α β : Type} {r : Reader α}

theorem tag_plain [Named α] (form : TagForm) : IsPlain (tag (α := α) form) := by
  intro j j' h
  cases h <;> rfl

theorem IsPlain.map (hr : IsPlain r) (f : α → β) : IsPlain fun j => (r j).map f := by
  intro j j' h
  exact congrArg (Except.map f) (hr j j' h)

theorem IsPlain.either (hr : IsPlain r) {s : Reader α} (hs : IsPlain s) :
    IsPlain (either r s) := by
  intro j j' h
  rw [Input.either, Input.either, hr j j' h, hs j j' h]

theorem IsPlain.optional (hr : IsPlain r) : IsPlain (optional r) := by
  intro j j' h
  have hmap := congrArg (Except.map some) (hr j j' h)
  -- neither value is null
  cases h <;> exact hmap

theorem IsPlain.list (hr : IsPlain r) : IsPlain (list r) := by
  intro j j' h
  rcases h.plain_cases with ⟨_, _, -, rfl, rfl⟩ | ⟨_, _, _, _, _, -, rfl, rfl⟩ |
    ⟨_, _, _, _, hi, rfl, rfl⟩
  · rfl
  · rfl
  · simp only [Input.list, List.mapM_append, List.mapM_cons, hr _ _ hi]

theorem IsPlain.pair (hr : IsPlain r) : IsPlain (pair r) := by
  intro j j' h
  rcases h.plain_cases with ⟨_, _, -, rfl, rfl⟩ | ⟨_, _, _, _, _, -, rfl, rfl⟩ |
    ⟨before, after, _, _, hi, rfl, rfl⟩
  · rfl
  · rfl
  · match before, after with
    | [], [_] | [_], [] => simp only [List.nil_append, List.cons_append, Input.pair, hr _ _ hi]
    | [], [] | [], _ :: _ :: _ | [_], _ :: _ | [_, _], _ | _ :: _ :: _ :: _, _ => rfl

theorem admits_object (payload : Payload) (ms : List (String × Json)) :
    payload.admits (.object ms) = (payload = .nullOrEmpty && ms.isEmpty) := by
  cases payload <;> cases ms <;> rfl

/-- Beside the name stands null or an empty object, and neither can be changed. -/
theorem admits_plain (payload : Payload) {j j' : Json} (h : Change .plain j j') :
    payload.admits j = payload.admits j' := by
  rcases h.plain_cases with ⟨_, _, hperm, rfl, rfl⟩ | ⟨before, _, _, _, _, -, rfl, rfl⟩ |
    ⟨_, _, _, _, -, rfl, rfl⟩
  · rw [admits_object, admits_object, hperm.isEmpty_eq]
  · rw [admits_object, admits_object]
    cases before <;> rfl
  · cases payload <;> rfl

theorem named_object_of_length_ne_one [Named α] (payload : Payload) {ms : List (String × Json)}
    (h : ms.length ≠ 1) : named (α := α) payload (.object ms) = .error .wrongShape := by
  match ms with
  | [] | _ :: _ :: _ => rfl
  | [_] => exact absurd rfl h

theorem named_plain [Named α] (payload : Payload) : IsPlain (named (α := α) payload) := by
  intro j j' h
  rcases h.plain_cases with ⟨ms, ms', hperm, rfl, rfl⟩ | ⟨before, after, n, i, i', hi, rfl, rfl⟩ |
    ⟨_, _, _, _, -, rfl, rfl⟩
  · by_cases hone : ms.length = 1
    · obtain ⟨m, rfl⟩ := List.length_eq_one_iff.1 hone
      rw [List.singleton_perm.1 hperm]
    · rw [named_object_of_length_ne_one payload hone,
        named_object_of_length_ne_one payload (hperm.length_eq ▸ hone)]
  · by_cases hone : before = [] ∧ after = []
    · obtain ⟨rfl, rfl⟩ := hone
      simp only [List.nil_append, named, admits_plain payload hi]
    · have hlen : ∀ i, (before ++ (n, i) :: after).length ≠ 1 := by
        intro i hlen
        simp only [List.length_append, List.length_cons] at hlen
        exact hone ⟨List.length_eq_zero_iff.1 (by omega), List.length_eq_zero_iff.1 (by omega)⟩
      rw [named_object_of_length_ne_one payload (hlen i),
        named_object_of_length_ne_one payload (hlen i')]
  · rfl

end

theorem lineType_plain : IsPlain lineType :=
  ((named_plain .null).map _).either (number_plain.list.map _)

theorem lineWidth_plain : IsPlain lineWidth :=
  ((named_plain .null).map _).either (number_plain.map _)

theorem scheme_plain : IsPlain scheme := named_plain .null

end ChartCompiler.Input
