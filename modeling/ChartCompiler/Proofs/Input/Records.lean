import ChartCompiler.Proofs.Input.Changes
import Mathlib.Data.List.Nodup

/-! How a change shows in the fields of a record. A reader of records sees an object or an array
only through its fields, so all that counts is what each field held before and after: the same, a
value with a change inside it, or nothing and then the default. -/

namespace ChartCompiler.Input

/-! ### Results -/

/-- Two results that are the same error, or values in a relation. -/
inductive Alike {α : Type} (R : α → α → Prop) : Except Refusal α → Except Refusal α → Prop
  | ok {a a' : α} (h : R a a') : Alike R (.ok a) (.ok a')
  | error (e : Refusal) : Alike R (.error e) (.error e)

namespace Alike

variable {α β : Type} {R : α → α → Prop} {S : β → β → Prop} {x x' : Except Refusal α}

theorem refl (h : ∀ a, R a a) (x : Except Refusal α) : Alike R x x := by
  cases x with
  | error e => exact .error e
  | ok a => exact .ok (h a)

theorem bind {f f' : α → Except Refusal β} (h : Alike R x x')
    (hf : ∀ a a', R a a' → Alike S (f a) (f' a')) : Alike S (x >>= f) (x' >>= f') := by
  cases h with
  | error e => exact .error e
  | ok h => exact hf _ _ h

theorem map {f f' : α → β} (h : Alike R x x') (hf : ∀ a a', R a a' → S (f a) (f' a')) :
    Alike S (x.map f) (x'.map f') := by
  cases h with
  | error e => exact .error e
  | ok h => exact .ok (hf _ _ h)

theorem mono {R' : α → α → Prop} (h : Alike R x x') (himp : ∀ a a', R a a' → R' a a') :
    Alike R' x x' := by
  cases h with
  | error e => exact .error e
  | ok h => exact .ok (himp _ _ h)

end Alike

/-! ### Members of one name -/

def withName (n : String) (ms : List (String × Json)) : List (String × Json) :=
  ms.filter fun m => m.1 == n

/-- Two objects at one name: it is repeated in both, or each has at most one member of that name,
and what these hold is in a relation. -/
inductive AtName (P : Option Json → Option Json → Prop) (n : String)
    (ms ms' : List (String × Json)) : Prop
  | repeated (h : 1 < (withName n ms).length) (h' : 1 < (withName n ms').length)
  | single (o o' : Option Json) (h : withName n ms = (o.map (n, ·)).toList)
    (h' : withName n ms' = (o'.map (n, ·)).toList) (hP : P o o')

theorem withName_cons_self (n : String) (j : Json) (ms : List (String × Json)) :
    withName n ((n, j) :: ms) = (n, j) :: withName n ms := by
  simp [withName]

theorem withName_cons_of_ne {n : String} {m : String × Json} (h : m.1 ≠ n)
    (ms : List (String × Json)) : withName n (m :: ms) = withName n ms := by
  simp [withName, h]

theorem withName_eq_nil {n : String} {ms : List (String × Json)} (h : ∀ m ∈ ms, m.1 ≠ n) :
    withName n ms = [] := by
  simpa [withName] using h

theorem lookup_eq_head? (n : String) (ms : List (String × Json)) :
    ms.lookup n = (withName n ms).head?.map Prod.snd := by
  induction ms with
  | nil => rfl
  | cons m ms ih =>
    by_cases h : m.1 = n
    · obtain ⟨_, j⟩ := m
      subst h
      simp [withName_cons_self]
    · rw [withName_cons_of_ne h, ← ih, List.lookup_cons]
      simp [beq_eq_false_iff_ne.2 (Ne.symm h)]

/-- The members of a name that is not repeated. -/
theorem withName_cases (n : String) (ms : List (String × Json)) :
    1 < (withName n ms).length ∨ ∃ o : Option Json, withName n ms = (o.map (n, ·)).toList := by
  have hname : ∀ m ∈ withName n ms, m.1 = n := by
    intro m hm
    simpa using (List.mem_filter.1 hm).2
  match hw : withName n ms with
  | [] => exact .inr ⟨none, rfl⟩
  | [(m, j)] =>
    obtain rfl : m = n := hname (m, j) (by simp [hw])
    exact .inr ⟨some j, rfl⟩
  | _ :: _ :: _ => exact .inl (by simp)

theorem withName_untagged {n : String} (hn : n ≠ "type") (ms : List (String × Json)) :
    withName n (ms.filter fun m => m.1 != "type") = withName n ms := by
  rw [withName, withName, List.filter_filter]
  refine List.filter_congr fun m _ => ?_
  by_cases hm : m.1 = n
  · simp [hm, hn]
  · simp [hm]

namespace AtName

variable {P : Option Json → Option Json → Prop} {n : String} {ms ms' : List (String × Json)}

theorem of_eq (hP : ∀ o, P o o) (h : withName n ms = withName n ms') : AtName P n ms ms' := by
  rcases withName_cases n ms with hmany | ⟨o, ho⟩
  · exact .repeated hmany (h ▸ hmany)
  · exact .single o o ho (h ▸ ho) (hP o)

/-- The tag is read apart from the fields. -/
theorem untagged (h : AtName P n ms ms') (hn : n ≠ "type") :
    AtName P n (ms.filter fun m => m.1 != "type") (ms'.filter fun m => m.1 != "type") := by
  cases h with
  | repeated h h' =>
    exact .repeated (by rwa [withName_untagged hn]) (by rwa [withName_untagged hn])
  | single o o' h h' hP =>
    exact .single o o' (by rwa [withName_untagged hn]) (by rwa [withName_untagged hn]) hP

end AtName

/-! ### Fields -/

theorem get_of_fields_object {names : List String} {ms : List (String × Json)}
    {get : String → Option Json} (h : fields names (.object ms) = .ok get) (n : String) :
    get n = ms.lookup n := by
  rw [fields] at h
  split at h
  · cases h
  · cases h
    rfl

theorem get_of_fields_array {names : List String} {js : List Json} {get : String → Option Json}
    (h : fields names (.array js) = .ok get) (n : String) : get n = (names.zip js).lookup n := by
  rw [fields] at h
  split at h
  · cases h
  · cases h
    rfl

section Object

variable {names : List String} {ms ms' : List (String × Json)}

theorem countP_eq_length (n : String) (ms : List (String × Json)) :
    (ms.countP fun m => m.1 == n) = (withName n ms).length := List.countP_eq_length_filter

theorem fields_object_repeated {n : String} (hn : n ∈ names) (h : 1 < (withName n ms).length) :
    fields names (.object ms) = .error .wrongShape := by
  rw [fields, if_pos]
  exact List.any_eq_true.2 ⟨n, hn, by simpa [countP_eq_length] using h⟩

theorem fields_object_single
    (h : ∀ n ∈ names, ∃ o : Option Json, withName n ms = (o.map (n, ·)).toList) :
    fields names (.object ms) = .ok fun n => ms.lookup n := by
  rw [fields, if_neg]
  rw [List.any_eq_true]
  rintro ⟨n, hn, hlen⟩
  obtain ⟨o, ho⟩ := h n hn
  rw [countP_eq_length, ho] at hlen
  cases o <;> simp at hlen

/-- Repeated fields make both refused; where there are none, the fields are related one by one. -/
theorem fields_object {P : String → Option Json → Option Json → Prop}
    (h : ∀ n ∈ names, AtName (P n) n ms ms') :
    Alike (fun get get' => ∀ n ∈ names, P n (get n) (get' n))
      (fields names (.object ms)) (fields names (.object ms')) := by
  by_cases hrep : ∃ n ∈ names, 1 < (withName n ms).length ∧ 1 < (withName n ms').length
  · obtain ⟨n, hn, hlen, hlen'⟩ := hrep
    rw [fields_object_repeated hn hlen, fields_object_repeated hn hlen']
    exact .error _
  · have hsingle : ∀ n ∈ names, ∃ o o', withName n ms = (o.map (n, ·)).toList ∧
        withName n ms' = (o'.map (n, ·)).toList ∧ P n o o' := by
      intro n hn
      cases h n hn with
      | repeated h h' => exact absurd ⟨n, hn, h, h'⟩ hrep
      | single o o' ho ho' hP => exact ⟨o, o', ho, ho', hP⟩
    rw [fields_object_single fun n hn => (hsingle n hn).imp fun o ⟨_, ho, _⟩ => ho,
      fields_object_single fun n hn => (hsingle n hn).elim fun _ ⟨o', _, ho', _⟩ => ⟨o', ho'⟩]
    refine .ok fun n hn => ?_
    obtain ⟨o, o', ho, ho', hP⟩ := hsingle n hn
    rw [lookup_eq_head?, lookup_eq_head?, ho, ho']
    cases o <;> cases o' <;> exact hP

end Object

/-! ### Tags -/

section Tag

variable {α : Type} [Named α] {ms : List (String × Json)} {t : Json}

theorem tagged_single (form : TagForm) (h : withName "type" ms = [("type", t)]) :
    tagged (α := α) form (.object ms) =
      (tag form t).map (·, .object (ms.filter fun m => m.1 != "type")) := by
  rw [withName] at h
  simp only [tagged, h]
  cases tag (α := α) form t <;> rfl

theorem tagged_error (form : TagForm) (h : (withName "type" ms).length ≠ 1) :
    tagged (α := α) form (.object ms) = .error .wrongShape := by
  rw [withName] at h
  simp only [tagged]
  split
  · next heq => simp [heq] at h
  · rfl

end Tag

/-! ### Changes -/

inductive Field (Q : Part → Json → Json → Prop) (p : Part) (defaults : List (String × Json))
    (n : String) : Option Json → Option Json → Prop
  | same (o : Option Json) : Field Q p defaults n o o
  | changed {j j' : Json} (h : Q (p.field n) j j') : Field Q p defaults n (some j) (some j')
  | added {j : Json} (h : (n, j) ∈ defaults) : Field Q p defaults n none (some j)

section Member

variable {Q : Part → Json → Json → Prop} {p : Part} {defaults : List (String × Json)}

theorem atName_reorder {ms ms' : List (String × Json)} (h : ms.Perm ms') (n : String) :
    AtName (Field Q p defaults n) n ms ms' := by
  have hperm : (withName n ms).Perm (withName n ms') := h.filter _
  rcases withName_cases n ms with hmany | ⟨o, ho⟩
  · exact .repeated hmany (hperm.length_eq ▸ hmany)
  · refine .of_eq .same ?_
    rw [ho] at hperm ⊢
    cases o with
    | none => exact (List.nil_perm.1 hperm).symm
    | some j => exact List.singleton_perm.1 hperm

theorem atName_added {name : String} {j : Json} {ms : List (String × Json)} {n : String}
    (h : n = name → (∀ m ∈ ms, m.1 ≠ name) ∧ (name, j) ∈ defaults) :
    AtName (Field Q p defaults n) n ms ((name, j) :: ms) := by
  by_cases hn : n = name
  · obtain ⟨hmissing, hdefault⟩ := h hn
    subst hn
    refine .single none (some j) (withName_eq_nil hmissing) ?_ (.added hdefault)
    rw [withName_cons_self, withName_eq_nil hmissing]
    rfl
  · exact .of_eq .same (withName_cons_of_ne (Ne.symm hn) ms).symm

theorem atName_member {before after : List (String × Json)} {name : String} {j j' : Json}
    (h : Q (p.field name) j j') (n : String) :
    AtName (Field Q p defaults n) n (before ++ (name, j) :: after)
      (before ++ (name, j') :: after) := by
  have happend : ∀ j, withName n (before ++ (name, j) :: after) =
      withName n before ++ withName n ((name, j) :: after) := fun j => List.filter_append ..
  by_cases hn : name = n
  · subst hn
    simp only [withName_cons_self] at happend
    by_cases halone : withName name before = [] ∧ withName name after = []
    · exact .single (some j) (some j') (by simp [happend, halone]) (by simp [happend, halone])
        (.changed h)
    · have hrest : 0 < (withName name before).length + (withName name after).length := by
        simp only [← List.length_eq_zero_iff] at halone
        omega
      refine .repeated ?_ ?_ <;>
      · rw [happend, List.length_append, List.length_cons]
        omega
  · refine .of_eq .same ?_
    rw [happend, happend, withName_cons_of_ne hn, withName_cons_of_ne hn]

end Member

theorem map_fst_zip_sublist (names : List String) (js : List Json) :
    ((names.zip js).map Prod.fst).Sublist names := by
  induction names generalizing js with
  | nil => exact List.Sublist.refl []
  | cons n names ih =>
    cases js with
    | nil => exact List.nil_sublist _
    | cons j js => exact (ih js).cons_cons n

/-- An array that lists fields is read like an object with these fields. -/
theorem fields_array {names : List String} (hnodup : names.Nodup) {js : List Json}
    (hlen : js.length ≤ names.length) :
    fields names (.array js) = fields names (.object (names.zip js)) := by
  have hcount : ∀ n, ((names.zip js).countP fun m => m.1 == n) ≤ 1 := by
    intro n
    have hfst : (names.zip js).countP (fun m => m.1 == n) =
        ((names.zip js).map Prod.fst).count n := by
      rw [List.count, List.countP_map]
      rfl
    rw [hfst]
    exact List.nodup_iff_count_le_one.1 (hnodup.sublist (map_fst_zip_sublist names js)) n
  have hnone : ¬(names.any fun n => 1 < (names.zip js).countP fun m => m.1 == n) := by
    rw [List.any_eq_true]
    rintro ⟨n, -, hn⟩
    have := hcount n
    simp only [decide_eq_true_eq] at hn
    omega
  rw [fields, fields, if_neg (by omega), if_neg hnone]

/-- A change at a position is one to the field of that position. -/
theorem fields_items {Q : Part → Json → Json → Prop} {p : Part} {defaults : List (String × Json)}
    {names : List String} (hnodup : names.Nodup) {before after : List Json} {j j' : Json}
    (h : Q ((names[before.length]?).elim .plain p.field) j j') :
    Alike (fun get get' => ∀ n ∈ names, Field Q p defaults n (get n) (get' n))
      (fields names (.array (before ++ j :: after)))
      (fields names (.array (before ++ j' :: after))) := by
  by_cases hlen : (before ++ j :: after).length ≤ names.length
  · have hlen' : (before ++ j' :: after).length ≤ names.length := by simpa using hlen
    rw [fields_array hnodup hlen, fields_array hnodup hlen']
    have hlt : before.length < names.length := by
      simp only [List.length_append, List.length_cons] at hlen
      omega
    -- the names are those of the items before, that of the item, and those of the items after
    have hsplit : names = names.take before.length ++
        names[before.length] :: names.drop (before.length + 1) := by
      rw [← List.drop_eq_getElem_cons hlt, List.take_append_drop]
    have hzip : ∀ i, names.zip (before ++ i :: after) =
        (names.take before.length).zip before ++
          (names[before.length], i) :: (names.drop (before.length + 1)).zip after := by
      intro i
      have htake : (names.take before.length).length = before.length := by
        rw [List.length_take]
        omega
      rw [← List.zip_cons_cons, ← List.zip_append htake, ← hsplit]
    rw [hzip, hzip]
    refine fields_object fun n _ => atName_member ?_ n
    simpa [hlt] using h
  · have hlen' : ¬(before ++ j' :: after).length ≤ names.length := by simpa using hlen
    rw [fields, fields, if_pos (by omega), if_pos (by omega)]
    exact .error _

/-! ### Records -/

inductive Record (Q : Part → Json → Json → Prop) (p : Part) : Json → Json → Prop
  | object {ms ms' : List (String × Json)}
    (h : ∀ n ∈ p.fields (.object ms), AtName (Field Q p (p.defaults (.object ms)) n) n ms ms') :
    Record Q p (.object ms) (.object ms')
  | array {before after : List Json} {j j' : Json}
    (h : Q (p.item (.array (before ++ j :: after)) before.length) j j') :
    Record Q p (.array (before ++ j :: after)) (.array (before ++ j' :: after))

end ChartCompiler.Input
