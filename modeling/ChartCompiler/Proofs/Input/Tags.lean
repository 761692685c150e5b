import ChartCompiler.Proofs.Input.Readers

/-! What a change comes to in lists and in tagged values. A tag is a plain value, so a change leaves
the kind as it was and shows in the fields of that kind. A child is read like a mark, a tag and then
the content of its kind, though the children of a trendline are read apart from its options. -/

namespace ChartCompiler.Input

/-! ### Lists -/

theorem list_alike {α β : Type} {r : Reader α} {f : α → β} {j j' : Json}
    (h : Alike (EqUnder f) (r j) (r j')) (before after : List Json) :
    Alike (EqUnder (List.map f)) (list r (.array (before ++ j :: after)))
      (list r (.array (before ++ j' :: after))) := by
  simp only [list, List.mapM_append, List.mapM_cons]
  refine (Alike.under id (before.mapM r)).bind ?_
  rintro xs _ rfl
  have hrest : Alike (EqUnder (List.map f))
      (r j >>= fun a => after.mapM r >>= fun as => pure (a :: as))
      (r j' >>= fun a => after.mapM r >>= fun as => pure (a :: as)) := by
    refine h.bind fun a a' ha => (Alike.under id (after.mapM r)).bind ?_
    rintro as _ rfl
    rw [EqUnder] at ha
    exact .ok (by simp [EqUnder, ha])
  refine hrest.bind fun ys ys' hys => ?_
  rw [EqUnder] at hys
  exact .ok (by simp [EqUnder, hys])

/-! ### Tags -/

structure TaggedPart (κ : Type) [Kind κ] (p : Part) : Prop where
  fields : ∀ j, p.fields j = taggedFields κ j
  defaults : ∀ j, p.defaults j = taggedDefaults κ j
  item : ∀ j i, p.item j i = ((p.fields j)[i]?).elim .plain p.field
  tag : p.field "type" = .plain
  nodup : ∀ k : κ, (Kind.fields k).Nodup
  untagged : ∀ k : κ, "type" ∉ Kind.fields k
  undefaulted : ∀ k : κ, ∀ m ∈ Kind.defaults k, m.1 ≠ "type"

theorem mark_tagged : TaggedPart MarkKind .mark where
  fields _ := rfl
  defaults _ := rfl
  item _ _ := rfl
  tag := rfl
  nodup k := by cases k <;> decide
  untagged k := by cases k <;> decide
  undefaulted k := by cases k <;> decide

theorem child_tagged : TaggedPart ChildKind .child where
  fields _ := rfl
  defaults _ := rfl
  item _ _ := rfl
  tag := rfl
  nodup k := by cases k <;> decide
  untagged k := by cases k <;> decide
  undefaulted k := by cases k <;> decide

section Tagged

variable {κ : Type} [Kind κ] {p : Part} {ms ms' : List (String × Json)} {t j j' : Json}

theorem tagged_object_content {form : TagForm} {x : κ × Json}
    (h : tagged form (.object ms) = .ok x) :
    x.2 = .object (ms.filter fun m => m.1 != "type") := by
  obtain hmany | ⟨_ | t, ho⟩ := withName_cases "type" ms
  · rw [tagged_error form (by omega)] at h
    cases h
  · rw [tagged_error form (by simp [ho])] at h
    cases h
  · rw [tagged_single form ho] at h
    cases ht : tag (α := κ) form t with
    | error e =>
      rw [ht] at h
      cases h
    | ok k =>
      rw [ht] at h
      cases h
      rfl

/-- The fields and defaults of an object whose tag writes a kind. -/
theorem TaggedPart.of_kind? (hp : TaggedPart κ p) {k : κ} (h : kind? κ j = some k) :
    p.fields j = "type" :: Kind.fields k ∧ p.defaults j = Kind.defaults k := by
  rw [hp.fields, hp.defaults, taggedFields, taggedDefaults, h]
  exact ⟨rfl, rfl⟩

theorem TaggedPart.type_not_default (hp : TaggedPart κ p) (t : Json) :
    ("type", t) ∉ p.defaults j := by
  rw [hp.defaults, taggedDefaults]
  cases kind? κ j with
  | none => exact List.not_mem_nil
  | some k => exact fun h => hp.undefaulted k _ h rfl

def ContentsAlike (p : Part) (x x' : κ × Json) : Prop :=
  x.1 = x'.1 ∧ FieldsAlike p (Kind.fields x.1) (Kind.defaults x.1) x.2 x'.2

/-- The tag is a plain value without a default, so it writes the same kind as before, if any. -/
theorem tag_cases (hp : TaggedPart κ p) {o o' : Option Json}
    (h : Field Sensed p (p.defaults j) "type" o o') :
    o = none ∧ o' = none ∨ ∃ t t', o = some t ∧ o' = some t' ∧
      tag (α := κ) (Kind.form κ) t = tag (Kind.form κ) t' := by
  cases h with
  | same o =>
    cases o with
    | none => exact .inl ⟨rfl, rfl⟩
    | some t => exact .inr ⟨t, t, rfl, rfl, rfl⟩
  | changed h => exact .inr ⟨_, _, rfl, rfl, tag_plain _ _ _ (hp.tag ▸ h.1)⟩
  | added h => exact absurd h (hp.type_not_default _)

theorem tagged_object_alike (hp : TaggedPart κ p)
    (h : ∀ n ∈ p.fields (.object ms),
      AtName (Field Sensed p (p.defaults (.object ms)) n) n ms ms') :
    Alike (ContentsAlike p) (tagged (α := κ) (Kind.form κ) (.object ms))
      (tagged (Kind.form κ) (.object ms')) := by
  have hmem : "type" ∈ p.fields (.object ms) := by
    rw [hp.fields]
    exact List.mem_cons_self
  cases h "type" hmem with
  | repeated hm hm' =>
    rw [tagged_error _ (by omega), tagged_error _ (by omega)]
    exact .error _
  | single o o' ho ho' hP =>
    obtain ⟨rfl, rfl⟩ | ⟨t, t', rfl, rfl, htag⟩ := tag_cases hp hP
    · rw [tagged_error _ (by simp [ho]), tagged_error _ (by simp [ho'])]
      exact .error _
    · have htagged := tagged_single (α := κ) (Kind.form κ) ho
      rw [htagged, tagged_single _ ho', ← htag]
      cases hk : tag (α := κ) (Kind.form κ) t with
      | error e => exact .error e
      | ok k =>
        rw [hk] at htagged
        have hkind : kind? κ (.object ms) = some k := by
          rw [kind?, htagged]
          rfl
        obtain ⟨hfields, hdefaults⟩ := hp.of_kind? hkind
        refine .ok ⟨rfl, fields_object fun n hn => ?_⟩
        rw [← hdefaults]
        exact (h n (by rw [hfields]; exact List.mem_cons_of_mem _ hn)).untagged
          (fun heq => hp.untagged k (heq ▸ hn))

theorem tagged_array_alike (hp : TaggedPart κ p) {before after : List Json}
    (h : Sensed (p.item (.array (before ++ j :: after)) before.length) j j') :
    Alike (ContentsAlike p) (tagged (α := κ) (Kind.form κ) (.array (before ++ j :: after)))
      (tagged (Kind.form κ) (.array (before ++ j' :: after))) := by
  cases before with
  | nil =>
    have hitem : p.item (.array (j :: after)) 0 = .plain := by
      rw [hp.item, hp.fields]
      exact hp.tag
    have htag : tag (α := κ) (Kind.form κ) j = tag (Kind.form κ) j' :=
      tag_plain _ _ _ (hitem ▸ h.1)
    simp only [List.nil_append, tagged, htag]
    cases tag (α := κ) (Kind.form κ) j' with
    | error e => exact .error e
    | ok k => exact .ok ⟨rfl, .refl (fun get n _ => .same _) _⟩
  | cons t before =>
    simp only [List.cons_append, tagged]
    cases hk : tag (α := κ) (Kind.form κ) t with
    | error e => exact .error e
    | ok k =>
      have hkind : kind? κ (.array (t :: (before ++ j :: after))) = some k := by
        rw [kind?, tagged, hk]
        rfl
      have hitem : p.item (.array (t :: (before ++ j :: after))) (before.length + 1) =
          ((Kind.fields k)[before.length]?).elim .plain p.field := by
        rw [hp.item, (hp.of_kind? hkind).1, List.getElem?_cons_succ]
      exact .ok ⟨rfl, fields_items (hp.nodup k) (hitem ▸ h)⟩

theorem tagged_alike (hp : TaggedPart κ p) (h : Record Sensed p j j') :
    Alike (ContentsAlike p) (tagged (α := κ) (Kind.form κ) j) (tagged (Kind.form κ) j') := by
  cases h with
  | object h => exact tagged_object_alike hp h
  | array h => exact tagged_array_alike hp h

end Tagged

/-! ### Children -/

theorem children_eq_list (form : TagForm) (j : Json) : children form j = list (child form) j := by
  have hitems : ∀ js, childItems form js = js.mapM (child form) := by
    intro js
    induction js with
    | nil => rw [childItems, List.mapM_nil]; rfl
    | cons j js ih => rw [childItems, List.mapM_cons, ih]
  cases j with
  | array js => rw [children, list, hitems]
  | _ => rw [children, list] <;> simp

def trendlineChild : Reader Child := fun j => do
  let get ← fields trendlineFields j
  let options ← trendlineOptions j
  let cs ← fieldOr [] (children .nameOrPosition) (get "children")
  return .trendline cs options

def childContent : ChildKind → Reader Child
  | .tooltip => tooltip
  | .popover => popover
  | .metricRange => metricRange
  | .trendline => trendlineChild

theorem childrenMember_eq (ms : List (String × Json)) :
    childrenMember ms = fieldOr [] (children .nameOrPosition) (ms.lookup "children") := by
  induction ms with
  | nil => rw [childrenMember]; rfl
  | cons m ms ih =>
    obtain ⟨n, j⟩ := m
    rw [childrenMember, List.lookup_cons]
    by_cases hn : n = "children"
    · simp [hn, fieldOr]
    · rw [if_neg hn, ih]
      simp [beq_eq_false_iff_ne.2 (Ne.symm hn)]

/-- The children are read last, after all options, though they stand among them. -/
theorem childContent_eq (kind : ChildKind) (content : Json) (cs : Except Refusal (List Child))
    (hcs : ∀ get, fields trendlineFields content = .ok get →
      cs = fieldOr [] (children .nameOrPosition) (get "children")) :
    (do
      match ← leafChild kind content with
      | some c => return c
      | none => do
        let options ← trendlineOptions content
        return .trendline (← cs) options) = childContent kind content := by
  cases kind with
  | tooltip =>
    simp only [leafChild, childContent]
    cases tooltip content <;> rfl
  | popover =>
    simp only [leafChild, childContent]
    cases popover content <;> rfl
  | metricRange =>
    simp only [leafChild, childContent]
    cases metricRange content <;> rfl
  | trendline =>
    simp only [leafChild, childContent, trendlineChild]
    cases hget : fields trendlineFields content with
    | error e =>
      have hoptions : trendlineOptions content = .error e := by
        rw [trendlineOptions, hget]
        rfl
      rw [hoptions]
      rfl
    | ok get =>
      rw [hcs get hget]
      rfl

/-- A child is a tag and the content of its kind. -/
theorem child_eq (form : TagForm) (j : Json) :
    child form j = tagged form j >>= fun x => childContent x.1 x.2 := by
  cases j with
  | object ms =>
    rw [child]
    cases htagged : tagged (α := ChildKind) form (.object ms) with
    | error e => rfl
    | ok x =>
      obtain ⟨kind, content⟩ := x
      obtain rfl := tagged_object_content htagged
      refine childContent_eq kind _ _ fun get hget => ?_
      rw [childrenMember_eq, get_of_fields_object hget, lookup_eq_head?, lookup_eq_head?,
        withName_untagged (by decide)]
  | array js =>
    cases js with
    | nil => simp [child, tagged, bind, Except.bind]
    | cons t js =>
      rw [child, tagged]
      cases tag (α := ChildKind) form t with
      | error e => rfl
      | ok kind =>
        refine childContent_eq kind (.array js) _ fun get hget => ?_
        rw [get_of_fields_array hget]
        cases js <;> rfl
  | null | bool | int | float | text => simp [child, tagged, bind, Except.bind]

theorem trendlineChild_alike {j j' : Json}
    (h : FieldsAlike .child (Kind.fields ChildKind.trendline)
      (Kind.defaults ChildKind.trendline) j j') :
    Alike (EqUnder Child.settled) (trendlineChild j) (trendlineChild j') := by
  have hoptions := trendlineOptions_alike h
  refine h.bind fun get get' h => hoptions.bind fun options options' hoptions => ?_
  refine (h "children" (by decide)).children rfl (List.forall_mem_singleton.2 rfl)
    fun children children' hchildren => .ok ?_
  -- of its children a trendline keeps those that are settled as they are
  have hkept : Trendline.keepInteractive children = Trendline.keepInteractive children' := by
    rw [← Trendline.keepInteractive_settled, hchildren, Trendline.keepInteractive_settled]
  rw [EqUnder] at hoptions
  simp [EqUnder, Child.settled, hkept, hoptions]

end ChartCompiler.Input
