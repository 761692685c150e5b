import ChartCompiler.Proofs.Build.Settled
import ChartCompiler.Proofs.Input.Plain

/-! What the readers of charts, marks and children make of a change. They refuse both descriptions
or read them as the same but for the defaults of trendlines, which are written out in one and left
out in the other. -/

namespace ChartCompiler.Input

def EqUnder {α β : Type} (f : α → β) (a a' : α) : Prop := f a = f a'

theorem Alike.under {α β : Type} (f : α → β) (x : Except Refusal α) : Alike (EqUnder f) x x :=
  .refl (R := EqUnder f) (fun _ => rfl) x

def Sense : Part → Json → Json → Prop
  | .chart, j, j' => Alike (EqUnder Chart.settled) (chart j) (chart j')
  | .marks, j, j' => Alike (EqUnder (List.map ChartMark.settled)) (list mark j) (list mark j')
  | .mark, j, j' => Alike (EqUnder ChartMark.settled) (mark j) (mark j')
  | .facet, j, j' => ∀ (α : Type) (r : Reader α), IsPlain r → encoding r j = encoding r j'
  | .children, j, j' =>
    Alike (EqUnder (List.map Child.settled)) (children .nameOrPosition j)
      (children .nameOrPosition j')
  | .child, j, j' =>
    Alike (EqUnder Child.settled) (child .nameOrPosition j) (child .nameOrPosition j')
  | .plain, _, _ => True

def Sensed (p : Part) (j j' : Json) : Prop := Change p j j' ∧ Sense p j j'

/-! ### One field -/

namespace Field

variable {p : Part} {defaults : List (String × Json)} {n : String} {o o' : Option Json}
variable {α β γ : Type} {r : Reader α} {d : α} {u : α → γ} {S : β → β → Prop}

theorem alike (h : Field Sensed p defaults n o o')
    (hchanged : ∀ j j', Sensed (p.field n) j j' → Alike (EqUnder u) (r j) (r j'))
    (hadded : ∀ m ∈ withName n defaults, ∃ a, r m.2 = .ok a ∧ u d = u a) :
    Alike (EqUnder u) (fieldOr d r o) (fieldOr d r o') := by
  cases h with
  | same o => exact .under u _
  | changed h => exact hchanged _ _ h
  | @added j h =>
    obtain ⟨a, ha, hu⟩ := hadded (n, j) (List.mem_filter.2 ⟨h, beq_self_eq_true n⟩)
    rw [fieldOr, fieldOr, ha]
    exact .ok hu

/-! Each of the following reads one field and goes on with the others. -/

/-- A plain field, read up to what it means. -/
theorem plainUnder (u : α → γ) (h : Field Sensed p defaults n o o') (hp : p.field n = .plain)
    (hr : IsPlain r) (hadded : ∀ m ∈ withName n defaults, ∃ a, r m.2 = .ok a ∧ u d = u a)
    {f f' : α → Except Refusal β} (hf : ∀ a a', u a = u a' → Alike S (f a) (f' a')) :
    Alike S (fieldOr d r o >>= f) (fieldOr d r o' >>= f') := by
  refine (h.alike (fun j j' hj => ?_) hadded).bind hf
  rw [hr j j' (hp ▸ hj.1)]
  exact .under u _

theorem plain (h : Field Sensed p defaults n o o') (hp : p.field n = .plain) (hr : IsPlain r)
    (hadded : ∀ m ∈ withName n defaults, r m.2 = .ok d)
    {f f' : α → Except Refusal β} (hf : ∀ a, Alike S (f a) (f' a)) :
    Alike S (fieldOr d r o >>= f) (fieldOr d r o' >>= f') := by
  refine h.plainUnder id hp hr (fun m hm => ⟨d, hadded m hm, rfl⟩) ?_
  rintro a _ rfl
  exact hf a

/-- A plain field that may be left open, where `a` is meant by that. -/
theorem openPlain {r : Reader (Option α)} (a : α) (h : Field Sensed p defaults n o o')
    (hp : p.field n = .plain) (hr : IsPlain r)
    (hadded : ∀ m ∈ withName n defaults, r m.2 = .ok (some a))
    {f f' : Option α → Except Refusal β}
    (hf : ∀ b b', b.getD a = b'.getD a → Alike S (f b) (f' b')) :
    Alike S (fieldOr none r o >>= f) (fieldOr none r o' >>= f') :=
  h.plainUnder (d := none) (fun b => b.getD a) hp hr (fun m hm => ⟨some a, hadded m hm, rfl⟩) hf

theorem facet {d : Encoding α} (h : Field Sensed p defaults n o o') (hp : p.field n = .facet)
    (hr : IsPlain r) (hadded : ∀ m ∈ withName n defaults, encoding r m.2 = .ok d)
    {f f' : Encoding α → Except Refusal β} (hf : ∀ a, Alike S (f a) (f' a)) :
    Alike S (fieldOr d (encoding r) o >>= f) (fieldOr d (encoding r) o' >>= f') := by
  refine (h.alike (u := id) (fun j j' hj => ?_) fun m hm => ⟨d, hadded m hm, rfl⟩).bind ?_
  · have hsense : Sense .facet j j' := hp ▸ hj.2
    rw [hsense α r hr]
    exact .under id _
  · rintro a _ rfl
    exact hf a

theorem children (h : Field Sensed p defaults n o o') (hp : p.field n = .children)
    (hadded : ∀ m ∈ withName n defaults, children .nameOrPosition m.2 = .ok [])
    {f f' : List Child → Except Refusal β}
    (hf : ∀ cs cs', cs.map Child.settled = cs'.map Child.settled → Alike S (f cs) (f' cs')) :
    Alike S (fieldOr [] (Input.children .nameOrPosition) o >>= f)
      (fieldOr [] (Input.children .nameOrPosition) o' >>= f') := by
  refine (h.alike (fun j j' hj => ?_) fun m hm => ⟨[], hadded m hm, rfl⟩).bind hf
  have hsense : Sense .children j j' := hp ▸ hj.2
  exact hsense

end Field

def FieldsAlike (p : Part) (names : List String) (defaults : List (String × Json)) (j j' : Json) :
    Prop :=
  Alike (fun get get' => ∀ n ∈ names, Field Sensed p defaults n (get n) (get' n))
    (fields names j) (fields names j')

/-! ### The records -/

theorem chart_alike {j j' : Json} (h : FieldsAlike .chart chartFields chartDefaults j j') :
    Alike (EqUnder Chart.settled) (chart j) (chart j') := by
  refine h.bind fun get get' h => ?_
  refine (h "colorScheme" (by decide)).plain rfl scheme_plain
    (List.forall_mem_singleton.2 rfl) fun scheme => ?_
  refine (h "width" (by decide)).plain rfl number_plain.optional
    (List.forall_mem_singleton.2 rfl) fun width => ?_
  refine (h "height" (by decide)).plain rfl number_plain.optional
    (List.forall_mem_singleton.2 rfl) fun height => ?_
  have hmarks := (h "marks" (by decide)).alike (u := List.map ChartMark.settled)
    (fun j j' hj => hj.2) (List.forall_mem_singleton.2 ⟨[], rfl, rfl⟩)
  refine hmarks.bind fun marks marks' hmarks => .ok ?_
  rw [EqUnder] at hmarks
  simp [EqUnder, Chart.settled, hmarks]

section Content

variable {j j' : Json}

theorem line_alike
    (h : FieldsAlike .mark (Kind.fields MarkKind.line) (Kind.defaults MarkKind.line) j j') :
    Alike (EqUnder SeriesMark.settled) (line j) (line j') := by
  refine h.bind fun get get' h => ?_
  refine (h "name" (by decide)).plain rfl text_plain
    (List.forall_mem_singleton.2 rfl) fun name => ?_
  refine (h "dimension" (by decide)).plain rfl text_plain
    (List.forall_mem_singleton.2 rfl) fun dimension => ?_
  refine (h "metric" (by decide)).plain rfl text_plain
    (List.forall_mem_singleton.2 rfl) fun metric => ?_
  refine (h "color" (by decide)).facet rfl text_plain
    (List.forall_mem_singleton.2 rfl) fun color => ?_
  refine (h "lineType" (by decide)).facet rfl lineType_plain
    (List.forall_mem_singleton.2 rfl) fun lineType => ?_
  refine (h "lineWidth" (by decide)).facet rfl lineWidth_plain
    (List.forall_mem_singleton.2 rfl) fun lineWidth => ?_
  refine (h "opacity" (by decide)).facet rfl number_plain
    (List.forall_mem_cons.2 ⟨rfl, List.forall_mem_singleton.2 rfl⟩) fun opacity => ?_
  refine (h "scaleType" (by decide)).plain rfl (named_plain _)
    (List.forall_mem_singleton.2 rfl) fun scaleType => ?_
  refine (h "staticPoint" (by decide)).plain rfl text_plain.optional
    (List.forall_mem_singleton.2 rfl) fun staticPoint => ?_
  refine (h "children" (by decide)).children rfl (List.forall_mem_singleton.2 rfl)
    fun children children' hchildren => ?_
  exact .ok (by simp [EqUnder, SeriesMark.settled, hchildren])

theorem bar_alike
    (h : FieldsAlike .mark (Kind.fields MarkKind.bar) (Kind.defaults MarkKind.bar) j j') :
    Alike (EqUnder Bar.settled) (bar j) (bar j') := by
  refine h.bind fun get get' h => ?_
  refine (h "name" (by decide)).plain rfl text_plain
    (List.forall_mem_singleton.2 rfl) fun name => ?_
  refine (h "dimension" (by decide)).plain rfl text_plain
    (List.forall_mem_singleton.2 rfl) fun dimension => ?_
  refine (h "metric" (by decide)).plain rfl text_plain
    (List.forall_mem_singleton.2 rfl) fun metric => ?_
  refine (h "color" (by decide)).facet rfl text_plain
    (List.forall_mem_singleton.2 rfl) fun color => ?_
  refine (h "lineType" (by decide)).facet rfl lineType_plain
    (List.forall_mem_singleton.2 rfl) fun lineType => ?_
  refine (h "children" (by decide)).children rfl (List.forall_mem_singleton.2 rfl)
    fun children children' hchildren => ?_
  exact .ok (by simp [EqUnder, Bar.settled, hchildren])

theorem tooltip_alike
    (h : FieldsAlike .child (Kind.fields ChildKind.tooltip)
      (Kind.defaults ChildKind.tooltip) j j') :
    Alike Eq (tooltip j) (tooltip j') := by
  refine h.bind fun get get' h => ?_
  refine (h "excludeDataKeys" (by decide)).plain rfl text_plain.list
    (List.forall_mem_singleton.2 rfl) fun keys => ?_
  exact .ok rfl

theorem popover_alike
    (h : FieldsAlike .child (Kind.fields ChildKind.popover)
      (Kind.defaults ChildKind.popover) j j') :
    Alike Eq (popover j) (popover j') := by
  refine h.bind fun get get' h => ?_
  refine (h "width" (by decide)).plain rfl number_plain.optional
    (List.forall_mem_singleton.2 rfl) fun width => ?_
  refine (h "height" (by decide)).plain rfl number_plain.optional
    (List.forall_mem_singleton.2 rfl) fun height => ?_
  exact .ok rfl

theorem metricRange_alike
    (h : FieldsAlike .child (Kind.fields ChildKind.metricRange)
      (Kind.defaults ChildKind.metricRange) j j') :
    Alike Eq (metricRange j) (metricRange j') := by
  refine h.bind fun get get' h => ?_
  refine (h "metricStart" (by decide)).plain rfl text_plain.optional
    (List.forall_mem_singleton.2 rfl) fun start => ?_
  refine (h "metricEnd" (by decide)).plain rfl text_plain.optional
    (List.forall_mem_singleton.2 rfl) fun stop => ?_
  refine (h "displayOnHover" (by decide)).plain rfl flag_plain
    (List.forall_mem_singleton.2 rfl) fun displayOnHover => ?_
  exact .ok rfl

/-- The options agree where they are written out. -/
theorem trendlineOptions_alike
    (h : FieldsAlike .child (Kind.fields ChildKind.trendline)
      (Kind.defaults ChildKind.trendline) j j') :
    Alike (EqUnder TrendlineOptions.settled) (trendlineOptions j) (trendlineOptions j') := by
  refine h.bind fun get get' h => ?_
  refine (h "color" (by decide)).plain rfl text_plain.optional
    (List.forall_mem_singleton.2 rfl) fun color => ?_
  refine (h "dimensionRange" (by decide)).openPlain (none, none) rfl
    number_plain.optional.pair.optional (List.forall_mem_singleton.2 rfl)
    fun _ _ hdimensionRange => ?_
  refine (h "displayOnHover" (by decide)).openPlain false rfl flag_plain.optional
    (List.forall_mem_singleton.2 rfl) fun _ _ hdisplayOnHover => ?_
  refine (h "highlightRawPoint" (by decide)).openPlain false rfl flag_plain.optional
    (List.forall_mem_singleton.2 rfl) fun _ _ hhighlightRawPoint => ?_
  refine (h "lineType" (by decide)).openPlain (.named .dashed) rfl lineType_plain.optional
    (List.forall_mem_singleton.2 rfl) fun _ _ hlineType => ?_
  refine (h "lineWidth" (by decide)).openPlain (.named .medium) rfl lineWidth_plain.optional
    (List.forall_mem_singleton.2 rfl) fun _ _ hlineWidth => ?_
  refine (h "method" (by decide)).openPlain "linear" rfl text_plain.optional
    (List.forall_mem_singleton.2 rfl) fun _ _ hmethod => ?_
  refine (h "opacity" (by decide)).openPlain 1 rfl number_plain.optional
    (List.forall_mem_cons.2 ⟨rfl, List.forall_mem_singleton.2 rfl⟩) fun _ _ hopacity => ?_
  exact .ok (by simp [EqUnder, TrendlineOptions.settled, *])

end Content

end ChartCompiler.Input
