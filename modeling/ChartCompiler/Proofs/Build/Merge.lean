import ChartCompiler.Proofs.Build.Calls

/-! The document of a chart is put together from the documents of its marks, each built as the only
mark of the chart. What a mark adds depends on the other marks only where the first one of a name
wins, and a further mark changes nothing that was there but the end of the table's transforms. -/

namespace ChartCompiler

namespace Document

def tableSteps (d : Document) : List Transform :=
  ((Source.tableTransforms d.sources).getD []).tail

/-- A document is that of a chart, put together from those of its marks. The color behind the chart
is a signal of every chart and comes first; it shows among the signals of any one mark. -/
structure IsMerge (d : Document) (c : Chart) (ds : List Document) : Prop where
  width : d.width = c.width
  height : d.height = c.height
  sources : d.sources =
    { name := Names.table, origin := .inline [],
      transforms := appendNew [.identifier Names.markId] (ds.flatMap tableSteps) } ::
    .derive Names.filteredTable Names.table [] :: ds.flatMap (·.sources.drop 2)
  scales : d.scales = firstPerName Scale.name (ds.flatMap Document.scales)
  signals_without_marks : ds = [] →
    d.signals =
      [{ name := Names.backgroundColor, initial := .text (Palette.resolve c.scheme "gray-50") }]
  signals : ds ≠ [] → d.signals = firstPerName Signal.name (ds.flatMap Document.signals)
  marks : d.marks = ds.flatMap Document.marks

/-- All of a document stands in another one as it is, before what the other one has besides. -/
structure Extends (d d' : Document) : Prop where
  width : d'.width = d.width
  height : d'.height = d.height
  sources : ∃ ts ss, d'.sources = Source.editFirst Names.table (· ++ ts) d.sources ++ ss
  scales : d.scales <+: d'.scales
  signals : d.signals <+: d'.signals
  marks : d.marks <+: d'.marks

section

variable (scheme : ColorScheme) (width height : Option Number) (a b : Additions)

theorem tableSteps_after :
    (after scheme width height a).tableSteps =
      (keptFields [.identifier Names.markId] a.fields).flatMap DerivedField.transforms := by
  have htable : Source.tableTransforms (after scheme width height a).sources =
      some (a.fields.foldl addField [.identifier Names.markId]) := rfl
  rw [tableSteps, htable, foldl_addField]
  rfl

theorem extends_after :
    (after scheme width height a).Extends (after scheme width height (a ++ b)) where
  width := rfl
  height := rfl
  sources := by
    let ts := a.fields.foldl addField [.identifier Names.markId]
    have hfields : (a ++ b).fields.foldl addField [.identifier Names.markId] =
        ts ++ (keptFields ts b.fields).flatMap DerivedField.transforms := by
      rw [Additions.append_fields, List.foldl_append, foldl_addField ts]
    refine ⟨(keptFields ts b.fields).flatMap DerivedField.transforms, b.sources, ?_⟩
    rw [after, hfields]
    rfl
  scales := by
    simp only [after, Additions.append_scales, extend_append]
    exact prefix_extend _ _
  signals := by
    simp only [after, Additions.append_signals, extend_append]
    exact prefix_extend _ _
  marks := List.prefix_append _ _

variable {scheme width height}

theorem isMerge_after (c : Chart) (as : List Additions) (has : ∀ a ∈ as, ∀ f ∈ a.fields, f.Simple) :
    (after c.scheme c.width c.height (.flatten as)).IsMerge c
      (as.map (after c.scheme c.width c.height)) where
  width := rfl
  height := rfl
  sources := by
    have hsteps : appendNew [.identifier Names.markId]
        ((as.map (after c.scheme c.width c.height)).flatMap tableSteps) =
        (Additions.flatten as).fields.foldl addField [.identifier Names.markId] := by
      have hsimple : ∀ fs ∈ as.map Additions.fields, ∀ f ∈ fs, f.Simple := by simpa using has
      have := appendNew_kept hsimple (Covers.refl [.identifier Names.markId])
      rw [List.flatMap_map] at this ⊢
      simpa only [tableSteps_after, List.flatMap_def, Additions.flatten] using this
    rw [hsteps, List.flatMap_map]
    rfl
  scales := by
    rw [List.flatMap_map, ← extend_nil]
    exact (extend_flatMap Additions.scales as (by simp)).symm
  signals_without_marks h := by
    rw [List.map_eq_nil_iff.1 h]
    rfl
  signals h := by
    cases as with
    | nil => exact absurd rfl h
    | cons a as =>
      have hbase : ∀ s ∈ (start c.scheme c.width c.height).signals,
          (extend Signal.name (start c.scheme c.width c.height).signals a.signals).any
            (·.name == s.name) := by
        intro s hs
        rw [any_extend, List.any_eq_true.2 ⟨s, hs, by simp⟩, Bool.true_or]
      -- the first document brings the signals of every chart, the others have them too
      rw [List.flatMap_map, ← extend_nil, List.flatMap_cons, extend_append]
      simp only [after]
      rw [extend_extend]
      exact (extend_append _ a.signals _).trans (extend_flatMap Additions.signals as hbase).symm
  marks := by
    rw [List.flatMap_map]
    rfl

end

end Document

/-- The document of a chart with marks is put together from those of its marks, and building with
further marks extends it. -/
theorem Chart.build_merge {c : Chart} {d : Document} (h : c.build = .ok d) :
    (∃ ds, c.marks.map (fun m => ({ c with marks := [m] } : Chart).build) = ds.map .ok ∧
      d.IsMerge c ds) ∧
    ∀ ms d', ({ c with marks := c.marks ++ ms } : Chart).build = .ok d' → d.Extends d' := by
  obtain ⟨herror, rfl⟩ := (c.build_ok_iff d).1 h
  constructor
  · refine ⟨_, ?_, Document.isMerge_after c (c.calls.map Call.additions) ?_⟩
    · rw [calls, List.forall_mem_map] at herror
      simp only [calls, List.map_map, List.map_inj_left]
      intro m hm
      refine (build_ok_iff _ _).2 ⟨by simpa [calls] using herror m hm, ?_⟩
      exact congrArg _ (Additions.append_nil _).symm
    · rw [List.forall_mem_map]
      exact fun k _ => k.fields_simple
  · intro ms d' h'
    obtain ⟨-, rfl⟩ := (build_ok_iff _ _).1 h'
    have hadditions : ({ c with marks := c.marks ++ ms } : Chart).additions =
        c.additions ++ ({ c with marks := ms } : Chart).additions := by
      simp [additions, calls, Additions.flatten_append]
    rw [hadditions]
    exact Document.extends_after _ _ _ _ _

/-- A line with a regression over time and another line over the same time, which need some of the
same fields. -/
theorem Chart.build_merge_two_lines :
    let c : Chart := { marks := [
      .line { children := [.trendline [.tooltip []] {}] },
      .line { name := "line1", metric := "total", children := [.trendline [] {}] }] }
    ∃ d ds, c.build = .ok d ∧ d.IsMerge c ds ∧
      ∃ d', ({ c with marks := c.marks ++ [.bar {}] } : Chart).build = .ok d' ∧ d.Extends d' := by
  intro c
  have h : c.build = .ok _ := rfl
  obtain ⟨⟨ds, -, hds⟩, hext⟩ := build_merge h
  exact ⟨_, ds, h, hds, _, rfl, hext [.bar {}] _ rfl⟩

/-- Without marks there is a signal that no mark brings. -/
theorem Chart.signals_not_of_marks :
    ¬∀ (c : Chart) (d : Document) (ds : List Document), c.build = .ok d →
      c.marks.map (fun m => ({ c with marks := [m] } : Chart).build) = ds.map .ok →
      d.signals = Document.firstPerName Signal.name (ds.flatMap Document.signals) := by
  intro h
  have hsignals := h {} (.start .light none none) [] rfl rfl
  exact List.cons_ne_nil _ _ hsignals

end ChartCompiler
