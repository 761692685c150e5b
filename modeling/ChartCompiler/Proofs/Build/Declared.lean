import ChartCompiler.Proofs.Build.Covered
import ChartCompiler.Proofs.Build.Suffix

/-! What a document declares, against what it looks up. Its signals and its scales are those of its
marks, so every name that a mark looks up and declares itself is there. Two kinds of names are looked
up without being declared by the same mark: the row pointed at on trendlines of which one has a
popover and none a tooltip, and the scales of a line width and an opacity by a field. -/

namespace ChartCompiler

open Trendline

/-- Rows are highlighted by the row that is pointed at, whether or not one can be picked. -/
theorem Expr.hovered_mem_names (mark : String) (selectable : Bool) :
    mark ++ "_hoveredId" ∈ (highlighted mark selectable).names := by
  cases selectable <;>
    simp [names, highlighted, hovered, or, and, strictEq, signal, datum, parts, ident?]

namespace Trendline

/-- With an interactive trendline there are rows to be highlighted. -/
theorem highlighted_mem_allSources {m : SeriesMark} {ts : List Trendline}
    (h : ∃ t ∈ ts, t.isInteractive) :
    .derive (sharedName m.name ++ "_highlightedData") (combinedSource m.name)
      [.filter (.highlighted (sharedName m.name) (ts.any fun t => hasPopover t.children))] ∈
      allSources m ts := by
  refine List.mem_append_right _ ?_
  rw [combinedSources_of_interactive m ts h]
  simp

end Trendline

namespace ChartMark

variable {m : ChartMark} {ts : List Trendline}

/-- The signals of a mark are those of its trendlines, and of a line those for its own children. -/
theorem mem_signalNames (hts : m.toSeriesMark.trendlines = .ok ts) {n : String} :
    n ∈ m.toCall.additions.signals.map Signal.name ↔
      n ∈ (allSignals m.toSeriesMark ts).map Signal.name ∨
        ∃ l, m = line l ∧ n ∈ l.lineSignals.map Signal.name := by
  simp only [additions_of_ok hts, Additions.append_signals, List.map_append, List.mem_append]
  cases m <;> simp [base, finish, SeriesMark.lineBase, Bar.barBase, Trendline.additions]

/-- Who declares the row that is pointed at on trendlines: these, by a tooltip on one of them, or a
line that has their name and takes part in events. -/
theorem mem_signalNames_hovered (hts : m.toSeriesMark.trendlines = .ok ts) (a : String) :
    sharedName a ++ "_hoveredId" ∈ m.toCall.additions.signals.map Signal.name ↔
      (m.toSeriesMark.name = a ∧ m.toSeriesMark.HasTrendline fun t => hasTooltip t.children) ∨
        ∃ l, m = line l ∧ l.name = sharedName a ∧ hasInteractive l.children := by
  have hid (b : String) : sharedName a ++ "_hoveredId" = b ++ "_hoveredId" ↔ b = sharedName a := by
    rw [append_suffix_inj (by decide) (by decide), and_iff_left rfl, eq_comm]
  have hother {b s : String} (hs : IsSuffix s) (hne : "_hoveredId" ≠ s) :
      sharedName a ++ "_hoveredId" ≠ b ++ s := fun h =>
    hne ((append_suffix_inj (by decide) hs).1 h).2
  have hseries (b : String) := hother (b := b) (s := "_hoveredSeries") (by decide) (by decide)
  have hselected (b : String) := hother (b := b) (s := "_selectedId") (by decide) (by decide)
  have hpicked (b : String) := hother (b := b) (s := "_selectedSeries") (by decide) (by decide)
  rw [mem_signalNames hts, Trendline.mem_signalNames, SeriesMark.hasTrendline_of_ok hts]
  simp only [SeriesMark.mem_lineSignalNames, hid, hseries, hselected, hpicked, sharedName_inj]
  simp [and_comm]

theorem metricScale_mem : Names.metricScale ∈ m.toCall.additions.scales.map Scale.name := by
  cases m with
  | line l => simp [toCall, Call.additions, SeriesMark.lineBase, SeriesMark.lineScales]
  | bar b => simp [toCall, Call.additions, Bar.barBase, Bar.barScales]

def ownScales : List String :=
  ["xTime", "xLinear", "xPoint", "xBand", Names.metricScale, Names.colorScale, Names.shadesScale,
    Names.secondaryColorScale, Names.lineTypeScale]

theorem base_scaleNames (m : ChartMark) : m.base.scales.map Scale.name ⊆ ownScales := by
  have hdimension (kind : DimensionScale) : dimensionScaleName kind ∈ ownScales := by
    cases kind <;> decide
  have hmetric : Names.metricScale ∈ ownScales := by decide
  have hcolor (scheme : ColorScheme) (color : Encoding String) :
      (Scale.ofColor scheme color).map Scale.name ⊆ ownScales := by
    cases color <;> simp [Scale.ofColor, Scale.ordinal, Scale.ofField, ownScales]
  have htype (lineType : Encoding LineType) :
      (Scale.ofLineType lineType).toList.map Scale.name ⊆ ownScales := by
    cases lineType <;> simp [Scale.ofLineType, Encoding.primary?, Scale.ordinal, Scale.ofField,
      ownScales]
  cases m with
  | line l =>
    simp [base, SeriesMark.lineBase, SeriesMark.lineScales, hdimension, hmetric, hcolor, htype]
  | bar b => simp [base, Bar.barBase, Bar.barScales, hdimension, hmetric, hcolor]

theorem scaleNames_subset (hts : m.toSeriesMark.trendlines = .ok ts) :
    m.toCall.additions.scales.map Scale.name ⊆ Names.trendlineScale :: ownScales := by
  have htrendlines : (allScales m.toSeriesMark ts).map Scale.name ⊆ [Names.trendlineScale] := by
    rw [allScales]
    split_ifs <;> simp [Scale.linearDimension, Scale.ofField]
  simp only [additions_of_ok hts, Additions.append_scales, finish_scales, List.map_append,
    List.append_nil, List.append_subset]
  refine ⟨List.subset_cons_of_subset _ m.base_scaleNames, List.Subset.trans htrendlines ?_⟩
  simp

end ChartMark

namespace Document

/-- The width and the opacity of a line are shown as they are encoded. -/
theorem shows_line {d : Document} {l : SeriesMark} (h : l.lineGroup ∈ d.marks) :
    d.Shows "strokeWidth" l.lineWidth.widthValue ∧ d.Shows "strokeOpacity" l.opacity.opacityValue := by
  obtain ⟨earlier, later, hmarks⟩ := List.append_of_mem h
  have hline : Placed d.marks l.lineGroup.partition? [] (.drawn .line l.name l.partitionName _) :=
    .inside (.top hmarks) rfl
  constructor
  · refine ⟨_, _, _, .single _, hline, ?_, List.mem_singleton_self _⟩
    rw [Mark.channels_of_rules rfl (by simp [SeriesMark.y]) (by simp [SeriesMark.x])]
    simp
  · refine ⟨_, _, _, .single _, hline, ?_, List.mem_singleton_self _⟩
    rw [Mark.channels_of_rules rfl (by simp [SeriesMark.y]) (by simp [SeriesMark.x])]
    simp [lineOpacity]

end Document

namespace Chart

variable {c : Chart} {d : Document} {σ : Scope} {V : Vocabulary}

theorem mem_signalNames (h : c.build = .ok d) {n : String} :
    n ∈ d.signals.map Signal.name ↔ n = Names.backgroundColor ∨
      ∃ m ∈ c.marks, n ∈ (m.withScheme c.scheme).toCall.additions.signals.map Signal.name := by
  obtain ⟨-, rfl⟩ := (c.build_ok_iff d).1 h
  have hstart : (Document.start c.scheme c.width c.height).signals.map Signal.name =
    [Names.backgroundColor] := rfl
  simp only [Document.after, Document.mem_map_extend, hstart, List.mem_singleton]
  simp only [List.mem_map, mem_additions_signals]
  grind

theorem mem_scaleNames (h : c.build = .ok d) {n : String} :
    n ∈ d.scales.map Scale.name ↔
      ∃ m ∈ c.marks, n ∈ (m.withScheme c.scheme).toCall.additions.scales.map Scale.name := by
  obtain ⟨-, rfl⟩ := (c.build_ok_iff d).1 h
  simp only [Document.after, Document.mem_map_extend, List.map_nil, List.not_mem_nil, false_or]
  simp only [List.mem_map, mem_additions_scales]
  grind

/-- A document is written in a vocabulary that covers every mark of its chart. -/
theorem additions_written (h : c.build = .ok d)
    (hcovered : ∀ m ∈ c.marks, (m.withScheme c.scheme).Covered V.toScope)
    (hbound : ∀ m ∈ c.marks, ∀ v,
      (m.toSeriesMark.HasTrendline fun t => t.HasBound v) → V.number v) : c.additions.Written V := by
  refine Additions.written_flatten ?_
  simp only [calls, List.map_map, List.forall_mem_map]
  intro m hm
  obtain ⟨ts, hts⟩ := trendlines_of_build h m hm
  exact (hcovered m hm).written (by simpa using hts) fun t ht v hv =>
    hbound m hm v ⟨ts, hts, t, ht, hv⟩

/-- A document resolves in a scope that covers every mark of its chart. -/
theorem additions_resolve (h : c.build = .ok d)
    (hcovered : ∀ m ∈ c.marks, (m.withScheme c.scheme).Covered σ) : c.additions.Resolves σ := by
  by_cases hmarks : c.marks = []
  · rw [additions, calls, hmarks]
    constructor <;> exact List.forall_mem_nil _
  · obtain ⟨m, hm⟩ := List.exists_mem_of_ne_nil _ hmarks
    have hwritten : c.additions.Written σ.vocabulary :=
      additions_written h hcovered fun _ _ _ _ => trivial
    exact hwritten.resolves (hcovered m hm).datum

/-- Some mark declares the row that is pointed at on the trendlines of the marks of a name. -/
def PointsAtTrendlines (c : Chart) (name : String) : Prop :=
  ∃ m ∈ c.marks,
    (m.toSeriesMark.name = name ∧ m.toSeriesMark.HasTrendline fun t => hasTooltip t.children) ∨
      ∃ l, m = .line l ∧ l.name = sharedName name ∧ hasInteractive l.children

theorem hovered_mem_signalNames (h : c.build = .ok d) (name : String) :
    sharedName name ++ "_hoveredId" ∈ d.signals.map Signal.name ↔ c.PointsAtTrendlines name := by
  have hbackground : sharedName name ++ "_hoveredId" ≠ Names.backgroundColor :=
    append_suffix_ne (by decide) (by decide)
  rw [mem_signalNames h, or_iff_right hbackground, PointsAtTrendlines]
  refine exists_congr fun m => and_congr_right fun hm => ?_
  obtain ⟨ts, hts⟩ := trendlines_of_build h m hm
  have hts : (m.withScheme c.scheme).toSeriesMark.trendlines = .ok ts := by simpa using hts
  rw [ChartMark.mem_signalNames_hovered hts, ChartMark.withScheme_name,
    ChartMark.withScheme_hasTrendline]
  refine or_congr_right ?_
  cases m <;> simp [ChartMark.withScheme]

/-- The highlighted rows of interactive trendlines are those pointed at, where none is picked. -/
theorem evaluates_hovered_of_interactive (h : c.build = .ok d) {m : ChartMark} (hm : m ∈ c.marks)
    (hint : m.toSeriesMark.HasTrendline fun t => t.isInteractive) :
    ∃ e, d.Evaluates e ∧ sharedName m.toSeriesMark.name ++ "_hoveredId" ∈ e.names := by
  obtain ⟨ts, hts, hint⟩ := hint
  have hsource := (trendlines_subset_build h hm hts).1 (highlighted_mem_allSources hint)
  refine ⟨_, .source hsource List.mem_cons_self List.mem_cons_self, ?_⟩
  rw [ChartMark.withScheme_name]
  exact Expr.hovered_mem_names _ _

theorem evaluates_hovered (h : c.build = .ok d) {m : ChartMark} (hm : m ∈ c.marks)
    (hpop : m.toSeriesMark.HasTrendline fun t => hasPopover t.children) :
    ∃ e, d.Evaluates e ∧ sharedName m.toSeriesMark.name ++ "_hoveredId" ∈ e.names := by
  obtain ⟨ts, hts, t, ht, hpop⟩ := hpop
  exact evaluates_hovered_of_interactive h hm ⟨ts, hts, t, ht, hasInteractive_of_hasPopover hpop⟩

/-- The signals that a document reads are those of its own, exactly if the row pointed at is
declared wherever trendlines have a popover. A popover lets rows be picked, and as long as none is
the row pointed at is highlighted, which only a tooltip declares. -/
theorem reads_declared_iff (h : c.build = .ok d) :
    (∀ e, d.Evaluates e → ∀ n ∈ e.names,
      n ∈ ["datum", "width", "height"] ∨ n ∈ d.signals.map Signal.name) ↔
    ∀ m ∈ c.marks, (m.toSeriesMark.HasTrendline fun t => hasPopover t.children) →
      c.PointsAtTrendlines m.toSeriesMark.name := by
  constructor
  · intro hreads m hm hpop
    obtain ⟨e, he, hn⟩ := evaluates_hovered h hm hpop
    refine (hovered_mem_signalNames h _).1 ((hreads e he _ hn).resolve_left fun hbuiltin => ?_)
    simp only [List.mem_cons, List.not_mem_nil, or_false] at hbuiltin
    rcases hbuiltin with h | h | h <;> exact append_suffix_ne (by decide) (by decide) h
  · intro hpoints e he n hn
    let σ : Scope := {
      signal := fun n => n ∈ ["datum", "width", "height"] ∨ n ∈ d.signals.map Signal.name
      scale := fun _ => True }
    have hcovered : ∀ m ∈ c.marks, (m.withScheme c.scheme).Covered σ := by
      intro m hm
      exact {
        datum := .inl (by simp)
        width := .inl (by simp)
        height := .inl (by simp)
        background := .inr ((mem_signalNames h).2 (.inl rfl))
        metric := trivial
        signals := fun n hn => .inr ((mem_signalNames h).2 (.inr ⟨m, hm, hn⟩))
        scales := fun _ _ => trivial
        hovered := fun hpop => by
          rw [ChartMark.withScheme_hasTrendline] at hpop
          rw [ChartMark.withScheme_name]
          exact .inr ((hovered_mem_signalNames h _).2 (hpoints m hm hpop))
        lineWidth := fun _ _ => trivial
        opacity := fun _ _ => trivial }
    have hresolves := additions_resolve h hcovered
    obtain ⟨-, rfl⟩ := (c.build_ok_iff d).1 h
    exact (Document.evaluates_resolves hresolves he).signal n hn

/-- A tooltip beside the popover declares the row. -/
theorem reads_declared_with_tooltip :
    let c : Chart := { marks := [
      .line { children := [.trendline [.tooltip [], .popover none none] {}] }] }
    ∃ d, c.build = .ok d ∧ ∀ e, d.Evaluates e → ∀ n ∈ e.names,
      n ∈ ["datum", "width", "height"] ∨ n ∈ d.signals.map Signal.name := by
  intro c
  have h : c.build = .ok _ := rfl
  refine ⟨_, h, (reads_declared_iff h).2 fun m hm _ => ?_⟩
  obtain rfl := List.mem_singleton.1 hm
  exact ⟨_, hm, .inl ⟨rfl, _, rfl, _, List.mem_singleton_self _, rfl⟩⟩

/-- The only trendline of the only line has a popover and no tooltip. -/
theorem reads_undeclared_with_popover :
    ¬∀ (c : Chart) (d : Document), c.build = .ok d → ∀ e, d.Evaluates e → ∀ n ∈ e.names,
      n ∈ ["datum", "width", "height"] ∨ n ∈ d.signals.map Signal.name := by
  intro hreads
  let m : ChartMark := .line { children := [.trendline [.popover none none] {}] }
  have h : ({ marks := [m] } : Chart).build = .ok _ := rfl
  obtain ⟨e, he, hn⟩ := evaluates_hovered h (List.mem_singleton_self m)
    ⟨_, rfl, _, List.mem_singleton_self _, rfl⟩
  have hread := hreads _ _ h e he _ hn
  revert hread
  decide

/-- An encoding on a scale that no mark declares is a fixed value, where all scales are declared. -/
theorem fixed_of_shows (h : c.build = .ok d)
    (hscales : ∀ channel v, d.Shows channel v → ∀ n ∈ v.scales, n ∈ d.scales.map Scale.name)
    {α : Type} {scale channel : String} {e : Encoding α} {fixed : α → ChannelValue}
    (hscale : scale ∉ Names.trendlineScale :: ChartMark.ownScales)
    (hshown : d.Shows channel (e.scaledOr scale fixed)) : e.primary? = none := by
  cases e with
  | fixed v => rfl
  | field f | dual f g =>
    have hn := hscales _ _ hshown scale
      (by simp [Encoding.scaledOr, ChannelValue.scales, ChannelValue.scaled])
    obtain ⟨m, hm, hn⟩ := (mem_scaleNames h).1 hn
    obtain ⟨ts, hts⟩ := trendlines_of_build h m hm
    exact absurd (ChartMark.scaleNames_subset (by simpa using hts) hn) hscale

/-- The scales that a document uses are those of its own, exactly if no line takes its width or its
opacity from a field: such a field is laid out on a scale that is never declared. -/
theorem scales_declared_iff (h : c.build = .ok d) :
    (∀ channel v, d.Shows channel v → ∀ n ∈ v.scales, n ∈ d.scales.map Scale.name) ↔
      ∀ l, .line l ∈ c.marks → l.lineWidth.primary? = none ∧ l.opacity.primary? = none := by
  constructor
  · intro hscales l hl
    have hgroup : ({ l with scheme := c.scheme } : SeriesMark).lineGroup ∈ d.marks :=
      marks_subset_build h hl (by simp [ChartMark.withScheme, ChartMark.toCall, Call.additions,
        SeriesMark.lineBase, SeriesMark.lineMarks])
    have hshown := Document.shows_line hgroup
    exact ⟨fixed_of_shows h hscales (by decide) hshown.1,
      fixed_of_shows h hscales (by decide) hshown.2⟩
  · intro hlines channel v hv n hn
    let σ : Scope := { signal := fun _ => True, scale := fun n => n ∈ d.scales.map Scale.name }
    have hcovered : ∀ m ∈ c.marks, (m.withScheme c.scheme).Covered σ := by
      intro m hm
      have hscales : ∀ n ∈ (m.withScheme c.scheme).toCall.additions.scales.map Scale.name,
          σ.scale n := fun n hn => (mem_scaleNames h).2 ⟨m, hm, hn⟩
      have hfixed : (m.withScheme c.scheme).toSeriesMark.lineWidth.primary? = none ∧
          (m.withScheme c.scheme).toSeriesMark.opacity.primary? = none := by
        cases m with
        | line l => exact hlines l hm
        | bar b => exact ⟨rfl, rfl⟩
      exact {
        datum := trivial
        width := trivial
        height := trivial
        background := trivial
        metric := hscales _ ChartMark.metricScale_mem
        signals := fun _ _ => trivial
        scales := hscales
        hovered := fun _ => trivial
        lineWidth := by simp [hfixed.1]
        opacity := by simp [hfixed.2] }
    have hresolves := additions_resolve h hcovered
    obtain ⟨-, rfl⟩ := (c.build_ok_iff d).1 h
    exact (Document.shows_resolves hresolves hv).scales n hn

/-- A line of fixed width and opacity with bars beside it. -/
theorem scales_declared_line_and_bar :
    let c : Chart := { marks := [.line { color := .dual "a" "b", lineType := .field "c" }, .bar {}] }
    ∃ d, c.build = .ok d ∧
      ∀ channel v, d.Shows channel v → ∀ n ∈ v.scales, n ∈ d.scales.map Scale.name := by
  intro c
  have h : c.build = .ok _ := rfl
  refine ⟨_, h, (scales_declared_iff h).2 fun l hl => ?_⟩
  simp only [c, List.mem_cons, ChartMark.line.injEq, reduceCtorEq, List.not_mem_nil, or_false] at hl
  rw [hl]
  exact ⟨rfl, rfl⟩

/-- The width and the opacity of the only line come from fields. -/
theorem scales_undeclared_by_field :
    ¬∀ (c : Chart) (d : Document), c.build = .ok d →
      ∀ channel v, d.Shows channel v → ∀ n ∈ v.scales, n ∈ d.scales.map Scale.name := by
  intro hscales
  let l : SeriesMark := { lineWidth := .field "w", opacity := .field "o" }
  have h : ({ marks := [.line l] } : Chart).build = .ok _ := rfl
  have hshown := (Document.shows_line (l := l) (marks_subset_build h (List.mem_singleton_self _)
    List.mem_cons_self)).1
  have hused := hscales _ _ h _ _ hshown Names.lineWidthScale (by decide)
  revert hused
  decide

end Chart

end ChartCompiler
