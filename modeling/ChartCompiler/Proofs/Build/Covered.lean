import ChartCompiler.Proofs.Build.WrittenSources

/-! What the marks of a chart add, as a whole: all that a mark adds to a document is written in a
vocabulary that covers the mark, and what every addition is written in, the document is. -/

namespace ChartCompiler

variable {σ : Scope} {V : Vocabulary}

/-- What calls add resolves, the scales apart, which look up nothing. -/
structure Additions.Resolves (σ : Scope) (a : Additions) : Prop where
  fields : ∀ f ∈ a.fields, f.Resolves σ
  sources : ∀ s ∈ a.sources, s.Resolves σ
  signals : ∀ s ∈ a.signals, s.Resolves σ
  marks : ∀ m ∈ a.marks, m.Throughout (fun _ => Mark.Resolves σ) none

structure Additions.Written (V : Vocabulary) (a : Additions) : Prop where
  fields : ∀ f ∈ a.fields, f.Written V
  sources : ∀ s ∈ a.sources, s.Written V
  signals : ∀ s ∈ a.signals, s.Written V
  marks : ∀ m ∈ a.marks, m.Throughout (fun _ => Mark.Written V) none

namespace Additions

theorem Written.resolves {a : Additions} (hdatum : V.signal "datum") (h : a.Written V) :
    a.Resolves V.toScope where
  fields f hf t ht := (h.fields f hf t ht).resolves hdatum
  sources s hs t ht := (h.sources s hs t ht).resolves hdatum
  signals s hs u hu := (h.signals s hs u hu).resolves hdatum
  marks m hm := (h.marks m hm).imp fun _ _ hwritten => hwritten.resolves hdatum

theorem Written.append {a b : Additions} (ha : a.Written V) (hb : b.Written V) :
    (a ++ b).Written V where
  fields := List.forall_mem_append.2 ⟨ha.fields, hb.fields⟩
  sources := List.forall_mem_append.2 ⟨ha.sources, hb.sources⟩
  signals := List.forall_mem_append.2 ⟨ha.signals, hb.signals⟩
  marks := List.forall_mem_append.2 ⟨ha.marks, hb.marks⟩

theorem written_flatten {as : List Additions} (h : ∀ a ∈ as, a.Written V) :
    (flatten as).Written V := by
  induction as with
  | nil => exact ⟨nofun, nofun, nofun, nofun⟩
  | cons a as ih =>
    obtain ⟨ha, has⟩ := List.forall_mem_cons.1 h
    exact ha.append (ih has)

end Additions

namespace Document

variable {scheme : ColorScheme} {width height : Option Number} {a : Additions}

/-- Every expression of a document was added, or stands on the table for a field that was. -/
theorem Evaluates.of_added {P : Expr → Prop}
    (hfields : ∀ f ∈ a.fields, ∀ t ∈ f.transforms, ∀ e ∈ t.exprs, P e)
    (hsources : ∀ s ∈ a.sources, ∀ t ∈ s.transforms, ∀ e ∈ t.exprs, P e)
    (hsignals : ∀ s ∈ a.signals, ∀ u ∈ s.updates, P u.value)
    (hmarks : ∀ m ∈ a.marks, m.Throughout (fun _ x => (∀ t ∈ x.transforms, ∀ e ∈ t.exprs, P e) ∧
      ∀ c ∈ x.channels, ∀ v ∈ c.2.values, ∀ e ∈ v.exprs, P e) none)
    {e : Expr} (he : (after scheme width height a).Evaluates e) : P e := by
  cases he with
  | source hs ht he =>
    rcases List.mem_cons.1 hs with rfl | hs
    · simp only [Source.tableOf, foldl_addField] at ht
      rcases List.mem_append.1 ht with ht | ht
      · rw [List.mem_singleton.1 ht] at he
        exact absurd he List.not_mem_nil
      · obtain ⟨f, hf, ht⟩ := List.mem_flatMap.1 ht
        exact hfields f (keptFields_subset _ _ f hf) _ ht e he
    · rcases List.mem_cons.1 hs with rfl | hs
      · exact absurd ht List.not_mem_nil
      · exact hsources _ hs _ ht e he
  | update hs hu he =>
    subst he
    rcases mem_extend _ hs with hs | hs
    · rw [List.mem_singleton.1 hs] at hu
      exact absurd hu List.not_mem_nil
    · exact hsignals _ hs _ hu
  | transform hm ht he => exact (Mark.Throughout.of_placed hmarks hm).1 _ ht e he
  | channel hv he =>
    obtain ⟨enclosing, earlier, m, rule, hm, hrule, hv⟩ := hv
    exact (Mark.Throughout.of_placed hmarks hm).2 _ hrule _ hv e he

theorem evaluates_written (h : a.Written V) {e : Expr}
    (he : (after scheme width height a).Evaluates e) : e.Written V :=
  he.of_added h.fields h.sources h.signals fun m hm => (h.marks m hm).imp fun _ _ hx =>
    ⟨hx.transforms, fun c hc v hv => (hx.channels c hc v hv).exprs⟩

theorem evaluates_resolves (h : a.Resolves σ) {e : Expr}
    (he : (after scheme width height a).Evaluates e) : e.Resolves σ :=
  he.of_added h.fields h.sources h.signals fun m hm => (h.marks m hm).imp fun _ _ hx =>
    ⟨hx.transforms, fun c hc v hv => (hx.channels c hc v hv).exprs⟩

theorem shows_resolves (h : a.Resolves σ) {channel : String} {v : ChannelValue}
    (hv : (after scheme width height a).Shows channel v) : v.Resolves σ := by
  obtain ⟨enclosing, earlier, m, rule, hm, hrule, hv⟩ := hv
  exact (Mark.Throughout.of_placed h.marks hm).channels _ hrule v hv

end Document

namespace Trendline

variable {m : SeriesMark} {ts : List Trendline}

theorem mem_signalNames {n : String} :
    n ∈ (allSignals m ts).map Signal.name ↔
      ((ts.any fun t => hasTooltip t.children) ∧
        (n = sharedName m.name ++ "_hoveredId" ∨ n = sharedName m.name ++ "_hoveredSeries")) ∨
      (ts.any Trendline.displayOnHover ∧ n = m.name ++ "_hoveredSeries") ∨
      ((ts.any fun t => hasPopover t.children) ∧
        (n = sharedName m.name ++ "_selectedId" ∨ n = sharedName m.name ++ "_selectedSeries")) := by
  have hmem {b : Bool} {ss : List Signal} :
      n ∈ (if b then ss else []).map Signal.name ↔ b ∧ n ∈ ss.map Signal.name := by
    cases b <;> simp
  simp only [allSignals, List.map_append, List.mem_append, hmem, or_assoc]
  simp [Signal.hoveredId, Signal.hoveredSeries, Signal.selectedId, Signal.selectedSeries,
    Signal.hover, Signal.unset]

/-- The trendlines of a mark are written with the names that they declare, the bounds of their ranges,
and the row pointed at where one of them has a popover: it is not declared for a popover alone. -/
theorem additions_written (h : m.Served V.toScope)
    (hsignals : ∀ n ∈ (allSignals m ts).map Signal.name, V.signal n)
    (hscales : ∀ n ∈ (allScales m ts).map Scale.name, V.scale n)
    (hhovered : (ts.any fun t => hasPopover t.children) →
      V.signal (sharedName m.name ++ "_hoveredId"))
    (hbound : ∀ t ∈ ts, ∀ v, t.HasBound v → V.number v) : (additions m ts).Written V where
  fields := forall_mem_additions_fields DerivedField.normalized_written
  sources := by
    refine allSources_written hbound ?_ fun hpop =>
      hsignals _ (mem_signalNames.2 (.inr (.inr ⟨hpop, .inl rfl⟩)))
    rintro ⟨t, ht, hint⟩
    rcases Bool.or_eq_true_iff.1 hint with htip | hpop
    · exact hsignals _ (mem_signalNames.2 (.inl ⟨List.any_eq_true.2 ⟨t, ht, htip⟩, .inl rfl⟩))
    · exact hhovered (List.any_eq_true.2 ⟨t, ht, hpop⟩)
  signals := allSignals_written
  marks := by
    refine allMarks_written h ?_ ?_ fun hpop =>
      hsignals _ (mem_signalNames.2 (.inr (.inr ⟨hpop, .inl rfl⟩)))
    · intro hne htime
      exact hscales _ (by simp [allScales, hne, htime, Scale.linearDimension, Scale.ofField])
    · intro t ht hhover
      exact hsignals _
        (mem_signalNames.2 (.inr (.inl ⟨List.any_eq_true.2 ⟨t, ht, hhover⟩, rfl⟩)))

end Trendline

@[simp] theorem Scale.name_ofDimension (kind : DimensionScale) (dimension : String) :
    (Scale.ofDimension kind dimension).name = dimensionScaleName kind := by
  cases kind <;> rfl

@[simp] theorem Scale.name_ofMetric (metric : String) :
    (Scale.ofMetric metric).name = Names.metricScale := rfl

/-- The names of what a line declares for its own children. -/
theorem SeriesMark.mem_lineSignalNames {m : SeriesMark} {n : String} :
    n ∈ m.lineSignals.map Signal.name ↔
      (hasInteractive m.children ∧ n = m.name ++ "_hoveredId") ∨
      (hasPopover m.children ∧
        (n = m.name ++ "_selectedId" ∨ n = m.name ++ "_selectedSeries")) := by
  rw [lineSignals]
  split_ifs with hi hp
  · simp [hi, hp, Signal.hoveredId, Signal.selectedId, Signal.selectedSeries, Signal.hover,
      Signal.unset]
  · simp [hi, hp, Signal.hoveredId, Signal.hover, Signal.unset]
  · simp [hi, mt Trendline.hasInteractive_of_hasPopover hi]

namespace ChartMark

/-- A scope covers a mark of a chart. Beyond what the mark declares it reads the scales of a line
width and an opacity by a field, and the row pointed at on trendlines with a popover. -/
structure Covered (σ : Scope) (m : ChartMark) : Prop extends Scope.Common σ where
  signals : ∀ n ∈ m.toCall.additions.signals.map Signal.name, σ.signal n
  scales : ∀ n ∈ m.toCall.additions.scales.map Scale.name, σ.scale n
  hovered : m.toSeriesMark.HasTrendline (fun t => hasPopover t.children) →
    σ.signal (Trendline.sharedName m.toSeriesMark.name ++ "_hoveredId")
  lineWidth : ∀ f ∈ m.toSeriesMark.lineWidth.primary?, σ.scale Names.lineWidthScale
  opacity : ∀ f ∈ m.toSeriesMark.opacity.primary?, σ.scale Names.opacityScale

variable {m : ChartMark} {ts : List Trendline}

theorem served_of_scales (h : σ.Common) (hscales : ∀ n ∈ m.base.scales.map Scale.name, σ.scale n)
    (hopacity : ∀ f ∈ m.toSeriesMark.opacity.primary?, σ.scale Names.opacityScale) :
    m.toSeriesMark.Served σ := by
  cases m with
  | line l =>
    simp only [base, SeriesMark.lineBase, SeriesMark.lineScales, List.map_append, List.map_cons,
      List.map_nil, List.forall_mem_append, List.forall_mem_cons, List.forall_mem_map,
      Scale.name_ofDimension, Scale.name_ofMetric] at hscales
    obtain ⟨⟨⟨hdimension, -⟩, hcolor⟩, -⟩ := hscales
    exact { h with dimension := hdimension, color := hcolor, opacity := hopacity }
  | bar b =>
    simp only [base, Bar.barBase, Bar.barScales, List.map_append, List.map_cons, List.map_nil,
      List.forall_mem_append, List.forall_mem_cons, List.forall_mem_map, Scale.name_ofDimension,
      Scale.name_ofMetric] at hscales
    obtain ⟨⟨hdimension, -⟩, hcolor⟩ := hscales
    exact { h with dimension := hdimension, color := hcolor, opacity := hopacity }

theorem base_written (h : m.toSeriesMark.Served V.toScope)
    (hscales : ∀ n ∈ m.base.scales.map Scale.name, V.scale n)
    (hsignals : ∀ n ∈ m.finish.signals.map Signal.name, V.signal n)
    (hwidth : ∀ f ∈ m.toSeriesMark.lineWidth.primary?, V.scale Names.lineWidthScale) :
    m.base.Written V := by
  cases m with
  | line l =>
    have hhovered (hint : hasInteractive l.children) : V.signal (l.name ++ "_hoveredId") :=
      hsignals _ (SeriesMark.mem_lineSignalNames.2 (.inl ⟨hint, rfl⟩))
    have hid (hpop : hasPopover l.children) : V.signal (l.name ++ "_selectedId") :=
      hsignals _ (SeriesMark.mem_lineSignalNames.2 (.inr ⟨hpop, .inl rfl⟩))
    have htype : ∀ f ∈ l.lineType.primary?, V.scale Names.lineTypeScale := by
      intro f hf
      have hscale : Scale.ordinal Names.lineTypeScale f Scale.dashPatterns ∈ l.lineScales := by
        simp [SeriesMark.lineScales, Scale.ofLineType, Option.mem_def.1 hf]
      exact hscales _ (List.mem_map_of_mem hscale)
    exact {
      fields := SeriesMark.forall_mem_lineFields DerivedField.date_written
        DerivedField.seriesId_written
      sources := SeriesMark.lineSources_written hhovered hid
      signals := nofun
      marks := SeriesMark.lineMarks_written h htype hwidth }
  | bar b =>
    exact {
      fields := List.forall_mem_singleton.2 (DerivedField.seriesId_written _)
      sources := nofun
      signals := nofun
      marks := List.forall_mem_singleton.2 (Bar.barMark_written h) }

theorem finish_written (h : m.toSeriesMark.Served V.toScope)
    (hsignals : ∀ n ∈ m.finish.signals.map Signal.name, V.signal n) : m.finish.Written V := by
  cases m with
  | line l =>
    have hid (hpop : hasPopover l.children) : V.signal (l.name ++ "_selectedId") :=
      hsignals _ (SeriesMark.mem_lineSignalNames.2 (.inr ⟨hpop, .inl rfl⟩))
    exact {
      fields := nofun
      sources := nofun
      signals := SeriesMark.lineSignals_written
      marks := SeriesMark.lineHighlights_written h hid }
  | bar b => exact ⟨nofun, nofun, nofun, nofun⟩

theorem Covered.written (h : m.Covered V.toScope) (hts : m.toSeriesMark.trendlines = .ok ts)
    (hbound : ∀ t ∈ ts, ∀ v, t.HasBound v → V.number v) : m.toCall.additions.Written V := by
  have hsignals := h.signals
  have hscales := h.scales
  simp only [additions_of_ok hts, Additions.append_signals, Additions.append_scales,
    List.map_append, List.forall_mem_append] at hsignals hscales ⊢
  obtain ⟨⟨-, htrendSignals⟩, hfinish⟩ := hsignals
  obtain ⟨⟨hbase, htrendScales⟩, -⟩ := hscales
  have hserved := served_of_scales h.toCommon hbase h.opacity
  have htrendlines : (Trendline.additions m.toSeriesMark ts).Written V :=
    Trendline.additions_written hserved htrendSignals htrendScales
      (fun hpop => h.hovered ⟨ts, hts, List.any_eq_true.1 hpop⟩) hbound
  exact ((base_written hserved hbase hfinish h.lineWidth).append htrendlines).append
    (finish_written hserved hfinish)

end ChartMark

end ChartCompiler
