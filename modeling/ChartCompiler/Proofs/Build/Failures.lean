import ChartCompiler.Proofs.Build.Capabilities

/-! What a failed call leaves behind. The methods of all trendlines are read before anything is
built for one of them, so what is there by then is what the mark adds without its trendlines, less
the highlights that stand behind them. -/

namespace ChartCompiler

def Child.plain (cs : List Child) : List Child := cs.filter fun c => c.trendline?.isNone

theorem Child.trendlines_plain (cs : List Child) : (plain cs).filterMap trendline? = [] := by
  rw [List.filterMap_eq_nil_iff]
  intro c hc
  exact Option.isNone_iff_eq_none.1 (List.mem_filter.1 hc).2

/-- Trendlines are neither tooltips nor popovers. -/
theorem sameInteraction_plain (cs : List Child) : SameInteraction cs (Child.plain cs) where
  tooltip := by
    rw [hasTooltip, hasTooltip, Child.plain, List.any_filter]
    congr 1
    funext c
    cases c <;> rfl
  popover := by
    rw [hasPopover, hasPopover, Child.plain, List.any_filter]
    congr 1
    funext c
    cases c <;> rfl

def SeriesMark.withoutTrendlines (m : SeriesMark) : SeriesMark :=
  { m with children := Child.plain m.children }

def Bar.withoutTrendlines (b : Bar) : Bar := { b with children := Child.plain b.children }

namespace SeriesMark

def HasBadMethod (m : SeriesMark) : Prop := ∃ s ∈ m.methods, ¬∃ k, FitMethod.ofText s = .ok k

variable {m : SeriesMark}

/-- One bad method is enough, whatever stands before and behind it. -/
theorem HasBadMethod.exists_error (h : m.HasBadMethod) : ∃ e, m.trendlines = .error e := by
  obtain ⟨s, hs, hbad⟩ := h
  cases hts : m.trendlines with
  | error e => exact ⟨e, rfl⟩
  | ok ts =>
    have hnone : m.methods.findSome? FitMethod.error? = none := by
      rw [← m.error?_eq, error?, hts]
    rw [List.findSome?_eq_none_iff] at hnone
    exact absurd (FitMethod.error?_eq_none_iff.1 (hnone s hs)) hbad

theorem trendlines_withoutTrendlines (m : SeriesMark) : m.withoutTrendlines.trendlines = .ok [] := by
  rw [trendlines, Trendline.ofChildren, withoutTrendlines, Child.trendlines_plain,
    Trendline.ofListFrom]

end SeriesMark

namespace Document

theorem withTrendlines_of_error {m : SeriesMark} {e : BuildError} (h : m.trendlines = .error e)
    (last : Document → Document) (d : Document) :
    d.withTrendlines m last = { document := d, error := some e } := by
  rw [withTrendlines, h]

theorem withTrendlines_of_nil {m : SeriesMark} (h : m.trendlines = .ok [])
    (last : Document → Document) (d : Document) :
    d.withTrendlines m last = { document := last d } := by
  rw [withTrendlines, h]
  rfl

/-- What a line has added by the time its trendlines are read. -/
def addLineBase (m : SeriesMark) (d : Document) : Document :=
  (((d.addFields m.lineFields).appendSources m.lineSources).extendScales m.lineScales).appendMarks
    m.lineMarks

def addBarBase (b : Bar) (d : Document) : Document :=
  ((d.addFields [.seriesId b.toSeriesMark.facets.all]).extendScales b.barScales).appendMarks
    [b.barMark]

theorem addLine_of_error {m : SeriesMark} {e : BuildError} (h : m.trendlines = .error e)
    (d : Document) : d.addLine m = { document := d.addLineBase m, error := some e } := by
  rw [addLine, withTrendlines_of_error h, addLineBase]

theorem addBar_of_error {b : Bar} {e : BuildError} (h : b.toSeriesMark.trendlines = .error e)
    (d : Document) : d.addBar b = { document := d.addBarBase b, error := some e } := by
  rw [addBar, addTrendlinesOf, withTrendlines_of_error h, addBarBase]

theorem addLine_withoutTrendlines (m : SeriesMark) (d : Document) :
    d.addLine m.withoutTrendlines =
      { document := ((d.addLineBase m).appendMarks m.lineHighlights).extendSignals m.lineSignals } := by
  have hsame := sameInteraction_plain m.children
  have hbase : d.addLineBase m.withoutTrendlines = d.addLineBase m := by
    rw [addLineBase, SeriesMark.withoutTrendlines, SeriesMark.lineSources_congr hsame]
    rfl
  have hlast : ∀ d : Document,
      (d.appendMarks m.withoutTrendlines.lineHighlights).extendSignals
        m.withoutTrendlines.lineSignals =
      (d.appendMarks m.lineHighlights).extendSignals m.lineSignals := by
    intro d
    rw [SeriesMark.withoutTrendlines, SeriesMark.lineHighlights_congr hsame,
      SeriesMark.lineSignals_congr hsame]
  rw [← hlast, ← hbase, addLine, withTrendlines_of_nil m.trendlines_withoutTrendlines, addLineBase]

theorem addBar_withoutTrendlines (b : Bar) (d : Document) :
    d.addBar b.withoutTrendlines = { document := d.addBarBase b } := by
  have hnone : b.withoutTrendlines.toSeriesMark.trendlines = .ok [] :=
    b.toSeriesMark.trendlines_withoutTrendlines
  rw [addBar, addTrendlinesOf, withTrendlines_of_nil hnone]
  rfl

/-- What a call leaves on any document if a method among the trendlines of its mark is bad: nothing
of a call for trendlines alone, of bars all that they add without trendlines, and of a line that
too, but for the highlights and their signals. Of no trendline anything is left, not of those before
the bad one either. -/
theorem failed_leaves_base (d : Document) :
    (∀ m : ChartMark, m.toSeriesMark.HasBadMethod →
      ∃ e, d.addTrendlinesOf m.toSeriesMark = { document := d, error := some e }) ∧
    (∀ b : Bar, b.toSeriesMark.HasBadMethod →
      ∃ e, d.addBar b = { document := (d.addBar b.withoutTrendlines).document, error := some e }) ∧
    ∀ l : SeriesMark, l.HasBadMethod → ∃ failed e,
      d.addLine l = { document := failed, error := some e } ∧
      ∃ whole, d.addLine l.withoutTrendlines = { document := whole } ∧
        failed.sources = whole.sources ∧ failed.scales = whole.scales ∧
        failed.signals = d.signals ∧ failed.marks <+: whole.marks ∧
        failed.width = whole.width ∧ failed.height = whole.height := by
  refine ⟨fun m hm => ?_, fun b hb => ?_, fun l hl => ?_⟩
  · obtain ⟨e, he⟩ := hm.exists_error
    exact ⟨e, withTrendlines_of_error he id d⟩
  · obtain ⟨e, he⟩ := hb.exists_error
    exact ⟨e, by rw [addBar_of_error he, addBar_withoutTrendlines]⟩
  · obtain ⟨e, he⟩ := hl.exists_error
    refine ⟨_, e, addLine_of_error he d, _, addLine_withoutTrendlines l d, rfl, rfl, rfl, ?_,
      rfl, rfl⟩
    exact List.prefix_append _ _

/-- A line with a tooltip, a trendline with one too, and a trendline with a method that is none. -/
theorem failed_leaves_base_of_second :
    let d := start .light none none
    let l : SeriesMark := { children := [
      .tooltip [], .trendline [.tooltip []] {}, .trendline [] { method := some "cubic" }] }
    ∃ failed whole, d.addLine l = { document := failed, error := some (.unknownMethod "cubic") } ∧
      d.addLine l.withoutTrendlines = { document := whole } ∧ failed.sources = whole.sources ∧
      failed.marks <+: whole.marks ∧ failed.marks.length = 1 ∧ whole.marks.length = 6 := by
  intro d l
  have hbad : l.HasBadMethod := by
    refine ⟨"cubic", by decide, ?_⟩
    rintro ⟨k, hk⟩
    cases hk
  obtain ⟨failed, e, hfailed, whole, hwhole, hsources, -, -, hmarks, -⟩ :=
    (failed_leaves_base d).2.2 l hbad
  have herror : (d.addLine l).error = some (.unknownMethod "cubic") := rfl
  have hone : (d.addLine l).document.marks.length = 1 := rfl
  have hsix : (d.addLine l.withoutTrendlines).document.marks.length = 6 := rfl
  rw [hfailed] at herror hone
  rw [hwhole] at hsix
  obtain rfl : e = .unknownMethod "cubic" := Option.some.inj herror
  exact ⟨failed, whole, hfailed, hwhole, hsources, hmarks, hone, hsix⟩

end Document

end ChartCompiler
