import ChartCompiler.Proofs.Build.Calls
import Mathlib.Logic.Basic

/-! The document of a chart, mark by mark. What a mark adds stands before its trendlines, is theirs
or stands behind them, and what a document has was added by one of its marks. -/

namespace ChartCompiler

open Trendline

def SeriesMark.HasTrendline (m : SeriesMark) (p : Trendline → Prop) : Prop :=
  ∃ ts, m.trendlines = .ok ts ∧ ∃ t ∈ ts, p t

theorem SeriesMark.hasTrendline_of_ok {m : SeriesMark} {ts : List Trendline} (h : m.trendlines = .ok ts)
    {p : Trendline → Prop} : m.HasTrendline p ↔ ∃ t ∈ ts, p t := by
  simp [HasTrendline, h]

namespace ChartMark

variable (scheme : ColorScheme) (m : ChartMark)

theorem mark_toCall : m.toCall.mark = m.toSeriesMark := by
  cases m <;> rfl

def base : ChartMark → Additions
  | line l => l.lineBase
  | bar b => b.barBase

def finish : ChartMark → Additions
  | line l => { signals := l.lineSignals, marks := l.lineHighlights }
  | bar _ => {}

@[simp] theorem base_signals : m.base.signals = [] := by cases m <;> rfl

@[simp] theorem finish_fields : m.finish.fields = [] := by cases m <;> rfl

@[simp] theorem finish_sources : m.finish.sources = [] := by cases m <;> rfl

@[simp] theorem finish_scales : m.finish.scales = [] := by cases m <;> rfl

variable {m} in
theorem additions_of_ok {ts : List Trendline} (h : m.toSeriesMark.trendlines = .ok ts) :
    m.toCall.additions = m.base ++ Trendline.additions m.toSeriesMark ts ++ m.finish := by
  cases m with
  | line l =>
    rw [toCall, Call.additions, l.trendlineAdditions_of_ok h, SeriesMark.lineFinish]
    rw [toSeriesMark] at h
    rw [h]
    rfl
  | bar b =>
    rw [toCall, Call.additions, b.toSeriesMark.trendlineAdditions_of_ok h]
    exact (Additions.append_nil _).symm

/-! The scheme of a chart only colors its marks. -/

@[simp] theorem withScheme_name :
    (m.withScheme scheme).toSeriesMark.name = m.toSeriesMark.name := by
  cases m <;> rfl

@[simp] theorem withScheme_dimension :
    (m.withScheme scheme).toSeriesMark.dimension = m.toSeriesMark.dimension := by
  cases m <;> rfl

@[simp] theorem withScheme_onTimeScale :
    (m.withScheme scheme).toSeriesMark.onTimeScale = m.toSeriesMark.onTimeScale := by
  cases m <;> rfl

@[simp] theorem withScheme_trendlines :
    (m.withScheme scheme).toSeriesMark.trendlines = m.toSeriesMark.trendlines := by
  cases m <;> rfl

@[simp] theorem withScheme_hasTrendline {p : Trendline → Prop} :
    (m.withScheme scheme).toSeriesMark.HasTrendline p ↔ m.toSeriesMark.HasTrendline p := by
  simp [SeriesMark.HasTrendline]

end ChartMark

namespace Chart

variable {c : Chart} {d : Document}

theorem trendlines_of_build (h : c.build = .ok d) :
    ∀ m ∈ c.marks, ∃ ts, m.toSeriesMark.trendlines = .ok ts := by
  intro m hm
  have herror := ((c.build_ok_iff d).1 h).1 _ (List.mem_map_of_mem hm)
  rw [ChartMark.mark_toCall, SeriesMark.error?, ChartMark.withScheme_trendlines] at herror
  cases hts : m.toSeriesMark.trendlines with
  | ok ts => exact ⟨ts, rfl⟩
  | error e => simp [hts] at herror

theorem mem_additions_fields {f : DerivedField} : f ∈ c.additions.fields ↔
    ∃ m ∈ c.marks, f ∈ (m.withScheme c.scheme).toCall.additions.fields := by
  simp [additions, Additions.flatten, calls]

theorem mem_additions_signals {s : Signal} : s ∈ c.additions.signals ↔
    ∃ m ∈ c.marks, s ∈ (m.withScheme c.scheme).toCall.additions.signals := by
  simp [additions, Additions.flatten, calls]

theorem mem_additions_scales {s : Scale} : s ∈ c.additions.scales ↔
    ∃ m ∈ c.marks, s ∈ (m.withScheme c.scheme).toCall.additions.scales := by
  simp [additions, Additions.flatten, calls]

def sourcesOf (c : Chart) (m : ChartMark) : List Source :=
  (m.withScheme c.scheme).toCall.additions.sources

theorem sources_build (h : c.build = .ok d) :
    d.sources = .tableOf (c.additions.fields.foldl addField [.identifier Names.markId]) ::
      .filtered :: c.marks.flatMap c.sourcesOf := by
  obtain ⟨-, rfl⟩ := (c.build_ok_iff d).1 h
  simp only [Document.after, additions, Additions.flatten, calls, List.map_map, List.flatMap_map]
  rfl

theorem sources_subset_build (h : c.build = .ok d) {m : ChartMark} (hm : m ∈ c.marks) :
    c.sourcesOf m ⊆ d.sources := by
  intro s hs
  rw [sources_build h]
  exact List.mem_cons_of_mem _ (List.mem_cons_of_mem _ (List.mem_flatMap.2 ⟨m, hm, hs⟩))

theorem mem_marks_build (h : c.build = .ok d) {x : Mark} (hx : x ∈ d.marks) :
    ∃ m ∈ c.marks, x ∈ (m.withScheme c.scheme).toCall.additions.marks := by
  obtain ⟨-, rfl⟩ := (c.build_ok_iff d).1 h
  simpa [Document.after, additions, Additions.flatten, calls] using hx

theorem marks_subset_build (h : c.build = .ok d) {m : ChartMark} (hm : m ∈ c.marks) :
    (m.withScheme c.scheme).toCall.additions.marks ⊆ d.marks := by
  obtain ⟨-, rfl⟩ := (c.build_ok_iff d).1 h
  intro x hx
  simpa [Document.after, additions, Additions.flatten, calls] using ⟨m, hm, hx⟩

/-- A document has all that is built for the trendlines of a mark. -/
theorem trendlines_subset_build (h : c.build = .ok d) {m : ChartMark} (hm : m ∈ c.marks)
    {ts : List Trendline} (hts : m.toSeriesMark.trendlines = .ok ts) :
    allSources (m.withScheme c.scheme).toSeriesMark ts ⊆ d.sources ∧
      allMarks (m.withScheme c.scheme).toSeriesMark ts ⊆ d.marks := by
  have hadds : (m.withScheme c.scheme).toSeriesMark.trendlineAdditions =
      Trendline.additions (m.withScheme c.scheme).toSeriesMark ts :=
    SeriesMark.trendlineAdditions_of_ok (by simpa using hts)
  have hsubset := (m.withScheme c.scheme).toCall.trendlineAdditions_subset
  rw [ChartMark.mark_toCall, hadds] at hsubset
  exact ⟨List.Subset.trans hsubset.1 (sources_subset_build h hm),
    List.Subset.trans hsubset.2 (marks_subset_build h hm)⟩

end Chart

end ChartCompiler
