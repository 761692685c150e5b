import ChartCompiler.Proofs.Build.Additions
import ChartCompiler.Proofs.Build.Fields

/-! Runs of calls on the document of a chart. A call that fails has added what comes before the
trendlines of its mark, and the next call goes on from there. What a call adds is a function of its
mark alone, and a run adds what its calls add. -/

namespace ChartCompiler

def Trendline.additions (m : SeriesMark) (ts : List Trendline) : Additions where
  fields := if needsDays m ts then [.normalized m.dimension] else []
  sources := allSources m ts
  scales := allScales m ts
  signals := allSignals m ts
  marks := allMarks m ts

namespace SeriesMark

variable (m : SeriesMark)

def error? : Option BuildError :=
  match m.trendlines with
  | .ok _ => none
  | .error e => some e

def trendlineAdditions : Additions :=
  match m.trendlines with
  | .ok ts => Trendline.additions m ts
  | .error _ => {}

def lineBase : Additions where
  fields := m.lineFields
  sources := m.lineSources
  scales := m.lineScales
  marks := m.lineMarks

def lineFinish : Additions :=
  match m.trendlines with
  | .ok _ => { signals := m.lineSignals, marks := m.lineHighlights }
  | .error _ => {}

variable {m}

theorem trendlineAdditions_of_ok {ts : List Trendline} (h : m.trendlines = .ok ts) :
    m.trendlineAdditions = Trendline.additions m ts := by
  rw [trendlineAdditions, h]

/-- Trendlines add what they are built into, or nothing. -/
theorem trendlineAdditions_induction {P : Additions → Prop} (hnothing : P {})
    (hts : ∀ ts, P (Trendline.additions m ts)) : P m.trendlineAdditions := by
  rw [trendlineAdditions]
  cases m.trendlines with
  | ok ts => exact hts ts
  | error e => exact hnothing

theorem lineFinish_induction {P : Additions → Prop} (hnothing : P {})
    (hfinish : P { signals := m.lineSignals, marks := m.lineHighlights }) : P m.lineFinish := by
  rw [lineFinish]
  cases m.trendlines with
  | ok ts => exact hfinish
  | error e => exact hnothing

@[simp] theorem lineFinish_fields : m.lineFinish.fields = [] :=
  lineFinish_induction (P := fun a => a.fields = []) rfl rfl

@[simp] theorem lineFinish_sources : m.lineFinish.sources = [] :=
  lineFinish_induction (P := fun a => a.sources = []) rfl rfl

theorem forall_mem_lineFields {P : DerivedField → Prop} (hdate : ∀ dimension, P (.date dimension))
    (hseriesId : ∀ facets, P (.seriesId facets)) : ∀ f ∈ m.lineFields, P f := by
  intro f hf
  rcases List.mem_append.1 hf with hf | hf
  · split_ifs at hf
    · rw [List.mem_singleton.1 hf]
      exact hdate _
    · exact absurd hf List.not_mem_nil
  · rw [List.mem_singleton.1 hf]
    exact hseriesId _

end SeriesMark

theorem Trendline.forall_mem_additions_fields {P : DerivedField → Prop} {m : SeriesMark}
    {ts : List Trendline} (hnormalized : ∀ dimension, P (.normalized dimension)) :
    ∀ f ∈ (Trendline.additions m ts).fields, P f := by
  intro f hf
  simp only [Trendline.additions] at hf
  split_ifs at hf
  · rw [List.mem_singleton.1 hf]
    exact hnormalized _
  · exact absurd hf List.not_mem_nil

def Bar.barBase (b : Bar) : Additions where
  fields := [.seriesId b.toSeriesMark.facets.all]
  scales := b.barScales
  marks := [b.barMark]

/-- A call on a document: to add a line, bars, or the trendlines of a mark and nothing else of it.
-/
inductive Call
  | line (m : SeriesMark)
  | bar (b : Bar)
  | trendlines (m : ChartMark)

namespace Call

def apply : Call → Document → Built
  | .line m => Document.addLine m
  | .bar b => Document.addBar b
  | .trendlines m => Document.addTrendlinesOf m.toSeriesMark

def mark : Call → SeriesMark
  | .line m => m
  | .bar b => b.toSeriesMark
  | .trendlines m => m.toSeriesMark

def additions : Call → Additions
  | .line m => m.lineBase ++ m.trendlineAdditions ++ m.lineFinish
  | .bar b => b.barBase ++ b.toSeriesMark.trendlineAdditions
  | .trendlines m => m.toSeriesMark.trendlineAdditions

/-- Calls add dates, the ids of series and days to the table, and no other fields. -/
theorem forall_mem_fields {P : DerivedField → Prop} (hdate : ∀ dimension, P (.date dimension))
    (hseriesId : ∀ facets, P (.seriesId facets))
    (hnormalized : ∀ dimension, P (.normalized dimension)) (c : Call) :
    ∀ f ∈ c.additions.fields, P f := by
  have htrendlines (m : SeriesMark) : ∀ f ∈ m.trendlineAdditions.fields, P f :=
    SeriesMark.trendlineAdditions_induction (P := fun a => ∀ f ∈ a.fields, P f) nofun fun _ =>
      Trendline.forall_mem_additions_fields hnormalized
  intro f hf
  cases c with
  | line m =>
    simp only [additions, Additions.append_fields, SeriesMark.lineFinish_fields, List.append_nil]
      at hf
    exact (List.mem_append.1 hf).elim (SeriesMark.forall_mem_lineFields hdate hseriesId f)
      (htrendlines m f)
  | bar b =>
    rcases List.mem_append.1 hf with hf | hf
    · rw [List.mem_singleton.1 hf]
      exact hseriesId _
    · exact htrendlines _ f hf
  | trendlines m => exact htrendlines _ f hf

theorem fields_simple (c : Call) : ∀ f ∈ c.additions.fields, f.Simple :=
  c.forall_mem_fields DerivedField.simple_date DerivedField.simple_seriesId
    DerivedField.simple_normalized

/-- A call adds its trendlines among the rest. -/
theorem trendlineAdditions_subset (c : Call) :
    c.mark.trendlineAdditions.sources ⊆ c.additions.sources ∧
      c.mark.trendlineAdditions.marks ⊆ c.additions.marks := by
  cases c <;> simp [mark, additions]

end Call

def ChartMark.toCall : ChartMark → Call
  | .line m => .line m
  | .bar b => .bar b

def Chart.calls (c : Chart) : List Call :=
  c.marks.map fun m => (m.withScheme c.scheme).toCall

def Chart.additions (c : Chart) : Additions := .flatten (c.calls.map Call.additions)

namespace Document

/-- The document after calls, each made whether or not those before it failed. -/
def run (cs : List Call) (d : Document) : Document :=
  cs.foldl (fun d c => (c.apply d).document) d

variable (scheme : ColorScheme) (width height : Option Number) (a : Additions)

theorem appendSources_trendlines (m : SeriesMark) (ts : List Trendline) :
    Trendline.appendSources m ts (after scheme width height a).sources =
      (after scheme width height (a ++ Trendline.additions m ts)).sources := by
  simp only [Trendline.appendSources, after, List.cons_append, Trendline.additions,
    Additions.append_fields, Additions.append_sources]
  by_cases h : Trendline.needsDays m ts
  · rw [if_pos h, if_pos h, Source.editTable_tableOf, List.foldl_append]
    rfl
  · rw [if_neg h, if_neg h, List.append_nil]

theorem addTrendlines_after (m : SeriesMark) (ts : List Trendline) :
    (after scheme width height a).addTrendlines m ts =
      after scheme width height (a ++ Trendline.additions m ts) := by
  rw [addTrendlines]
  by_cases h : ts.isEmpty
  · have hts : ts = [] := List.isEmpty_iff.1 h
    have hnone : Trendline.additions m [] = {} := by
      simp [Trendline.additions, Trendline.needsDays, Trendline.allSources,
        Trendline.combinedSources, Trendline.allScales, Trendline.allSignals, Trendline.allMarks]
    rw [if_pos h, hts, hnone, Additions.append_nil]
  · rw [if_neg h, appendSources_trendlines]
    simp [after, appendMarks, extendScales, extendSignals, extend_append, Trendline.additions]

theorem addTrendlinesOf_after (m : SeriesMark) :
    (after scheme width height a).addTrendlinesOf m =
      { document := after scheme width height (a ++ m.trendlineAdditions), error := m.error? } := by
  rw [addTrendlinesOf, withTrendlines, SeriesMark.trendlineAdditions, SeriesMark.error?]
  cases m.trendlines with
  | ok ts =>
    dsimp only
    rw [addTrendlines_after, id]
  | error e => rw [Additions.append_nil]

theorem addLine_after (m : SeriesMark) :
    (after scheme width height a).addLine m =
      { document := after scheme width height (a ++ (m.lineBase ++ m.trendlineAdditions
          ++ m.lineFinish))
        error := m.error? } := by
  have hbase : a ++ { fields := m.lineFields } ++ { sources := m.lineSources }
      ++ { scales := m.lineScales } ++ { marks := m.lineMarks } = a ++ m.lineBase := by
    apply Additions.ext <;> simp [SeriesMark.lineBase]
  rw [addLine, addFields_after, appendSources_after, extendScales_after, appendMarks_after, hbase,
    withTrendlines, SeriesMark.trendlineAdditions, SeriesMark.lineFinish, SeriesMark.error?]
  cases m.trendlines with
  | ok ts =>
    have hfinish : { marks := m.lineHighlights } ++ { signals := m.lineSignals } =
        ({ signals := m.lineSignals, marks := m.lineHighlights } : Additions) := by
      apply Additions.ext <;> simp
    dsimp only
    rw [addTrendlines_after, appendMarks_after, extendSignals_after, Additions.append_assoc,
      Additions.append_assoc, hfinish, Additions.append_assoc, Additions.append_assoc]
  | error e => rw [Additions.append_nil, Additions.append_nil]

theorem addBar_after (b : Bar) :
    (after scheme width height a).addBar b =
      { document := after scheme width height (a ++ (b.barBase
          ++ b.toSeriesMark.trendlineAdditions))
        error := b.toSeriesMark.error? } := by
  have hbase : a ++ { fields := [.seriesId b.toSeriesMark.facets.all] }
      ++ { scales := b.barScales } ++ { marks := [b.barMark] } = a ++ b.barBase := by
    apply Additions.ext <;> simp [Bar.barBase]
  rw [addBar, addFields_after, extendScales_after, appendMarks_after, hbase,
    addTrendlinesOf_after, Additions.append_assoc]

/-- What a call does to the document of a chart. -/
theorem apply_after (c : Call) :
    c.apply (after scheme width height a) =
      { document := after scheme width height (a ++ c.additions), error := c.mark.error? } := by
  cases c with
  | line m => exact addLine_after scheme width height a m
  | bar b => exact addBar_after scheme width height a b
  | trendlines m => exact addTrendlinesOf_after scheme width height a m.toSeriesMark

/-- A run adds what its calls add. -/
theorem run_after (cs : List Call) :
    run cs (after scheme width height a) =
      after scheme width height (a ++ .flatten (cs.map Call.additions)) := by
  induction cs generalizing a with
  | nil => exact (congrArg (after scheme width height) (Additions.append_nil a)).symm
  | cons c cs ih =>
    have := ih (a ++ c.additions)
    rw [Additions.append_assoc] at this
    rw [List.map_cons, Additions.flatten_cons, ← this, run, run, List.foldl_cons, apply_after]

theorem run_start (cs : List Call) :
    run cs (start scheme width height) =
      after scheme width height (.flatten (cs.map Call.additions)) := by
  rw [start_eq, run_after]
  rfl

theorem sources_run (cs : List Call) :
    (run cs (start scheme width height)).sources =
      .tableOf ((cs.flatMap (·.additions.fields)).foldl addField [.identifier Names.markId]) ::
        .filtered :: cs.flatMap (·.additions.sources) := by
  simp only [run_start, after, Additions.flatten, List.flatMap_map]

theorem marks_run (cs : List Call) :
    (run cs (start scheme width height)).marks = cs.flatMap (·.additions.marks) := by
  simp only [run_start, after, Additions.flatten, List.flatMap_map]

variable {scheme width height} in
/-- What a call adds stays in the documents after it. -/
theorem sources_subset_run {cs : List Call} {c : Call} (hc : c ∈ cs) :
    c.additions.sources ⊆ (run cs (start scheme width height)).sources := by
  intro s hs
  rw [sources_run]
  exact List.mem_cons_of_mem _ (List.mem_cons_of_mem _ (List.mem_flatMap.2 ⟨c, hc, hs⟩))

variable {scheme width height} in
theorem marks_subset_run {cs : List Call} {c : Call} (hc : c ∈ cs) :
    c.additions.marks ⊆ (run cs (start scheme width height)).marks := by
  intro m hm
  rw [marks_run]
  exact List.mem_flatMap.2 ⟨c, hc, hm⟩

theorem addMarks_after (ms : List ChartMark) (d : Document) :
    (after scheme width height a).addMarks ms = .ok d ↔
      (∀ m ∈ ms, m.toCall.mark.error? = none) ∧
        d = after scheme width height (a ++ .flatten (ms.map fun m => m.toCall.additions)) := by
  induction ms generalizing a with
  | nil =>
    have hnil : a ++ .flatten [] = a := Additions.append_nil a
    simp [addMarks, hnil, eq_comm]
  | cons m ms ih =>
    have hcall : (after scheme width height a).addMark m =
        m.toCall.apply (after scheme width height a) := by cases m <;> rfl
    rw [addMarks, hcall, apply_after, List.forall_mem_cons, List.map_cons, Additions.flatten_cons,
      ← Additions.append_assoc, and_assoc, ← ih]
    cases m.toCall.mark.error? with
    | none => simp
    | some e => simp

end Document

/-- A chart is built exactly if the trendlines of all its marks can be, and then its document holds
what the marks add. -/
theorem Chart.build_ok_iff (c : Chart) (d : Document) :
    c.build = .ok d ↔
      (∀ k ∈ c.calls, k.mark.error? = none) ∧
        d = .after c.scheme c.width c.height c.additions := by
  have hnil : ({} : Additions) ++ c.additions = c.additions := rfl
  rw [build, Document.start_eq, Document.addMarks_after, List.forall_mem_map, List.map_map]
  simp only [calls, additions, List.forall_mem_map, List.map_map] at hnil ⊢
  exact Iff.rfl

end ChartCompiler
