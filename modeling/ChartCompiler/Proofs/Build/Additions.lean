import ChartCompiler.Build.Marks
import ChartCompiler.Proofs.Document.Extend

/-! What calls add to the document of a chart, as a value of its own. Every call only appends, and
so does every part of one. A document is given by all that was added to it, in order, and a call
turns the additions so far into those with its own behind them. -/

namespace ChartCompiler

structure Additions where
  /-- The fields asked for on the table, those that are there already too. -/
  fields : List DerivedField := []
  sources : List Source := []
  scales : List Scale := []
  signals : List Signal := []
  marks : List Mark := []

namespace Additions

def flatten (as : List Additions) : Additions where
  fields := as.flatMap fields
  sources := as.flatMap sources
  scales := as.flatMap scales
  signals := as.flatMap signals
  marks := as.flatMap marks

instance : Append Additions where
  append a b := {
    fields := a.fields ++ b.fields
    sources := a.sources ++ b.sources
    scales := a.scales ++ b.scales
    signals := a.signals ++ b.signals
    marks := a.marks ++ b.marks }

variable (a b c : Additions)

@[simp] theorem append_fields : (a ++ b).fields = a.fields ++ b.fields := rfl

@[simp] theorem append_sources : (a ++ b).sources = a.sources ++ b.sources := rfl

@[simp] theorem append_scales : (a ++ b).scales = a.scales ++ b.scales := rfl

@[simp] theorem append_signals : (a ++ b).signals = a.signals ++ b.signals := rfl

@[simp] theorem append_marks : (a ++ b).marks = a.marks ++ b.marks := rfl

theorem ext {a b : Additions} (hf : a.fields = b.fields) (hs : a.sources = b.sources)
    (hc : a.scales = b.scales) (hg : a.signals = b.signals) (hm : a.marks = b.marks) : a = b := by
  cases a
  cases b
  simp_all

theorem append_assoc : a ++ b ++ c = a ++ (b ++ c) := by
  apply ext <;> simp

theorem append_nil : a ++ {} = a := by
  apply ext <;> simp

theorem flatten_append (as bs : List Additions) :
    flatten (as ++ bs) = flatten as ++ flatten bs := by
  apply ext <;> simp [flatten]

theorem flatten_cons (as : List Additions) : flatten (a :: as) = a ++ flatten as := rfl

end Additions

namespace Source

def tableOf (ts : List Transform) : Source :=
  { name := Names.table, origin := .inline [], transforms := ts }

def filtered : Source := derive Names.filteredTable Names.table []

theorem editTable_tableOf (edit : List Transform → List Transform) (ts : List Transform)
    (ss : List Source) : editTable edit (tableOf ts :: ss) = tableOf (edit ts) :: ss := by
  have hname : (tableOf ts).name = Names.table := rfl
  have hmem : (tableOf ts :: ss).any (·.name == Names.table) := by simp [hname]
  rw [editTable, withTable, if_pos hmem, editFirst, if_pos hname]
  rfl

end Source

namespace Document

variable (scheme : ColorScheme) (width height : Option Number) (a : Additions)

def after : Document where
  width := width
  height := height
  sources :=
    .tableOf (a.fields.foldl addField [.identifier Names.markId]) :: .filtered :: a.sources
  scales := extend Scale.name [] a.scales
  signals := extend Signal.name (start scheme width height).signals a.signals
  marks := a.marks

theorem start_eq : start scheme width height = after scheme width height {} := rfl

theorem addFields_after (fs : List DerivedField) :
    (after scheme width height a).addFields fs =
      after scheme width height (a ++ { fields := fs }) := by
  simp only [addFields, Document.editTable, after, Source.editTable_tableOf,
    Additions.append_fields, Additions.append_sources, Additions.append_scales,
    Additions.append_signals, Additions.append_marks, List.foldl_append, List.append_nil]

theorem appendSources_after (ss : List Source) :
    (after scheme width height a).appendSources ss =
      after scheme width height (a ++ { sources := ss }) := by
  simp [appendSources, after]

theorem extendScales_after (ss : List Scale) :
    (after scheme width height a).extendScales ss =
      after scheme width height (a ++ { scales := ss }) := by
  simp [extendScales, after, extend_append]

theorem extendSignals_after (ss : List Signal) :
    (after scheme width height a).extendSignals ss =
      after scheme width height (a ++ { signals := ss }) := by
  simp [extendSignals, after, extend_append]

theorem appendMarks_after (ms : List Mark) :
    (after scheme width height a).appendMarks ms =
      after scheme width height (a ++ { marks := ms }) := by
  simp [appendMarks, after]

end Document

end ChartCompiler
