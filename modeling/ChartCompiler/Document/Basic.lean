import ChartCompiler.Document.Mark
import ChartCompiler.Document.Scale
import ChartCompiler.Document.Signal
import ChartCompiler.Document.Source

/-! The compiled document. The order inside each list counts: a source stands after those it reads,
and a later mark is drawn over an earlier one. Scales and signals have unique names: the first of a
name stays. -/

namespace ChartCompiler

structure Document where
  width : Option Number := none
  height : Option Number := none
  sources : List Source := []
  scales : List Scale := []
  signals : List Signal := []
  marks : List Mark := []
  deriving Repr

namespace Document

def schema : String := "https://vega.github.io/schema/vega/v5.json"

def source? (d : Document) (name : String) : Option Source := d.sources.find? (·.name == name)

def scale? (d : Document) (name : String) : Option Scale := d.scales.find? (·.name == name)

def signal? (d : Document) (name : String) : Option Signal := d.signals.find? (·.name == name)

/-- The first mark of that name at any depth. -/
def mark? (d : Document) (name : String) : Option Mark := Mark.findIn? name d.marks

/-- Appends the items whose name is not taken, in order. -/
def extend {α : Type} (name : α → String) (old new : List α) : List α :=
  new.foldl (fun done a => if done.any (name · == name a) then done else done ++ [a]) old

def extendScales (d : Document) (scales : List Scale) : Document :=
  { d with scales := extend Scale.name d.scales scales }

def extendSignals (d : Document) (signals : List Signal) : Document :=
  { d with signals := extend Signal.name d.signals signals }

def appendSources (d : Document) (sources : List Source) : Document :=
  { d with sources := d.sources ++ sources }

def appendMarks (d : Document) (marks : List Mark) : Document :=
  { d with marks := d.marks ++ marks }

def toJson (d : Document) : Json :=
  .ofMembers [
    some ("$schema", .text schema),
    Json.member? "width" (d.width.map .float),
    Json.member? "height" (d.height.map .float),
    some ("data", .array (d.sources.map Source.toJson)),
    some ("scales", .array (d.scales.map Scale.toJson)),
    some ("signals", .array (d.signals.map Signal.toJson)),
    some ("marks", .array (d.marks.map Mark.toJson))]

end Document

end ChartCompiler
