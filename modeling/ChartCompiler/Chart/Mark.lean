import ChartCompiler.Chart.Child
import ChartCompiler.Chart.Facets

/-! The marks of a chart, with the defaults that an author may rely on. -/

namespace ChartCompiler

/-- A mark that draws rows by a dimension and a metric, and to which trendlines attach. It is what a
line is written as; a bar is seen as one through `Bar.toSeriesMark`. -/
structure SeriesMark where
  name : String := "line0"
  dimension : String := "datetime"
  metric : String := "value"
  color : Encoding String := .field "series"
  lineType : Encoding LineType := .fixed (.named .solid)
  lineWidth : Encoding LineWidth := .fixed (.named .medium)
  opacity : Encoding Number := .fixed 1
  scaleType : DimensionScale := .time
  /-- A field that is true in the rows whose point is always shown. -/
  staticPoint : Option String := none
  children : List Child := []
  scheme : ColorScheme := .light
  deriving Repr

namespace SeriesMark

def facets (m : SeriesMark) : Facets := Facets.ofEncodings m.color m.lineType

def onTimeScale (m : SeriesMark) : Bool := m.scaleType == .time

end SeriesMark

structure Bar where
  name : String := "bar0"
  dimension : String := "category"
  metric : String := "value"
  color : Encoding String := .field "series"
  lineType : Encoding LineType := .fixed (.named .solid)
  children : List Child := []
  scheme : ColorScheme := .light
  deriving Repr

/-- A bar always stands on a band scale. -/
def Bar.toSeriesMark (b : Bar) : SeriesMark where
  name := b.name
  dimension := b.dimension
  metric := b.metric
  color := b.color
  lineType := b.lineType
  scaleType := .band
  children := b.children
  scheme := b.scheme

inductive ChartMark
  | line (mark : SeriesMark)
  | bar (bar : Bar)
  deriving Repr

namespace ChartMark

def withScheme (scheme : ColorScheme) : ChartMark → ChartMark
  | .line m => .line { m with scheme }
  | .bar b => .bar { b with scheme }

def toSeriesMark : ChartMark → SeriesMark
  | .line m => m
  | .bar b => b.toSeriesMark

end ChartMark

/-- A chart description. Its color scheme is that of all its marks. -/
structure Chart where
  scheme : ColorScheme := .light
  width : Option Number := none
  height : Option Number := none
  marks : List ChartMark := []
  deriving Repr

end ChartCompiler
