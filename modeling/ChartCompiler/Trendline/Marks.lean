import ChartCompiler.Build.Hover
import ChartCompiler.Trendline.Sources

/-! The lines of trendlines, and the marks that highlight a point of one. -/

namespace ChartCompiler

/-- The opacity of a line. One that is shown on hover is there only for the series pointed at on the
mark. -/
def lineOpacity (mark : String) (opacity : Encoding Number) (displayOnHover : Bool) : Rule :=
  let opacity := opacity.opacityValue
  if displayOnHover then
    .firstOf [
      opacity.guarded (.strictEq (.signal (mark ++ "_hoveredSeries")) (.datum Names.seriesId)),
      .literal (.int 0)]
  else .single opacity

namespace Trendline

def partitionName (t : Trendline) : String := t.name ++ "_facet"

def dimensionValue (m : SeriesMark) : ChannelValue :=
  if m.onTimeScale then .scaled Names.trendlineScale m.fitDimension
  else ChartCompiler.dimensionValue m.scaleType m.dimension

def line (m : SeriesMark) (t : Trendline) : Mark :=
  let color := (t.color.map Encoding.fixed).getD m.color
  .still .line t.name t.partitionName {
    enter := .ofList [
      ("y", .single (metricValue t.metric)),
      ("stroke", .single (color.colorValue m.scheme)),
      ("strokeDash", .single (Encoding.dashValue (.fixed t.lineType))),
      ("strokeWidth", .single (Encoding.widthValue (.fixed t.lineWidth)))]
    update := .ofList [
      ("x", .single (dimensionValue m)),
      ("strokeOpacity", lineOpacity m.name (.fixed t.opacity) t.displayOnHover)] }

def group (m : SeriesMark) (t : Trendline) : Mark :=
  (Mark.parted (t.name ++ "_group")
    { name := t.partitionName, source := t.lineSource, groupby := m.facets.all }
    [line m t]).clipped

def hoverMark (m : SeriesMark) (ts : List Trendline) : SeriesMark :=
  { m with
    name := sharedName m.name
    metric := Names.trendlineValue
    children := ts.flatMap Trendline.children }

/-- The highlights over all interactive trendlines. Any one of them may ask for the point of the row
itself too. -/
def hoverGroup (m : SeriesMark) (ts : List Trendline) : Mark :=
  let rawMetric := if ts.any Trendline.highlightRawPoint then some m.metric else none
  Mark.clipped {
    name := sharedName m.name ++ "_hoverGroup"
    shape := .group
    marks := (hoverMark m ts).hoverMarks (combinedSource m.name) rawMetric }

/-- The marks of all trendlines of a mark, and the highlights if one of them has a tooltip. -/
def allMarks (m : SeriesMark) (ts : List Trendline) : List Mark :=
  ts.map (group m) ++
    if ts.any fun t => hasTooltip t.children then [hoverGroup m ts] else []

end Trendline

end ChartCompiler
