import ChartCompiler.Build.Scales
import ChartCompiler.Build.Signals
import ChartCompiler.Trendline.Marks

/-! All that the trendlines of a mark add to a document. -/

namespace ChartCompiler

namespace Trendline

def allScales (m : SeriesMark) (ts : List Trendline) : List Scale :=
  if ts.isEmpty || !m.onTimeScale then []
  else [.linearDimension Names.trendlineScale m.fitDimension]

/-- The signals that trendlines read. Those shown on hover follow the series pointed at on the mark.
-/
def allSignals (m : SeriesMark) (ts : List Trendline) : List Signal :=
  let name := sharedName m.name
  (if ts.any fun t => hasTooltip t.children then
    [.hoveredId name true (name ++ "_voronoi"), .hoveredSeries name true (name ++ "_voronoi")]
  else []) ++
  (if ts.any Trendline.displayOnHover then
    [.hoveredSeries m.name true (m.name ++ "_voronoi")]
  else []) ++
  (if ts.any fun t => hasPopover t.children then
    [.selectedId name, .selectedSeries name]
  else [])

end Trendline

namespace Document

def addTrendlines (m : SeriesMark) (ts : List Trendline) (d : Document) : Document :=
  if ts.isEmpty then d
  else
    let d := { d with sources := Trendline.appendSources m ts d.sources }
    let d := d.appendMarks (Trendline.allMarks m ts)
    let d := d.extendScales (Trendline.allScales m ts)
    d.extendSignals (Trendline.allSignals m ts)

end Document

end ChartCompiler
