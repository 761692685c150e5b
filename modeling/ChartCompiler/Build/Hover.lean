import ChartCompiler.Build.Points

/-! What a reader of the chart points at: cells around the points of a line that take the events,
and the marks at the row that is highlighted. -/

namespace ChartCompiler.SeriesMark

def hoverRule (m : SeriesMark) : Mark :=
  .still .rule (m.name ++ "_hoverRule") m.highlightedSource {
    enter := .ofList [
      ("y", .single (.literal (.int 0))),
      ("y2", .single (.ofSignal (.signal "height"))),
      ("strokeWidth", .single (.literal (.int 1))),
      ("stroke", .single (.ofText (Palette.resolve m.scheme "gray-300")))]
    update := .ofList [m.x] }

def cellPoints (m : SeriesMark) : String := m.name ++ "_pointsForVoronoi"

def cells (m : SeriesMark) : String := m.name ++ "_voronoi"

/-- The points that the cells lie around, which are not seen. -/
def voronoiPoints (m : SeriesMark) (source : String) : Mark :=
  .still .symbol m.cellPoints source {
    enter := .ofList [m.y, ("fill", .single .transparent), ("stroke", .single .transparent)]
    update := .ofList [m.x] }

def cellReactions (m : SeriesMark) : List (String × Rule) :=
  (if hasTooltip m.children then [("tooltip", .single (.ofSignal (.datum "datum")))] else []) ++
    if hasPopover m.children then [("cursor", .single (.ofText "pointer"))] else []

def voronoiCells (m : SeriesMark) : Mark :=
  { Mark.drawn .path m.cells m.cellPoints {
      enter := .ofList ([
        ("fill", .single .transparent),
        ("stroke", .single .transparent),
        ("isVoronoi", .single (.literal (.bool true)))] ++ m.cellReactions) } with
    transforms := [
      .voronoi (.datum "x") (.datum "y")
        [.ofSignal (.signal "width"), .ofSignal (.signal "height")]] }

/-- The marks that highlight the row nearest to the pointer, on a second metric too if one is given.
-/
def hoverMarks (m : SeriesMark) (source : String) (secondMetric : Option String) : List Mark :=
  [m.hoverRule, m.highlightBackground, m.highlightPoint] ++
    (secondMetric.map m.secondaryPoint).toList ++ [m.voronoiPoints source, m.voronoiCells]

end ChartCompiler.SeriesMark
