import ChartCompiler.Build.Values
import ChartCompiler.Chart.Mark
import ChartCompiler.Document.Mark

/-! Points drawn over a line: those that are always shown, and those of the row that is pointed at
or picked. -/

namespace ChartCompiler

namespace Expr

def flagged (field : String) : Expr := and (datum field) (strictEq (datum field) (bool true))

def selected (mark : String) : Expr :=
  let id := signal (mark ++ "_selectedId")
  and id (strictEq id (datum Names.markId))

def hovered (mark : String) : Expr :=
  strictEq (signal (mark ++ "_hoveredId")) (datum Names.markId)

/-- The row is to be highlighted: the one picked, else the one pointed at. Where nothing can be
picked, the one pointed at. -/
def highlighted (mark : String) (selectable : Bool) : Expr :=
  if selectable then
    let id := signal (mark ++ "_selectedId")
    or (strictEq id (datum Names.markId)) (and (not id) (hovered mark))
  else hovered mark

end Expr

namespace SeriesMark

def highlightedSource (m : SeriesMark) : String := m.name ++ "_highlightedData"

def staticPointSource (m : SeriesMark) : String := m.name ++ "_staticPointData"

def x (m : SeriesMark) : String × Rule := ("x", dimensionValue m.scaleType m.dimension)

def y (m : SeriesMark) : String × Rule := ("y", metricValue m.metric)

def colorValue (m : SeriesMark) : ChannelValue := m.color.colorValue m.scheme

def whereStatic (m : SeriesMark) (v : ChannelValue) : List ChannelValue :=
  (m.staticPoint.map fun f => v.guarded (.flagged f)).toList

/-- The value that holds in the row that was picked, as a list, empty where nothing can be picked.
-/
def whereSelected (m : SeriesMark) (v : ChannelValue) : List ChannelValue :=
  if hasPopover m.children then [v.guarded (.selected m.name)] else []

def highlightFill (m : SeriesMark) : List ChannelValue :=
  m.whereStatic m.colorValue ++ m.whereSelected m.colorValue ++ [.background]

def highlightStroke (m : SeriesMark) : List ChannelValue :=
  m.whereStatic m.colorValue ++ m.whereSelected .background ++ [m.colorValue]

def highlightStrokeOpacity (m : SeriesMark) : List ChannelValue :=
  let opacity := m.opacity.opacityValue
  m.whereStatic opacity.faded ++ [opacity]

/-- Points that are always shown are smaller, since their stroke is wider. -/
def highlightSize (m : SeriesMark) : List ChannelValue := m.whereStatic (.float 64) ++ [.float 100]

def highlightStrokeWidth (m : SeriesMark) : List ChannelValue :=
  m.whereStatic (.float 6) ++ [.float 2]

def staticPoints (m : SeriesMark) : Mark :=
  .still .symbol (m.name ++ "_staticPoints") m.staticPointSource {
    enter := .ofList [m.y, ("fill", m.colorValue), ("stroke", .single .background)]
    update := .ofList [m.x] }

/-- A point of the background's color, so that nothing shows through the highlight point. -/
def highlightBackground (m : SeriesMark) : Mark :=
  .still .symbol (m.name ++ "_pointBackground") m.highlightedSource {
    enter := .ofList [m.y, ("fill", .single .background), ("stroke", .single .background)]
    update := .ofList [
      ("size", .firstOf m.highlightSize),
      ("strokeWidth", .firstOf m.highlightStrokeWidth),
      m.x] }

def highlightPoint (m : SeriesMark) : Mark :=
  .still .symbol (m.name ++ "_point") m.highlightedSource {
    enter := .ofList [m.y, ("stroke", m.colorValue)]
    update := .ofList [
      ("fill", .firstOf m.highlightFill),
      ("size", .firstOf m.highlightSize),
      ("stroke", .firstOf m.highlightStroke),
      ("strokeOpacity", .firstOf m.highlightStrokeOpacity),
      ("strokeWidth", .firstOf m.highlightStrokeWidth),
      m.x] }

def secondaryPoint (m : SeriesMark) (metric : String) : Mark :=
  .still .symbol (m.name ++ "_secondaryPoint") m.highlightedSource {
    enter := .ofList [
      ("y", metricValue metric), ("fill", .single .background), ("stroke", m.colorValue)]
    update := .ofList [m.x] }

def selectRing (m : SeriesMark) : Mark :=
  let whenSelected (v : ChannelValue) : Rule :=
    .firstOf [v.guarded (.selected m.name), .literal (.int 0)]
  .still .symbol (m.name ++ "_pointSelectRing") m.highlightedSource {
    enter := .ofList [
      m.y,
      ("fill", .single .background),
      ("stroke", .single (.ofText (Palette.resolve m.scheme "static-blue")))]
    update := .ofList [
      ("size", whenSelected (.float 196)), ("strokeWidth", whenSelected (.float 2)), m.x] }

end SeriesMark

end ChartCompiler
