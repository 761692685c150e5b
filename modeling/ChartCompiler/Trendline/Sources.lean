import ChartCompiler.Build.Points
import ChartCompiler.Build.Table
import ChartCompiler.Trendline.Basic

/-! The sources that trendlines are computed in. -/

namespace ChartCompiler

/-- A time dimension counted in days from its least value, the first day being one. -/
def normalized (dimension : String) : String := dimension ++ "Normalized"

def SeriesMark.fitDimension (m : SeriesMark) : String :=
  if m.onTimeScale then normalized m.dimension else m.dimension

def msPerDay : Nat := 86400000

def DerivedField.normalized (dimension : String) : DerivedField where
  name := ChartCompiler.normalized dimension
  transforms :=
    let least := dimension ++ "Min"
    [.joinAggregate { groupby := none, fields := [dimension], ops := [.min], outputs := [least] },
     .formula ((Expr.datum dimension - .datum least + .nat msPerDay) / .nat msPerDay)
       (ChartCompiler.normalized dimension)]

namespace Transform

def inRange (dimension : String) (range : Option Number × Option Number) : List Transform :=
  let bounds := [
    range.1.map fun least => Expr.gte (.datum dimension) (.number least),
    range.2.map fun most => Expr.lte (.datum dimension) (.number most)]
  ((Expr.all (bounds.filterMap id)).map .filter).toList

def average (m : SeriesMark) : Transform :=
  .joinAggregate {
    groupby := some m.facets.all
    fields := [m.metric]
    ops := [.mean]
    outputs := [Names.trendlineValue] }

/-- The mean of the metric over a row and those before it in its series, `width` rows in all. -/
def movingAverage (m : SeriesMark) (width : PositiveCount) : Transform :=
  .window {
    ops := [.mean]
    groupby := m.facets.all
    fields := [m.metric]
    outputs := [Names.trendlineValue]
    frame := (some (width.val - 1), some 0) }

/-- The fit of each series: points on the curve, or its coefficients. -/
def fit (m : SeriesMark) (method : FitMethod) (params : Bool) : Option Transform :=
  method.regression?.map fun regression =>
    .regression {
      method := regression
      order := method.order?
      groupby := m.facets.all
      x := m.fitDimension
      y := m.metric
      outputs := if params then none else some [m.fitDimension, Names.trendlineValue]
      params }

def statistical (m : SeriesMark) (method : FitMethod) (params : Bool) : List Transform :=
  match method with
  | .average => [average m]
  | .movingAverage width => [movingAverage m width]
  | method => (fit m method params).toList

def lookupParams (trendline : String) (facets : List String) : Transform :=
  .lookup { source := trendline ++ "_params", key := "keys", fields := facets, values := ["coef"] }

def curve (method : FitMethod) (dimension : String) : Option Expr :=
  let coef (i : Nat) : Expr := .index (.datum "coef") (.nat i)
  let x : Expr := .datum dimension
  match method with
  | .exponential => some (coef 0 + .call "exp" [coef 1 * x])
  | .logarithmic => some (coef 0 + coef 1 * .call "log" [x])
  | .power => some (coef 0 * .call "pow" [x, coef 1])
  | method => method.order?.bind fun order =>
    Expr.sum (coef 0 :: (List.range' 1 order).map fun i => coef i * .call "pow" [x, .nat i])

def curveFormula (method : FitMethod) (dimension : String) : Option Transform :=
  (curve method dimension).map fun e => .formula e Names.trendlineValue

end Transform

namespace Trendline

/-- The sources of one trendline. A window is computed before the rows are limited to the range, so
that it sees those just outside. -/
def sources (m : SeriesMark) (t : Trendline) : List Source :=
  let range := Transform.inRange m.dimension t.dimensionRange
  let derive (name : String) (ts : List Transform) := Source.derive name Names.filteredTable ts
  if t.method.isRegression then
    derive t.curveSource (range ++ Transform.statistical m t.method false
      ++ (DerivedField.seriesId m.facets.all).transforms) ::
    if t.isInteractive then
      [derive t.paramsSource (range ++ Transform.statistical m t.method true),
       derive t.rowSource (range ++ [Transform.lookupParams t.name m.facets.all]
         ++ (Transform.curveFormula t.method m.fitDimension).toList)]
    else []
  else if t.method.isWindow then
    [derive t.rowSource (Transform.statistical m t.method false ++ range)]
  else [derive t.rowSource (range ++ Transform.statistical m t.method false)]

def combinedSource (mark : String) : String := mark ++ "_allTrendlineData"

/-- The combined source, and the one with its rows to be highlighted; none without interactive
trendlines. -/
def combinedSources (m : SeriesMark) (ts : List Trendline) : List Source :=
  let interactive := ts.filter isInteractive
  if interactive.isEmpty then []
  else
    let all := combinedSource m.name
    let selectable := ts.any fun t => hasPopover t.children
    [{ name := all, origin := .concatenated (interactive.map rowSource) },
     .derive (sharedName m.name ++ "_highlightedData") all
       [.filter (.highlighted (sharedName m.name) selectable)]]

def allSources (m : SeriesMark) (ts : List Trendline) : List Source :=
  ts.flatMap (sources m) ++ combinedSources m ts

def needsDays (m : SeriesMark) (ts : List Trendline) : Bool :=
  m.onTimeScale && ts.any fun t => t.method.isRegression

def appendSources (m : SeriesMark) (ts : List Trendline) (ss : List Source) : List Source :=
  let ss := ss ++ allSources m ts
  if needsDays m ts then
    Source.editTable (fun fs => addField fs (DerivedField.normalized m.dimension)) ss
  else ss

end Trendline

end ChartCompiler
