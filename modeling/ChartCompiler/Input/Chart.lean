import ChartCompiler.Chart.Mark
import ChartCompiler.Input.Record

/-! Reading chart descriptions and their parts from JSON values. -/

namespace ChartCompiler.Input

/-- A field, a pair of fields, or an object with the fixed value. -/
def encoding {α : Type} (r : Reader α) : Reader (Encoding α)
  | .text f => .ok (.field f)
  | .array [.text f, .text g] => .ok (.dual f g)
  | .object ms =>
    match ms.filter fun m => m.1 == "value" with
    | [(_, j)] => (r j).map .fixed
    | _ => .error .wrongShape
  | _ => .error .wrongShape

def lineType : Reader LineType :=
  either (fun j => (named .null j).map .named) (fun j => (list number j).map .custom)

def lineWidth : Reader LineWidth :=
  either (fun j => (named .null j).map .named) (fun j => (number j).map .pixels)

def scheme : Reader ColorScheme := named .null

inductive ChildKind
  | tooltip
  | popover
  | metricRange
  | trendline
  deriving DecidableEq, Repr

instance : Named ChildKind where
  all := [.tooltip, .popover, .metricRange, .trendline]
  name
    | .tooltip => "ChartTooltip"
    | .popover => "ChartPopover"
    | .metricRange => "MetricRange"
    | .trendline => "Trendline"

inductive MarkKind
  | line
  | bar
  deriving DecidableEq, Repr

instance : Named MarkKind where
  all := [.line, .bar]
  name
    | .line => "Line"
    | .bar => "Bar"

def tooltip : Reader Child := fun j => do
  let get ← fields ["excludeDataKeys"] j
  return .tooltip (← fieldOr [] (list text) (get "excludeDataKeys"))

def popover : Reader Child := fun j => do
  let get ← fields ["width", "height"] j
  let width ← fieldOr none (optional number) (get "width")
  let height ← fieldOr none (optional number) (get "height")
  return .popover width height

def metricRange : Reader Child := fun j => do
  let get ← fields ["metricStart", "metricEnd", "displayOnHover"] j
  let start ← fieldOr none (optional text) (get "metricStart")
  let stop ← fieldOr none (optional text) (get "metricEnd")
  let displayOnHover ← fieldOr false flag (get "displayOnHover")
  return .metricRange start stop displayOnHover

def trendlineFields : List String :=
  ["children", "color", "dimensionRange", "displayOnHover", "highlightRawPoint", "lineType",
    "lineWidth", "method", "opacity"]

def trendlineOptions : Reader TrendlineOptions := fun j => do
  let get ← fields trendlineFields j
  let color ← fieldOr none (optional text) (get "color")
  let dimensionRange ← fieldOr none (optional (pair (optional number))) (get "dimensionRange")
  let displayOnHover ← fieldOr none (optional flag) (get "displayOnHover")
  let highlightRawPoint ← fieldOr none (optional flag) (get "highlightRawPoint")
  let lineType ← fieldOr none (optional lineType) (get "lineType")
  let lineWidth ← fieldOr none (optional lineWidth) (get "lineWidth")
  let method ← fieldOr none (optional text) (get "method")
  let opacity ← fieldOr none (optional number) (get "opacity")
  return {
    color, dimensionRange, displayOnHover, highlightRawPoint, lineType, lineWidth, method, opacity }

def leafChild : ChildKind → Reader (Option Child)
  | .tooltip, j => (tooltip j).map some
  | .popover, j => (popover j).map some
  | .metricRange, j => (metricRange j).map some
  | .trendline, _ => .ok none

mutual

/-- A child with its tag. Below it a tag may also be the position of the kind. -/
def child (form : TagForm) : Reader Child
  | .object ms => do
    let (kind, content) ← tagged form (.object ms)
    match ← leafChild kind content with
    | some c => return c
    | none => do
      let options ← trendlineOptions content
      return .trendline (← childrenMember ms) options
  | .array (t :: js) => do
    let kind ← tag form t
    match ← leafChild kind (.array js) with
    | some c => return c
    | none => do
      let options ← trendlineOptions (.array js)
      return .trendline (← firstChildren js) options
  | _ => .error .wrongShape

def childrenMember : List (String × Json) → Except Refusal (List Child)
  | [] => .ok []
  | (n, j) :: ms => if n = "children" then children .nameOrPosition j else childrenMember ms

/-- The children of a trendline written as an array: its first field. -/
def firstChildren : List Json → Except Refusal (List Child)
  | [] => .ok []
  | j :: _ => children .nameOrPosition j

def children (form : TagForm) : Reader (List Child)
  | .array js => childItems form js
  | _ => .error .wrongShape

def childItems (form : TagForm) : List Json → Except Refusal (List Child)
  | [] => .ok []
  | j :: js => do
    let c ← child form j
    let cs ← childItems form js
    return c :: cs

end

def trendline : Reader (List Child × TrendlineOptions) := fun j => do
  let get ← fields trendlineFields j
  let options ← trendlineOptions j
  let cs ← fieldOr [] (children .name) (get "children")
  return (cs, options)

def line : Reader SeriesMark := fun j => do
  let get ← fields ["name", "dimension", "metric", "color", "lineType", "lineWidth", "opacity",
    "scaleType", "staticPoint", "children"] j
  let base : SeriesMark := {}
  let name ← fieldOr base.name text (get "name")
  let dimension ← fieldOr base.dimension text (get "dimension")
  let metric ← fieldOr base.metric text (get "metric")
  let color ← fieldOr base.color (encoding text) (get "color")
  let lineType ← fieldOr base.lineType (encoding lineType) (get "lineType")
  let lineWidth ← fieldOr base.lineWidth (encoding lineWidth) (get "lineWidth")
  let opacity ← fieldOr base.opacity (encoding number) (get "opacity")
  let scaleType ← fieldOr base.scaleType (named .nullOrEmpty) (get "scaleType")
  let staticPoint ← fieldOr none (optional text) (get "staticPoint")
  let children ← fieldOr [] (children .nameOrPosition) (get "children")
  return {
    name, dimension, metric, color, lineType, lineWidth, opacity, scaleType, staticPoint, children }

def bar : Reader Bar := fun j => do
  let get ← fields ["name", "dimension", "metric", "color", "lineType", "children"] j
  let base : Bar := {}
  let name ← fieldOr base.name text (get "name")
  let dimension ← fieldOr base.dimension text (get "dimension")
  let metric ← fieldOr base.metric text (get "metric")
  let color ← fieldOr base.color (encoding text) (get "color")
  let lineType ← fieldOr base.lineType (encoding lineType) (get "lineType")
  let children ← fieldOr [] (children .nameOrPosition) (get "children")
  return { name, dimension, metric, color, lineType, children }

def markContent : MarkKind → Reader ChartMark
  | .line, j => (line j).map .line
  | .bar, j => (bar j).map .bar

def mark : Reader ChartMark := fun j => do
  let (kind, content) ← tagged .name j
  markContent kind content

def chart : Reader Chart := fun j => do
  let get ← fields ["colorScheme", "width", "height", "marks"] j
  let scheme ← fieldOr .light scheme (get "colorScheme")
  let width ← fieldOr none (optional number) (get "width")
  let height ← fieldOr none (optional number) (get "height")
  let marks ← fieldOr [] (list mark) (get "marks")
  return { scheme, width, height, marks }

end ChartCompiler.Input
