import ChartCompiler.Chart.Named
import ChartCompiler.Document.Rule

/-! The steps that a data source computes its rows by. -/

namespace ChartCompiler

inductive Aggregate
  | count
  | max
  | mean
  | median
  | min
  | sum
  deriving DecidableEq, Repr

instance : Named Aggregate where
  all := [.count, .max, .mean, .median, .min, .sum]
  name
    | .count => "count"
    | .max => "max"
    | .mean => "mean"
    | .median => "median"
    | .min => "min"
    | .sum => "sum"

inductive RegressionKind
  | linear
  | log
  | exp
  | pow
  | quad
  | poly
  deriving DecidableEq, Repr

instance : Named RegressionKind where
  all := [.linear, .log, .exp, .pow, .quad, .poly]
  name
    | .linear => "linear"
    | .log => "log"
    | .exp => "exp"
    | .pow => "pow"
    | .quad => "quad"
    | .poly => "poly"

structure JoinAggregate where
  groupby : Option (List String)
  fields : List String
  ops : List Aggregate
  outputs : List String
  deriving Repr

structure Lookup where
  source : String
  key : String
  fields : List String
  values : List String
  deriving Repr

structure Regression where
  method : RegressionKind
  order : Option Nat
  groupby : List String
  x : String
  y : String
  outputs : Option (List String)
  /-- Whether the rows are the coefficients of the fit instead of points on it. -/
  params : Bool
  deriving Repr

structure Window where
  ops : List Aggregate
  groupby : List String
  fields : List String
  outputs : List String
  /-- How many rows before and after the current one are seen, all of them where there is no number.
  -/
  frame : Option Nat × Option Nat
  deriving Repr

inductive Transform
  | filter (test : Expr)
  | formula (value : Expr) (output : String)
  | identifier (output : String)
  | joinAggregate (spec : JoinAggregate)
  | lookup (spec : Lookup)
  | regression (spec : Regression)
  | voronoi (x y : Expr) (size : List ChannelValue)
  | window (spec : Window)
  deriving Repr

namespace Transform

/-- The field that a formula or an identifier writes. -/
def output? : Transform → Option String
  | .formula _ o => some o
  | .identifier o => some o
  | _ => none

def kind : Transform → String
  | .filter _ => "filter"
  | .formula _ _ => "formula"
  | .identifier _ => "identifier"
  | .joinAggregate _ => "joinaggregate"
  | .lookup _ => "lookup"
  | .regression _ => "regression"
  | .voronoi _ _ _ => "voronoi"
  | .window _ => "window"

def opsJson (ops : List Aggregate) : Json := .texts (ops.map Named.name)

def boundJson : Option Nat → Json
  | some n => .int n
  | none => .null

def members : Transform → List (Option (String × Json))
  | .filter e => [some ("expr", .text e.render)]
  | .formula e o => [some ("expr", .text e.render), some ("as", .text o)]
  | .identifier o => [some ("as", .text o)]
  | .joinAggregate t => [
    Json.member? "groupby" (t.groupby.map .texts),
    some ("fields", .texts t.fields),
    some ("ops", opsJson t.ops),
    some ("as", .texts t.outputs)]
  | .lookup t => [
    some ("from", .text t.source),
    some ("key", .text t.key),
    some ("fields", .texts t.fields),
    some ("values", .texts t.values)]
  | .regression t => [
    some ("method", .text (Named.name t.method)),
    Json.member? "order" (t.order.map fun n => .int n),
    some ("groupby", .texts t.groupby),
    some ("x", .text t.x),
    some ("y", .text t.y),
    Json.member? "as" (t.outputs.map .texts),
    some ("params", .bool t.params)]
  | .voronoi x y size => [
    some ("x", .text x.render),
    some ("y", .text y.render),
    some ("size", .array (size.map ChannelValue.toJson))]
  | .window t => [
    some ("ops", opsJson t.ops),
    some ("groupby", .texts t.groupby),
    some ("fields", .texts t.fields),
    some ("as", .texts t.outputs),
    some ("frame", .array [boundJson t.frame.1, boundJson t.frame.2])]

def toJson (t : Transform) : Json := .ofMembers (some ("type", .text t.kind) :: t.members)

end Transform

end ChartCompiler
