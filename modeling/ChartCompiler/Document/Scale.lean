import ChartCompiler.Chart.Named
import ChartCompiler.Json.Basic

/-! Scales, which lay out the values of fields. -/

namespace ChartCompiler

inductive ScaleKind
  | band
  | linear
  | ordinal
  | point
  | time
  deriving DecidableEq, Repr

instance : Named ScaleKind where
  all := [.band, .linear, .ordinal, .point, .time]
  name
    | .band => "band"
    | .linear => "linear"
    | .ordinal => "ordinal"
    | .point => "point"
    | .time => "time"

/-- What a scale maps to: a named range such as `width`, or a list of values. -/
inductive Scale.Range
  | named (name : String)
  | values (values : List Json)
  deriving Repr

structure Scale.Domain where
  source : String
  fields : List String
  deriving Repr

structure Scale where
  name : String
  kind : ScaleKind
  range : Option Scale.Range := none
  domain : Option Scale.Domain := none
  padding : Option Number := none
  zero : Option Bool := none
  nice : Option Bool := none
  deriving Repr

namespace Scale

def rangeJson : Scale.Range → Json
  | .named n => .text n
  | .values vs => .array vs

def domainJson (d : Scale.Domain) : Json :=
  .object [("data", .text d.source), ("fields", .texts d.fields)]

def toJson (s : Scale) : Json :=
  .ofMembers [
    some ("name", .text s.name),
    some ("type", .text (Named.name s.kind)),
    Json.member? "range" (s.range.map rangeJson),
    Json.member? "domain" (s.domain.map domainJson),
    Json.member? "padding" (s.padding.map .float),
    Json.member? "zero" (s.zero.map .bool),
    Json.member? "nice" (s.nice.map .bool)]

end Scale

end ChartCompiler
