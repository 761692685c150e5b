import ChartCompiler.Document.Transform

/-! Data sources. -/

namespace ChartCompiler

/-- Where the rows of a source come from: its own values, another source, or several of them one
after the other. -/
inductive Origin
  | inline (values : List Json)
  | derived (source : String)
  | concatenated (sources : List String)
  deriving Repr

structure Source where
  name : String
  origin : Origin
  transforms : List Transform := []
  deriving Repr

namespace Source

def derive (name source : String) (transforms : List Transform) : Source :=
  { name, origin := .derived source, transforms }

def originMember : Origin → String × Json
  | .inline vs => ("values", .array vs)
  | .derived s => ("source", .text s)
  | .concatenated ss => ("source", .texts ss)

def toJson (s : Source) : Json :=
  .ofMembers [
    some ("name", .text s.name),
    some (originMember s.origin),
    Json.items? "transform" (s.transforms.map Transform.toJson)]

end Source

end ChartCompiler
