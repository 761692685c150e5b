import ChartCompiler.Document.Transform

/-! Marks of the document, which may hold marks of their own. -/

namespace ChartCompiler

inductive MarkShape
  | area
  | group
  | line
  | path
  | rect
  | rule
  | symbol
  | text
  deriving DecidableEq, Repr

instance : Named MarkShape where
  all := [.area, .group, .line, .path, .rect, .rule, .symbol, .text]
  name
    | .area => "area"
    | .group => "group"
    | .line => "line"
    | .path => "path"
    | .rect => "rect"
    | .rule => "rule"
    | .symbol => "symbol"
    | .text => "text"

/-- One group item per combination of the fields' values, its rows under a name of their own. -/
structure Partition where
  name : String
  source : String
  groupby : List String
  deriving DecidableEq, Repr

structure MarkInput where
  source : Option String := none
  partition : Option Partition := none
  deriving DecidableEq, Repr

structure Mark where
  name : String
  shape : MarkShape
  input : Option MarkInput := none
  clip : Option Bool := none
  interactive : Option Bool := none
  encode : Option Encode := none
  marks : List Mark := []
  transforms : List Transform := []
  deriving Repr

namespace Mark

def drawn (shape : MarkShape) (name source : String) (encode : Encode) : Mark :=
  { name, shape, input := some { source := some source }, encode := some encode }

/-- A mark drawn from a source, which takes no part in events. -/
def still (shape : MarkShape) (name source : String) (encode : Encode) : Mark :=
  { drawn shape name source encode with interactive := some false }

def parted (name : String) (partition : Partition) (marks : List Mark) : Mark :=
  { name, shape := .group, input := some { partition := some partition }, marks }

def clipped (m : Mark) : Mark := { m with clip := some true }

/-- The source that a mark draws from, or whose parts it draws. -/
def source? (m : Mark) : Option String :=
  m.input.bind fun i => i.source <|> i.partition.map Partition.source

mutual

/-- The first mark of that name, from the outside in and from the first sibling to the last. -/
def find? (name : String) : Mark → Option Mark
  | ⟨n, shape, input, clip, interactive, encode, marks, transforms⟩ =>
    if n = name then some ⟨n, shape, input, clip, interactive, encode, marks, transforms⟩
    else findIn? name marks

def findIn? (name : String) : List Mark → Option Mark
  | [] => none
  | m :: ms =>
    match find? name m with
    | some found => some found
    | none => findIn? name ms

end

def partitionJson (p : Partition) : Json :=
  .object [("name", .text p.name), ("data", .text p.source), ("groupby", .texts p.groupby)]

def inputJson (i : MarkInput) : Json :=
  .ofMembers [
    Json.member? "data" (i.source.map .text),
    Json.member? "facet" (i.partition.map partitionJson)]

mutual

def toJson : Mark → Json
  | ⟨name, shape, input, clip, interactive, encode, marks, transforms⟩ =>
    .ofMembers [
      some ("name", .text name),
      some ("type", .text (Named.name shape)),
      Json.member? "from" (input.map inputJson),
      Json.member? "clip" (clip.map .bool),
      Json.member? "interactive" (interactive.map .bool),
      Json.member? "encode" (encode.map Encode.toJson),
      Json.items? "marks" (listJson marks),
      Json.items? "transform" (transforms.map Transform.toJson)]

def listJson : List Mark → List Json
  | [] => []
  | m :: ms => toJson m :: listJson ms

end

end Mark

end ChartCompiler
