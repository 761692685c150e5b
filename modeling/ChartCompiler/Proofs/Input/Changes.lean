import ChartCompiler.Input.Chart

/-! Changes to a description that say nothing new: members in another order, members that nobody
knows, and known members that only say what holds without them. What may be added to an object
depends on what the object is read as, so each place in a description has its part, and the parts of
a mark and of a child depend on the kind that its tag writes. -/

namespace ChartCompiler.Input

/-! ### What is known -/

class Kind (κ : Type) extends Named κ where
  form : TagForm
  fields : κ → List String
  /-- Fields with a value that says what holds without them. -/
  defaults : κ → List (String × Json)

def fixedValue (j : Json) : Json := .object [("value", j)]

instance : Kind MarkKind where
  form := .name
  fields
    | .line => ["name", "dimension", "metric", "color", "lineType", "lineWidth", "opacity",
        "scaleType", "staticPoint", "children"]
    | .bar => ["name", "dimension", "metric", "color", "lineType", "children"]
  defaults
    | .line => [("name", .text "line0"), ("dimension", .text "datetime"), ("metric", .text "value"),
        ("color", .text "series"), ("lineType", fixedValue (.text "solid")),
        ("lineWidth", fixedValue (.text "M")), ("opacity", fixedValue (.int 1)),
        ("opacity", fixedValue (.float 1)), ("scaleType", .text "time"), ("staticPoint", .null),
        ("children", .array [])]
    | .bar => [("name", .text "bar0"), ("dimension", .text "category"), ("metric", .text "value"),
        ("color", .text "series"), ("lineType", fixedValue (.text "solid")),
        ("children", .array [])]

instance : Kind ChildKind where
  form := .nameOrPosition
  fields
    | .tooltip => ["excludeDataKeys"]
    | .popover => ["width", "height"]
    | .metricRange => ["metricStart", "metricEnd", "displayOnHover"]
    | .trendline => trendlineFields
  defaults
    | .tooltip => [("excludeDataKeys", .array [])]
    | .popover => [("width", .null), ("height", .null)]
    | .metricRange => [("metricStart", .null), ("metricEnd", .null),
        ("displayOnHover", .bool false)]
    | .trendline => [("method", .text "linear"), ("dimensionRange", .array [.null, .null]),
        ("displayOnHover", .bool false), ("highlightRawPoint", .bool false),
        ("lineType", .text "dashed"), ("lineWidth", .text "M"), ("opacity", .int 1),
        ("opacity", .float 1), ("color", .null), ("children", .array [])]

def chartFields : List String := ["colorScheme", "width", "height", "marks"]

def chartDefaults : List (String × Json) :=
  [("colorScheme", .text "light"), ("width", .null), ("height", .null), ("marks", .array [])]

section Tagged

variable (κ : Type) [Kind κ]

/-- The kind of a value that can be told, none if its tag is missing or writes no kind. -/
def kind? (j : Json) : Option κ := (tagged (α := κ) (Kind.form κ) j).toOption.map Prod.fst

def taggedFields (j : Json) : List String := "type" :: (kind? κ j).elim [] Kind.fields

def taggedDefaults (j : Json) : List (String × Json) := (kind? κ j).elim [] Kind.defaults

end Tagged

/-! ### Parts -/

/-- What a value in a description is read as. -/
inductive Part
  | chart
  | marks
  | mark
  /-- How a mark is encoded by one of its channels. -/
  | facet
  | children
  | child
  /-- A value that is read as a whole, such as a name or a list of numbers. -/
  | plain
  deriving DecidableEq, Repr

namespace Part

/-- The fields that are known in a part, in the order in which an array lists them. -/
def fields : Part → Json → List String
  | .chart, _ => chartFields
  | .mark, j => taggedFields MarkKind j
  | .child, j => taggedFields ChildKind j
  | .facet, _ => ["value"]
  | _, _ => []

def defaults : Part → Json → List (String × Json)
  | .chart, _ => chartDefaults
  | .mark, j => taggedDefaults MarkKind j
  | .child, j => taggedDefaults ChildKind j
  | _, _ => []

def field : Part → String → Part
  | .chart, n => if n = "marks" then .marks else .plain
  | .mark, n =>
    if n = "children" then .children
    else if n ∈ ["color", "lineType", "lineWidth", "opacity"] then .facet
    else .plain
  | .child, n => if n = "children" then .children else .plain
  | _, _ => .plain

def item : Part → Json → Nat → Part
  | .marks, _, _ => .mark
  | .children, _, _ => .child
  | p, j, i => ((p.fields j)[i]?).elim .plain p.field

/-- Whether an object read as this part may have members that are not known. -/
def isOpen : Part → Bool
  | .chart | .mark | .facet | .child => true
  | _ => false

end Part

/-- One change, to a value read as a part. Any object may be reordered. An object that has fields
may get a member of an unknown name and any value, in front of the others, and a field it lacks with
its default. A value inside may change likewise. -/
inductive Change : Part → Json → Json → Prop
  | reorder {p : Part} {ms ms' : List (String × Json)} (h : ms.Perm ms') :
    Change p (.object ms) (.object ms')
  | unknown {p : Part} {ms : List (String × Json)} {name : String} {j : Json}
    (hopen : p.isOpen) (h : name ∉ p.fields (.object ms)) :
    Change p (.object ms) (.object ((name, j) :: ms))
  | default {p : Part} {ms : List (String × Json)} {name : String} {j : Json}
    (hmissing : ∀ m ∈ ms, m.1 ≠ name) (h : (name, j) ∈ p.defaults (.object ms)) :
    Change p (.object ms) (.object ((name, j) :: ms))
  | member {p : Part} {before after : List (String × Json)} {name : String} {j j' : Json}
    (h : Change (p.field name) j j') :
    Change p (.object (before ++ (name, j) :: after)) (.object (before ++ (name, j') :: after))
  | item {p : Part} {before after : List Json} {j j' : Json}
    (h : Change (p.item (.array (before ++ j :: after)) before.length) j j') :
    Change p (.array (before ++ j :: after)) (.array (before ++ j' :: after))

end ChartCompiler.Input
