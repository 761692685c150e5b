import ChartCompiler.Number.Literal

/-! JSON values. Integers and floats stay apart, since a document shows which one a number was, and
the members of an object keep their order. -/

namespace ChartCompiler

inductive Json
  | null
  | bool (value : Bool)
  | int (value : Int)
  | float (value : Number)
  | text (value : String)
  | array (items : List Json)
  | object (members : List (String × Json))
  deriving Repr, Inhabited

namespace Json

def ofNumeral : Numeral → Json
  | .integer i => .int i
  | .float x => .float x

def number? : Json → Option Number
  | .int i => some (Number.ofInt i)
  | .float x => some x
  | _ => none

def get? (j : Json) (name : String) : Option Json :=
  match j with
  | .object ms => ms.lookup name
  | _ => none

def texts (ss : List String) : Json := .array (ss.map .text)

def ofMembers (ms : List (Option (String × Json))) : Json := .object (ms.filterMap id)

/-- A member that is left out when there is no value. -/
def member? (name : String) (value : Option Json) : Option (String × Json) :=
  value.map (name, ·)

/-- A member that is left out when the list is empty. -/
def items? (name : String) (items : List Json) : Option (String × Json) :=
  if items.isEmpty then none else some (name, .array items)

/-- Puts a member at its place in a list sorted by name, over one of the same name. -/
def place (name : String) (value : Json) : List (String × Json) → List (String × Json)
  | [] => [(name, value)]
  | (n, v) :: ms =>
    if name < n then (name, value) :: (n, v) :: ms
    else if name = n then (name, value) :: ms
    else (n, v) :: place name value ms

mutual

/-- The value with the members of each object sorted by name, the last of one name kept. -/
def sorted : Json → Json
  | .array xs => .array (sortedItems xs)
  | .object ms => .object (sortedMembers ms [])
  | j => j

def sortedItems : List Json → List Json
  | [] => []
  | j :: js => sorted j :: sortedItems js

def sortedMembers : List (String × Json) → List (String × Json) → List (String × Json)
  | [], done => done
  | (n, v) :: ms, done => sortedMembers ms (place n (sorted v) done)

end

end Json

end ChartCompiler
