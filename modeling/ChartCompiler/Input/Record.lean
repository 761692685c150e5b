import ChartCompiler.Chart.Named
import ChartCompiler.Json.Reader

/-! Reading JSON values into typed ones. A record is an object of named fields or an array of its
fields in order; what is missing has a default, and what is not known is ignored. -/

namespace ChartCompiler.Input

abbrev Reader (α : Type) := Json → Except Refusal α

def text : Reader String
  | .text s => .ok s
  | _ => .error .wrongShape

def flag : Reader Bool
  | .bool b => .ok b
  | _ => .error .wrongShape

/-- A number; integers are welcome. -/
def number : Reader Number
  | .int i => .ok (Number.ofInt i)
  | .float x => .ok x
  | _ => .error .wrongShape

variable {α : Type}

def optional (r : Reader α) : Reader (Option α)
  | .null => .ok none
  | j => (r j).map some

def list (r : Reader α) : Reader (List α)
  | .array js => js.mapM r
  | _ => .error .wrongShape

def pair (r : Reader α) : Reader (α × α)
  | .array [a, b] => do return (← r a, ← r b)
  | _ => .error .wrongShape

/-- What may stand beside the name in the form `{"name": null}` of a named value. -/
inductive Payload
  | null
  | nullOrEmpty
  deriving DecidableEq, Repr

def Payload.admits : Payload → Json → Bool
  | _, .null => true
  | .nullOrEmpty, .object [] => true
  | _, _ => false

/-- A value of a vocabulary: its name, or an object with the name alone. -/
def named [Named α] (payload : Payload) : Reader α
  | .text s => (Named.ofName? s).elim (.error .wrongShape) .ok
  | .object [(s, j)] =>
    if payload.admits j then (Named.ofName? s).elim (.error .wrongShape) .ok
    else .error .wrongShape
  | _ => .error .wrongShape

def either (r s : Reader α) : Reader α := fun j =>
  match r j with
  | .ok a => .ok a
  | .error _ => s j

/-- The fields of a record. A known name that is repeated is refused, and so are more items than
there are fields. -/
def fields (names : List String) : Json → Except Refusal (String → Option Json)
  | .object ms =>
    if names.any fun n => 1 < ms.countP fun m => m.1 == n then .error .wrongShape
    else .ok fun n => ms.lookup n
  | .array js =>
    if names.length < js.length then .error .wrongShape
    else .ok fun n => (names.zip js).lookup n
  | _ => .error .wrongShape

def fieldOr (default : α) (r : Reader α) : Option Json → Except Refusal α
  | some j => r j
  | none => .ok default

inductive TagForm
  | name
  | nameOrPosition
  deriving DecidableEq, Repr

def tag [Named α] (form : TagForm) : Reader α
  | .text s => (Named.ofName? s).elim (.error .wrongShape) .ok
  | .int i =>
    if form = .nameOrPosition ∧ 0 ≤ i then
      (Named.all : List α)[i.toNat]?.elim (.error .wrongShape) .ok
    else .error .wrongShape
  | _ => .error .wrongShape

/-- The kind of a tagged value, and the value without its tag: the member `type` of an object, or
the first item of an array. -/
def tagged [Named α] (form : TagForm) : Json → Except Refusal (α × Json)
  | .object ms =>
    match ms.filter fun m => m.1 == "type" with
    | [(_, j)] => do return (← tag form j, .object (ms.filter fun m => m.1 != "type"))
    | _ => .error .wrongShape
  | .array (j :: js) => do return (← tag form j, .array js)
  | _ => .error .wrongShape

end ChartCompiler.Input
