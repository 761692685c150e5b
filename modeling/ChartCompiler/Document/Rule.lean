import ChartCompiler.Expr.Text
import ChartCompiler.Json.Basic

/-! Values of channels. A channel has one value, or a list of values of which the first with a true
test holds. -/

namespace ChartCompiler

/-- A value of a channel: a literal, an expression or a scaled field, which holds if its test does.
-/
structure ChannelValue where
  test : Option Expr := none
  value : Option Json := none
  signal : Option Expr := none
  scale : Option String := none
  field : Option String := none
  band : Option Number := none
  deriving Repr

namespace ChannelValue

def literal (j : Json) : ChannelValue := { value := some j }

def float (x : Number) : ChannelValue := literal (.float x)

def ofText (s : String) : ChannelValue := literal (.text s)

def ofSignal (e : Expr) : ChannelValue := { signal := some e }

def scaled (scale field : String) : ChannelValue := { scale := some scale, field := some field }

def guarded (v : ChannelValue) (test : Expr) : ChannelValue := { v with test := some test }

def number? (v : ChannelValue) : Option Number := v.value.bind Json.number?

def toJson (v : ChannelValue) : Json :=
  .ofMembers [
    Json.member? "test" (v.test.map fun e => .text e.render),
    Json.member? "value" v.value,
    Json.member? "signal" (v.signal.map fun e => .text e.render),
    Json.member? "scale" (v.scale.map .text),
    Json.member? "field" (v.field.map .text),
    Json.member? "band" (v.band.map .float)]

end ChannelValue

inductive Rule
  | single (value : ChannelValue)
  | firstOf (values : List ChannelValue)
  deriving Repr

namespace Rule

def values : Rule → List ChannelValue
  | .single v => [v]
  | .firstOf vs => vs

def toJson : Rule → Json
  | .single v => v.toJson
  | .firstOf vs => .array (vs.map ChannelValue.toJson)

end Rule

instance : Coe ChannelValue Rule := ⟨.single⟩
instance : Coe (List ChannelValue) Rule := ⟨.firstOf⟩

/-- Channels with their rules, in the order of their first mention. -/
abbrev Channels := List (String × Rule)

namespace Channels

/-- Sets a channel. One that is there already keeps its place. -/
def set (cs : Channels) (name : String) (rule : Rule) : Channels :=
  match cs with
  | [] => [(name, rule)]
  | (n, r) :: cs => if n = name then (n, rule) :: cs else (n, r) :: set cs name rule

def ofList (cs : List (String × Rule)) : Channels := cs.foldl (fun cs c => set cs c.1 c.2) []

def toJson (cs : Channels) : Json := .object (cs.map fun c => (c.1, c.2.toJson))

end Channels

/-- The channels that a mark sets when an item enters, and those that it keeps up to date. -/
structure Encode where
  enter : Channels := []
  update : Channels := []
  deriving Repr

def Channels.member? (name : String) (cs : Channels) : Option (String × Json) :=
  if cs.isEmpty then none else some (name, cs.toJson)

def Encode.toJson (e : Encode) : Json :=
  .ofMembers [Channels.member? "enter" e.enter, Channels.member? "update" e.update]

end ChartCompiler
