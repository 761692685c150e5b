import ChartCompiler.Expr.Text
import ChartCompiler.Json.Basic

/-! Signals, the named values that events change. -/

namespace ChartCompiler

structure SignalUpdate where
  events : String
  value : Expr
  deriving Repr

structure Signal where
  name : String
  initial : Json
  updates : List SignalUpdate := []
  deriving Repr

namespace Signal

def updateJson (u : SignalUpdate) : Json :=
  .object [("events", .text u.events), ("update", .text u.value.render)]

def toJson (s : Signal) : Json :=
  .ofMembers [
    some ("name", .text s.name),
    some ("value", s.initial),
    Json.items? "on" (s.updates.map updateJson)]

end Signal

end ChartCompiler
