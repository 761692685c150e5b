import ChartCompiler.Axis.Basic
import ChartCompiler.Input.Record

/-! Reading axis labels. -/

namespace ChartCompiler.Input

open Axis

def labelValue : Reader LabelValue :=
  either (fun j => (number j).map .number) (fun j => (text j).map .text)

def labelFields : List String := ["value", "label", "subLabel", "align", "fontWeight"]

/-- Asks that a record written as an array has all its fields. -/
def complete (names : List String) : Json → Except Refusal Unit
  | .array js => if js.length = names.length then .ok () else .error .wrongShape
  | _ => .ok ()

def labelDetail : Reader LabelDetail := fun j => do
  let get ← fields labelFields j
  complete labelFields j
  let value ← (get "value").elim (.error .wrongShape) labelValue
  let label ← fieldOr none (optional text) (get "label")
  let subLabel ← fieldOr none (optional text) (get "subLabel")
  let align ← fieldOr none (optional (named .null)) (get "align")
  let fontWeight ← fieldOr none (optional (named .null)) (get "fontWeight")
  return { value, label, subLabel, align, fontWeight }

/-- A custom label, or a value alone. -/
def label : Reader Label :=
  either (fun j => (labelDetail j).map .detailed) (fun j => (labelValue j).map .plain)

end ChartCompiler.Input
