import ChartCompiler.Input.Chart

/-! Reading a chart description from text. The fields of the chart are read in the order in which
they stand, and each mark is read whole before its fields are looked at; so of several faults the
first in that order decides the refusal. -/

namespace ChartCompiler.Input

open Json

/-- A named value: its name, or an object whose only member has that name and holds null. Any other
kind of value is no text of one, and so is a member whose name is no string. -/
def schemeOfDraft : Draft → Except Refusal ColorScheme
  | .text (some s) => (Named.ofName? s).elim (.error .wrongShape) .ok
  | .text none => .error .notJson
  | .brokenText why _ => .error why
  | .missing => .error .endOfText
  | .object [] .closed => .error .notJson
  | .object [] ending => do
    ending.close
    .error .notJson
  | .object ((n, d) :: more) ending => do
    let name ← n.readName
    let scheme ← (Named.ofName? name).elim (.error .wrongShape) .ok
    match d with
    | .null =>
      match more, ending with
      | [], .closed => .ok scheme
      | [], .cut why => .error why
      | _, _ => .error .notJson
    | d => .error d.mismatch
  | _ => .error .notJson

def sizeOfDraft : Draft → Except Refusal (Option Number)
  | .null => .ok none
  | .number (some (.integer i)) => .ok (some (Number.ofInt i))
  | .number (some (.float x)) => .ok (some x)
  | d => .error d.mismatch

def kindOfDraft : Draft → Except Refusal MarkKind
  | .text (some s) => (Named.ofName? s).elim (.error .wrongShape) .ok
  | d => .error d.mismatch

/-- How many levels are left inside a mark, which stands on the third. -/
def markLevels : Nat := maxDepth - 3

/-- Splits the members of a mark into its kind and the rest. The kind is read where it stands. -/
def splitMark : Option MarkKind → List (Draft × Draft) →
    Except Refusal (Option MarkKind × List (String × Json))
  | kind, [] => .ok (kind, [])
  | kind, (n, d) :: ms => do
    let name ← n.readName
    if name = "type" then
      match kind with
      | some _ => .error .wrongShape
      | none => do splitMark (some (← kindOfDraft d)) ms
    else
      let j ← d.read markLevels
      let (kind, rest) ← splitMark kind ms
      return (kind, (name, j) :: rest)

def markOfDraft : Draft → Except Refusal ChartMark
  | .object members ending => do
    let (kind, ms) ← splitMark none members
    ending.close
    match kind with
    | some kind => markContent kind (.object ms)
    | none => .error .wrongShape
  | .array [] ending => do
    ending.close
    .error .wrongShape
  | .array (d :: ds) ending => do
    let kind ← kindOfDraft d
    let js ← Draft.readItems markLevels ds
    ending.close
    markContent kind (.array js)
  | d => .error d.mismatch

def marksOfDraft : Draft → Except Refusal (List ChartMark)
  | .array items ending => do
    let marks ← items.mapM markOfDraft
    ending.close
    return marks
  | d => .error d.mismatch

structure ChartFields where
  scheme : Option ColorScheme := none
  width : Option (Option Number) := none
  height : Option (Option Number) := none
  marks : Option (List ChartMark) := none

def ChartFields.toChart (c : ChartFields) : Chart where
  scheme := c.scheme.getD .light
  width := c.width.getD none
  height := c.height.getD none
  marks := c.marks.getD []

def once {α : Type} : Option α → Except Refusal Unit
  | some _ => .error .wrongShape
  | none => .ok ()

def chartMembers : ChartFields → List (Draft × Draft) → Except Refusal ChartFields
  | c, [] => .ok c
  | c, (n, d) :: ms => do
    let name ← n.readName
    if name = "colorScheme" then
      once c.scheme
      chartMembers { c with scheme := some (← schemeOfDraft d) } ms
    else if name = "width" then
      once c.width
      chartMembers { c with width := some (← sizeOfDraft d) } ms
    else if name = "height" then
      once c.height
      chartMembers { c with height := some (← sizeOfDraft d) } ms
    else if name = "marks" then
      once c.marks
      chartMembers { c with marks := some (← marksOfDraft d) } ms
    else
      d.skip
      chartMembers c ms

def nextItem {α : Type} (r : Draft → Except Refusal α) (ending : Ending) :
    List Draft → Except Refusal (Option α × List Draft)
  | d :: ds => do return (some (← r d), ds)
  | [] => do
    ending.close
    return (none, [])

def chartItems (items : List Draft) (ending : Ending) : Except Refusal ChartFields := do
  let (scheme, items) ← nextItem schemeOfDraft ending items
  let (width, items) ← nextItem sizeOfDraft ending items
  let (height, items) ← nextItem sizeOfDraft ending items
  let (marks, items) ← nextItem marksOfDraft ending items
  match items, ending with
  | [], .closed => return { scheme, width, height, marks }
  | [], .cut why => .error why
  | _, _ => .error .notJson

def chartOfDraft : Draft → Except Refusal Chart
  | .object members ending => do
    let c ← chartMembers {} members
    ending.close
    return c.toChart
  | .array items ending => do return (← chartItems items ending).toChart
  | d => .error d.mismatch

def chartOfText (text : String) : Except Refusal Chart := do
  let (draft, rest) := Draft.scan text
  let c ← chartOfDraft draft
  endsHere rest
  return c

end ChartCompiler.Input
