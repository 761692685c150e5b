import ChartCompiler.Json.Draft

/-! Reading and skipping drafts. To read is to ask for every value, up to a depth of 127 nested
arrays and objects; to skip is to ask only that the text is JSON. -/

namespace ChartCompiler.Json

/-- How deep arrays and objects may be nested in what is read. -/
def maxDepth : Nat := 127

namespace Draft

/-- The refusal of a draft where another kind of value is wanted. A scalar is read before it is
refused, an array or object is refused at its first character. -/
def mismatch : Draft → Refusal
  | .number none | .text none => .notJson
  | .missing => .endOfText
  | .brokenText why _ | .brokenToken why _ => why
  | _ => .wrongShape

def readName : Draft → Except Refusal String
  | .text (some s) => .ok s
  | .brokenText why _ => .error why
  | _ => .error .notJson

def skipName : Draft → Except Refusal Unit
  | .text _ => .ok ()
  | .brokenText _ why => .error why
  | _ => .error .notJson

end Draft

namespace Ending

def close : Ending → Except Refusal Unit
  | .closed => .ok ()
  | .cut why | .cutAfterComma why => .error why

end Ending

namespace Draft

mutual

/-- The value, where `levels` more arrays and objects may be nested. -/
def read (levels : Nat) : Draft → Except Refusal Json
  | .null => .ok .null
  | .bool b => .ok (.bool b)
  | .number (some n) => .ok (.ofNumeral n)
  | .text (some s) => .ok (.text s)
  | .number none | .text none => .error .notJson
  | .array items ending =>
    if levels = 0 then .error .notJson
    else do
      let js ← readItems (levels - 1) items
      ending.close
      return .array js
  | .object members ending =>
    if levels = 0 then .error .notJson
    else do
      let ms ← readMembers (levels - 1) members
      ending.close
      return .object ms
  | .missing => .error .endOfText
  | .brokenText why _ => .error why
  | .brokenToken why _ => .error why

def readItems (levels : Nat) : List Draft → Except Refusal (List Json)
  | [] => .ok []
  | d :: ds => do
    let j ← read levels d
    let js ← readItems levels ds
    return j :: js

def readMembers (levels : Nat) : List (Draft × Draft) → Except Refusal (List (String × Json))
  | [] => .ok []
  | (n, d) :: ms => do
    let name ← n.readName
    let j ← read levels d
    let js ← readMembers levels ms
    return (name, j) :: js

end

mutual

def skip : Draft → Except Refusal Unit
  | .array items ending => do skipItems items; ending.close
  | .object members ending => do skipMembers members; ending.close
  | .missing => .error .endOfText
  | .brokenText _ why => .error why
  | .brokenToken _ why => .error why
  | _ => .ok ()

def skipItems : List Draft → Except Refusal Unit
  | [] => .ok ()
  | d :: ds => do skip d; skipItems ds

def skipMembers : List (Draft × Draft) → Except Refusal Unit
  | [] => .ok ()
  | (n, d) :: ms => do n.skipName; skip d; skipMembers ms

end

end Draft

/-- Asks that nothing but blanks follows a value. A value that breaks off has told so already. -/
def endsHere : Option (List Char) → Except Refusal Unit
  | some rest => if (skipBlanks rest).isEmpty then .ok () else .error .notJson
  | none => .ok ()

def parse (text : String) : Except Refusal Json := do
  let (draft, rest) := Draft.scan text
  let j ← draft.read maxDepth
  endsHere rest
  return j

end ChartCompiler.Json
