import ChartCompiler.Json.Basic
import ChartCompiler.Number.Text

/-! The two texts of a JSON value: compact, and indented by two spaces. -/

namespace ChartCompiler.Json

def hexDigit (n : Nat) : Char := Char.ofNat (if n < 10 then 48 + n else 87 + n)

def escaped (c : Char) : List Char :=
  if c = '"' then ['\\', '"']
  else if c = '\\' then ['\\', '\\']
  else if c = '\n' then ['\\', 'n']
  else if c = '\r' then ['\\', 'r']
  else if c = '\t' then ['\\', 't']
  else if c = '\x08' then ['\\', 'b']
  else if c = '\x0c' then ['\\', 'f']
  else if c.toNat < 32 then ['\\', 'u', '0', '0', hexDigit (c.toNat / 16), hexDigit (c.toNat % 16)]
  else [c]

def quoted (s : String) : List Char := '"' :: (s.toList.flatMap escaped ++ ['"'])

def boolText (b : Bool) : List Char := if b then "true".toList else "false".toList

def lineBreak (depth : Nat) : List Char := '\n' :: List.replicate (2 * depth) ' '

mutual

def compactChars : Json → List Char
  | .null => "null".toList
  | .bool b => boolText b
  | .int i => (toString i).toList
  | .float x => x.literal.toList
  | .text s => quoted s
  | .array [] => "[]".toList
  | .array (j :: js) => '[' :: (compactChars j ++ (compactItems js ++ [']']))
  | .object [] => "\x7b\x7d".toList
  | .object ((n, v) :: ms) =>
    '{' :: (quoted n ++ ':' :: (compactChars v ++ (compactMembers ms ++ ['}'])))

def compactItems : List Json → List Char
  | [] => []
  | j :: js => ',' :: (compactChars j ++ compactItems js)

def compactMembers : List (String × Json) → List Char
  | [] => []
  | (n, v) :: ms => ',' :: (quoted n ++ ':' :: (compactChars v ++ compactMembers ms))

end

mutual

def indentedChars (depth : Nat) : Json → List Char
  | .null => "null".toList
  | .bool b => boolText b
  | .int i => (toString i).toList
  | .float x => x.literal.toList
  | .text s => quoted s
  | .array [] => "[]".toList
  | .array (j :: js) =>
    '[' :: (lineBreak (depth + 1) ++ (indentedChars (depth + 1) j
      ++ (indentedItems (depth + 1) js ++ (lineBreak depth ++ [']']))))
  | .object [] => "\x7b\x7d".toList
  | .object ((n, v) :: ms) =>
    '{' :: (lineBreak (depth + 1) ++ (quoted n ++ ':' :: ' ' :: (indentedChars (depth + 1) v
      ++ (indentedMembers (depth + 1) ms ++ (lineBreak depth ++ ['}'])))))

def indentedItems (depth : Nat) : List Json → List Char
  | [] => []
  | j :: js => ',' :: (lineBreak depth ++ (indentedChars depth j ++ indentedItems depth js))

def indentedMembers (depth : Nat) : List (String × Json) → List Char
  | [] => []
  | (n, v) :: ms =>
    ',' :: (lineBreak depth ++ (quoted n ++ ':' :: ' ' :: (indentedChars depth v
      ++ indentedMembers depth ms)))

end

def compact (j : Json) : String := String.ofList (compactChars j)

def indented (j : Json) : String := String.ofList (indentedChars 0 j)

end ChartCompiler.Json
