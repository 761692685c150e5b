import ChartCompiler.Json.Basic

/-! A text read as far as it is JSON. `Draft.scan` never fails: where the text stops being JSON, the
draft stops too and says how. A reader walks a draft in the order of the text and so meets the first
fault of either kind first, one in the text or one in what the text says. -/

namespace ChartCompiler

/-- Why an input is refused: the text ends too soon, is not JSON, or is JSON of the wrong shape. -/
inductive Refusal
  | endOfText
  | notJson
  | wrongShape
  deriving DecidableEq, Repr

namespace Json

/-- How a list of items or members ends: closed, cut off after the last of them, or cut off after a
comma. -/
inductive Ending
  | closed
  | cut (why : Refusal)
  | cutAfterComma (why : Refusal)
  deriving DecidableEq, Repr

/-- A text read as far as it is JSON.

Some values are well formed and yet not readable: a number too big for binary64, a text with a lone
surrogate. They hold `none`, and whoever skips them takes no notice. A broken token tells a reader
and one who skips it why it is broken, and these differ for a number that the text ends in. -/
inductive Draft
  | null
  | bool (value : Bool)
  | number (value : Option Numeral)
  | text (value : Option String)
  | array (items : List Draft) (ending : Ending)
  | object (members : List (Draft × Draft)) (ending : Ending)
  /-- The text ends where a value should start. -/
  | missing
  /-- A string that breaks off. -/
  | brokenText (read skip : Refusal)
  /-- Any other token that is none. -/
  | brokenToken (read skip : Refusal)
  deriving Repr

def isBlank (c : Char) : Bool := c = ' ' || c = '\n' || c = '\t' || c = '\r'

def skipBlanks (cs : List Char) : List Char := cs.dropWhile isBlank

/-! ### Strings -/

/-- A piece of a string literal: a character, or a UTF-16 unit written by its number. -/
inductive Piece
  | char (c : Char)
  | unit (n : Nat)

def hexValue? (c : Char) : Option Nat :=
  if '0' ≤ c ∧ c ≤ '9' then some (c.toNat - 48)
  else if 'a' ≤ c ∧ c ≤ 'f' then some (c.toNat - 87)
  else if 'A' ≤ c ∧ c ≤ 'F' then some (c.toNat - 55)
  else none

def escape? (c : Char) : Option Char :=
  [('"', '"'), ('\\', '\\'), ('/', '/'), ('b', '\x08'), ('f', '\x0c'), ('n', '\n'), ('r', '\r'),
    ('t', '\t')].lookup c

/-- What is wrong where four hexadecimal digits are missing: the text ends when fewer than four
bytes are left of it. -/
def badUnit (cs : List Char) : Refusal :=
  if (cs.take 4).foldl (fun n c => n + c.utf8Size) 0 < 4 then .endOfText else .notJson

def pieces : List Char → List Piece × Except Refusal (List Char)
  | [] => ([], .error .endOfText)
  | '"' :: cs => ([], .ok cs)
  | ['\\'] => ([], .error .endOfText)
  | '\\' :: 'u' :: a :: b :: c :: d :: cs =>
    match hexValue? a, hexValue? b, hexValue? c, hexValue? d with
    | some a, some b, some c, some d =>
      let (ps, rest) := pieces cs
      (.unit (((a * 16 + b) * 16 + c) * 16 + d) :: ps, rest)
    | _, _, _, _ => ([], .error (badUnit (a :: b :: c :: d :: cs)))
  | '\\' :: 'u' :: cs => ([], .error (badUnit cs))
  | '\\' :: c :: cs =>
    match escape? c with
    | some c =>
      let (ps, rest) := pieces cs
      (.char c :: ps, rest)
    | none => ([], .error .notJson)
  | c :: cs =>
    if c.toNat < 32 then ([], .error .notJson)
    else
      let (ps, rest) := pieces cs
      (.char c :: ps, rest)

/-- The characters of the pieces, a leading surrogate joined with the trailing one after it; none if
a surrogate stands alone. A leading surrogate at the very end is given as not yet decided. -/
def joinPieces : List Piece → Option (List Char) × Bool
  | [] => (some [], false)
  | .char c :: ps =>
    let (cs, open') := joinPieces ps
    (cs.map (c :: ·), open')
  | .unit h :: ps =>
    if h < 0xD800 ∨ 0xDFFF < h then
      let (cs, open') := joinPieces ps
      (cs.map (Char.ofNat h :: ·), open')
    else if 0xDC00 ≤ h then (none, false)
    else match ps with
      | [] => (some [], true)
      | .unit l :: ps =>
        if 0xDC00 ≤ l ∧ l ≤ 0xDFFF then
          let (cs, open') := joinPieces ps
          (cs.map (Char.ofNat (0x10000 + (h - 0xD800) * 0x400 + (l - 0xDC00)) :: ·), open')
        else (none, false)
      | _ => (none, false)

def scanText (cs : List Char) : Draft × Option (List Char) :=
  match pieces cs with
  | (ps, .ok rest) =>
    match joinPieces ps with
    | (some cs, false) => (.text (some (String.ofList cs)), some rest)
    | _ => (.text none, some rest)
  | (ps, .error why) =>
    -- a lone surrogate before the break is the fault that a reader meets first
    (.brokenText (if (joinPieces ps).1.isNone then .notJson else why) why, none)

/-! ### Numbers and words -/

def digits (cs : List Char) : List Nat × List Char :=
  ((cs.takeWhile Char.isDigit).map fun c => c.toNat - 48, cs.dropWhile Char.isDigit)

def brokenNumber (rest : List Char) : Draft × Option (List Char) :=
  (.brokenToken (if rest.isEmpty then .endOfText else .notJson) .notJson, none)

def scanExponent (l : Literal) (cs : List Char) : Draft × Option (List Char) :=
  let go (down : Bool) (cs : List Char) : Draft × Option (List Char) :=
    match digits cs with
    | ([], rest) => brokenNumber rest
    | (ds, rest) => (.number { l with exponent := some (down, ds) }.value, some rest)
  match cs with
  | 'e' :: '-' :: cs | 'E' :: '-' :: cs => go true cs
  | 'e' :: '+' :: cs | 'E' :: '+' :: cs => go false cs
  | 'e' :: cs | 'E' :: cs => go false cs
  | _ => (.number l.value, some cs)

def scanNumber (negative : Bool) (cs : List Char) : Draft × Option (List Char) :=
  match digits cs with
  | ([], rest) => brokenNumber rest
  | (0 :: _ :: _, _) => (.brokenToken .notJson .notJson, none)
  | (whole, '.' :: cs) =>
    match digits cs with
    | ([], rest) => brokenNumber rest
    | (fraction, rest) => scanExponent { negative, whole, fraction } rest
  | (whole, rest) => scanExponent { negative, whole } rest

def scanWord (word : Draft) : List Char → List Char → Draft × Option (List Char)
  | [], cs => (word, some cs)
  | _, [] => (.brokenToken .endOfText .endOfText, none)
  | w :: ws, c :: cs =>
    if w = c then scanWord word ws cs else (.brokenToken .notJson .notJson, none)

/-! ### Values -/

mutual

/-- The value at the start of a text, and the text after it, none if the text breaks off inside.
Every two calls take a character, so twice the length of the text is fuel enough. -/
def scanValue : Nat → List Char → Draft × Option (List Char)
  | 0, _ => (.missing, none)
  | fuel + 1, cs =>
    match skipBlanks cs with
    | [] => (.missing, none)
    | 'n' :: cs => scanWord .null "ull".toList cs
    | 't' :: cs => scanWord (.bool true) "rue".toList cs
    | 'f' :: cs => scanWord (.bool false) "alse".toList cs
    | '"' :: cs => scanText cs
    | '-' :: cs => scanNumber true cs
    | '[' :: cs =>
      match skipBlanks cs with
      | [] => (.array [] (.cut .endOfText), none)
      | ']' :: cs => (.array [] .closed, some cs)
      | cs =>
        let (items, ending, rest) := scanItems fuel cs
        (.array items ending, rest)
    | '{' :: cs =>
      match skipBlanks cs with
      | [] => (.object [] (.cut .endOfText), none)
      | '}' :: cs => (.object [] .closed, some cs)
      | cs =>
        let (members, ending, rest) := scanMembers fuel cs
        (.object members ending, rest)
    | c :: cs =>
      if c.isDigit then scanNumber false (c :: cs) else (.brokenToken .notJson .notJson, none)

def scanItems : Nat → List Char → List Draft × Ending × Option (List Char)
  | 0, _ => ([], .cut .endOfText, none)
  | fuel + 1, cs =>
    match scanValue fuel cs with
    | (d, none) => ([d], .cut .endOfText, none)
    | (d, some cs) =>
      match skipBlanks cs with
      | [] => ([d], .cut .endOfText, none)
      | ']' :: cs => ([d], .closed, some cs)
      | ',' :: cs =>
        match skipBlanks cs with
        | [] => ([d], .cutAfterComma .endOfText, none)
        | ']' :: _ => ([d], .cutAfterComma .notJson, none)
        | cs =>
          let (ds, ending, rest) := scanItems fuel cs
          (d :: ds, ending, rest)
      | _ => ([d], .cut .notJson, none)

/-- The members of an object from the start of a name. A name that is no string ends the object, and
stands there with nothing after it. -/
def scanMembers : Nat → List Char → List (Draft × Draft) × Ending × Option (List Char)
  | 0, _ => ([], .cut .endOfText, none)
  | fuel + 1, cs =>
    match scanValue fuel cs with
    | (name, none) => ([(name, .missing)], .cut .endOfText, none)
    | (name@(.text _), some cs) =>
      match skipBlanks cs with
      | [] => ([(name, .missing)], .cut .endOfText, none)
      | ':' :: cs =>
        match scanValue fuel cs with
        | (d, none) => ([(name, d)], .cut .endOfText, none)
        | (d, some cs) =>
          match skipBlanks cs with
          | [] => ([(name, d)], .cut .endOfText, none)
          | '}' :: cs => ([(name, d)], .closed, some cs)
          | ',' :: cs =>
            match skipBlanks cs with
            | [] => ([(name, d)], .cutAfterComma .endOfText, none)
            | '}' :: _ => ([(name, d)], .cutAfterComma .notJson, none)
            | cs =>
              let (ms, ending, rest) := scanMembers fuel cs
              ((name, d) :: ms, ending, rest)
          | _ => ([(name, d)], .cut .notJson, none)
      | _ => ([(name, .brokenToken .notJson .notJson)], .cut .notJson, none)
    | (name, some _) => ([(name, .missing)], .cut .notJson, none)

end

def Draft.scan (text : String) : Draft × Option (List Char) :=
  let cs := text.toList
  scanValue (2 * cs.length + 2) cs

end Json

end ChartCompiler
