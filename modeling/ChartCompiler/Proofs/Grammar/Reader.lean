import ChartCompiler.Proofs.Grammar.Token

/-! The grammar of expressions, as a reader of tokens: words, literals, calls and parentheses, then
members and positions behind them, then negation and the sign of a number, then the binary operators
level by level, all of them grouped to the left. The levels are written down here on their own, so
that a printer can be held against them. -/

namespace ChartCompiler.Grammar

/-- What a text says. A number is kept as it is written. -/
inductive Term
  | ident (name : String)
  | member (object : Term) (property : String)
  | index (object position : Term)
  | number (text : String)
  | string (value : String)
  | bool (value : Bool)
  | null
  | not (operand : Term)
  | binary (op : Operator) (left right : Term)
  | call (name : String) (args : List Term)
  deriving Repr

/-- The binary operators, those that bind least tightly first. -/
def levels : List (List Operator) :=
  [[.or], [.and], [.strictEq, .strictNe], [.gt, .gte, .lt, .lte], [.add, .sub],
    [.mul, .div, .mod]]

def reserved : List String := ["true", "false", "null", "NaN", "Infinity"]

def constant? (w : List Char) : Option Term :=
  if w = "true".toList then some (.bool true)
  else if w = "false".toList then some (.bool false)
  else if w = "null".toList then some .null
  else if w = "NaN".toList ∨ w = "Infinity".toList then some (.number (String.ofList w))
  else none

/- Each function reads one layer of the grammar from the front of a list of tokens, and gives what
it has read and the tokens left over. The first argument bounds the depth of the calls. -/
mutual

/-- Operators of the levels given, the operands of each level being of the next one. -/
def level : Nat → List (List Operator) → List Token → Option (Term × List Token)
  | 0, _, _ => none
  | n + 1, [], ts => unary n ts
  | n + 1, ops :: tighter, ts => do
    let (l, rest) ← level n tighter ts
    chain n ops tighter l rest

def chain : Nat → List Operator → List (List Operator) → Term → List Token →
    Option (Term × List Token)
  | 0, _, _, _, _ => none
  | n + 1, ops, tighter, l, .op o :: rest =>
    if o ∈ ops then do
      let (r, rest) ← level n tighter rest
      chain n ops tighter (.binary o l r) rest
    else some (l, .op o :: rest)
  | _ + 1, _, _, l, ts => some (l, ts)

def unary : Nat → List Token → Option (Term × List Token)
  | 0, _ => none
  | n + 1, .bang :: rest => (unary n rest).map fun (e, rest) => (.not e, rest)
  | _ + 1, .op .sub :: .number x :: rest => some (.number (String.ofList ('-' :: x)), rest)
  | n + 1, ts => postfixed n ts

def postfixed : Nat → List Token → Option (Term × List Token)
  | 0, _ => none
  | n + 1, ts => do
    let (e, rest) ← primary n ts
    selectors n e rest

def selectors : Nat → Term → List Token → Option (Term × List Token)
  | 0, _, _ => none
  | n + 1, e, .dot :: .word p :: rest => selectors n (.member e (String.ofList p)) rest
  | n + 1, e, .leftBracket :: rest =>
    match level n levels rest with
    | some (i, .rightBracket :: rest) => selectors n (.index e i) rest
    | _ => none
  | _ + 1, e, ts => some (e, ts)

def primary : Nat → List Token → Option (Term × List Token)
  | 0, _ => none
  | n + 1, .word w :: rest =>
    match constant? w, rest with
    | some e, rest => some (e, rest)
    | none, .leftParen :: rest =>
      (arguments n rest).map fun (es, rest) => (.call (String.ofList w) es, rest)
    | none, rest => some (.ident (String.ofList w), rest)
  | _ + 1, .number x :: rest => some (.number (String.ofList x), rest)
  | _ + 1, .string s :: rest => some (.string (String.ofList s), rest)
  | n + 1, .leftParen :: rest =>
    match level n levels rest with
    | some (e, .rightParen :: rest) => some (e, rest)
    | _ => none
  | _ + 1, _ => none

/-- The arguments of a call, up to the parenthesis that closes it. -/
def arguments : Nat → List Token → Option (List Term × List Token)
  | 0, _ => none
  | _ + 1, .rightParen :: rest => some ([], rest)
  | n + 1, ts => do
    let (e, rest) ← level n levels ts
    let (es, rest) ← moreArguments n rest
    return (e :: es, rest)

def moreArguments : Nat → List Token → Option (List Term × List Token)
  | 0, _ => none
  | _ + 1, .rightParen :: rest => some ([], rest)
  | n + 1, .comma :: rest => do
    let (e, rest) ← level n levels rest
    let (es, rest) ← moreArguments n rest
    return (e :: es, rest)
  | _ + 1, _ => none

end

/-- The depth of calls that suffices for a number of tokens. -/
def depth (n : Nat) : Nat := 10 * n + 10

def read (text : String) : Option Term := do
  let ts ← tokens? text.toList
  match level (depth ts.length) levels ts with
  | some (e, []) => some e
  | _ => none

end ChartCompiler.Grammar
