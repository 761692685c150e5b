import ChartCompiler.Expr.Basic
import ChartCompiler.Number.Text

/-! The text of an expression. An operand is put in parentheses only where it would be read
otherwise: to the left of an operator if it binds less tightly, to the right also if it binds as
tightly. -/

namespace ChartCompiler

def isNameStart (c : Char) : Bool := c.isAlpha || c == '_' || c == '$'

def isNameChar (c : Char) : Bool := c.isAlphanum || c == '_' || c == '$'

/-- Whether a text can stand as a name, and so behind a dot. -/
def isName : List Char → Bool
  | [] => false
  | c :: cs => isNameStart c && cs.all isNameChar

def quoteChar (c : Char) : List Char :=
  if c = '\\' then ['\\', '\\']
  else if c = '\'' then ['\\', '\'']
  else if c = '\n' then ['\\', 'n']
  else if c = '\r' then ['\\', 'r']
  else if c = '\u2028' then "\\u2028".toList
  else if c = '\u2029' then "\\u2029".toList
  else [c]

/-- A string literal in single quotes. No line break stands raw in it. -/
def quote (s : List Char) : List Char := '\'' :: (s.flatMap quoteChar ++ ['\''])

namespace Expr

def unaryPrecedence : Nat := 7

/-- How tightly what needs no parentheses anywhere binds. -/
def atomPrecedence : Nat := 8

def precedence : Expr → Nat
  | .binary op _ _ => op.precedence
  | .not _ => unaryPrecedence
  | .number v => if v.isNegative then unaryPrecedence else atomPrecedence
  | _ => atomPrecedence

def parens (wanted : Bool) (cs : List Char) : List Char :=
  if wanted then '(' :: (cs ++ [')']) else cs

mutual

def chars : Expr → List Char
  | .ident n => n.toList
  | .member e p =>
    parens (e.precedence < atomPrecedence) (chars e) ++
      if isName p.toList then '.' :: p.toList else '[' :: (quote p.toList ++ [']'])
  | .index e i => parens (e.precedence < atomPrecedence) (chars e) ++ '[' :: (chars i ++ [']'])
  | .number v => v.exprText
  | .string s => quote s.toList
  | .bool b => if b then "true".toList else "false".toList
  | .null => "null".toList
  | .not e => '!' :: parens (e.precedence < unaryPrecedence) (chars e)
  | .binary op l r =>
    parens (l.precedence < op.precedence) (chars l) ++
      ' ' :: (op.symbol.toList ++ ' ' :: parens (r.precedence ≤ op.precedence) (chars r))
  | .call n args => n.toList ++ '(' :: (charsArgs args ++ [')'])

def charsArgs : List Expr → List Char
  | [] => []
  | e :: es => chars e ++ charsMoreArgs es

def charsMoreArgs : List Expr → List Char
  | [] => []
  | e :: es => ',' :: ' ' :: (chars e ++ charsMoreArgs es)

end

def render (e : Expr) : String := String.ofList e.chars

end Expr

end ChartCompiler
