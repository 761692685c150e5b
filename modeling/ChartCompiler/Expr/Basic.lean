import ChartCompiler.Number.Basic

/-! Expressions of the document: filter predicates, formulas, signal updates and tests of rules.
They are built as trees, so that a field name or a nested operator cannot change what they mean, and
printed once. -/

namespace ChartCompiler

inductive Operator
  | add
  | sub
  | mul
  | div
  | mod
  | gt
  | gte
  | lt
  | lte
  | strictEq
  | strictNe
  | and
  | or
  deriving DecidableEq, Repr

namespace Operator

def symbol : Operator → String
  | .add => "+"
  | .sub => "-"
  | .mul => "*"
  | .div => "/"
  | .mod => "%"
  | .gt => ">"
  | .gte => ">="
  | .lt => "<"
  | .lte => "<="
  | .strictEq => "==="
  | .strictNe => "!=="
  | .and => "&&"
  | .or => "||"

def precedence : Operator → Nat
  | .or => 1
  | .and => 2
  | .strictEq | .strictNe => 3
  | .gt | .gte | .lt | .lte => 4
  | .add | .sub => 5
  | .mul | .div | .mod => 6

end Operator

inductive Expr
  /-- A name of its own: `datum`, or a signal. -/
  | ident (name : String)
  | member (object : Expr) (property : String)
  | index (object position : Expr)
  | number (value : Number)
  | string (value : String)
  | bool (value : Bool)
  | null
  | not (operand : Expr)
  | binary (op : Operator) (left right : Expr)
  | call (name : String) (args : List Expr)
  deriving Repr

namespace Expr

def signal (name : String) : Expr := .ident name

def datum (field : String) : Expr := .member (.ident "datum") field

/-- A field of the row that the item of another mark holds. -/
def nestedDatum (field : String) : Expr := .member (datum "datum") field

def nat (n : Nat) : Expr := .number (Number.ofNat n)

def int (i : Int) : Expr := .number (Number.ofInt i)

instance : Add Expr := ⟨.binary .add⟩
instance : Sub Expr := ⟨.binary .sub⟩
instance : Mul Expr := ⟨.binary .mul⟩
instance : Div Expr := ⟨.binary .div⟩
instance : Mod Expr := ⟨.binary .mod⟩

def and (a b : Expr) : Expr := .binary .and a b
def or (a b : Expr) : Expr := .binary .or a b
def gte (a b : Expr) : Expr := .binary .gte a b
def lte (a b : Expr) : Expr := .binary .lte a b
def strictEq (a b : Expr) : Expr := .binary .strictEq a b
def strictNe (a b : Expr) : Expr := .binary .strictNe a b

/-- Joins expressions by an operator from the left, none without any. -/
def join (op : Operator) : List Expr → Option Expr
  | [] => none
  | e :: es => some (es.foldl (.binary op) e)

def all (es : List Expr) : Option Expr := join .and es

def sum (es : List Expr) : Option Expr := join .add es

end Expr

end ChartCompiler
