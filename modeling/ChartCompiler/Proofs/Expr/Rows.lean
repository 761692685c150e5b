import ChartCompiler.Expr.Text

/-! How expressions in a row are printed. Joined from the left, all that is joined so far binds as
tightly as the operator itself, and so goes without parentheses to its left. So the operands stand
side by side, the first one in parentheses if it binds less tightly than the operator, and each later
one also if it binds as tightly. -/

namespace ChartCompiler

namespace Expr

def outermost? : Expr → Option Operator
  | .binary op _ _ => some op
  | _ => none

def operandText (grouped : List Operator) (e : Expr) : String :=
  if e.outermost?.any (· ∈ grouped) then "(" ++ e.render ++ ")" else e.render

/-- The text of expressions in a row: none without any, a single one bare, and several with a
separator between them, where some operators ask for parentheses around the first expression and
some around each later one. -/
def rowText (sep : String) (first later : List Operator) : List Expr → Option String
  | [] => none
  | [e] => some e.render
  | e :: e' :: es =>
    some (sep.intercalate (operandText first e :: (e' :: es).map (operandText later)))

end Expr

def Operator.looserThanSum : List Operator :=
  [.or, .and, .strictEq, .strictNe, .gt, .gte, .lt, .lte]

theorem Operator.precedence_lt_unary (op : Operator) : op.precedence < Expr.unaryPrecedence := by
  cases op <;> decide

namespace Expr

variable {op : Operator} {grouped first later : List Operator} {n : Nat} {e : Expr}

/-- Only what is joined by an operator ever binds less tightly than one. -/
theorem precedence_lt_iff (hn : n ≤ unaryPrecedence) (hg : ∀ o, o ∈ grouped ↔ o.precedence < n)
    (e : Expr) : e.precedence < n ↔ e.outermost?.any (· ∈ grouped) := by
  have hatom : unaryPrecedence < atomPrecedence := by decide
  cases e with
  | binary o l r => simp [precedence, outermost?, hg]
  | number v =>
    simp only [precedence, outermost?, Option.any_none, Bool.false_eq_true, iff_false]
    split <;> omega
  | _ =>
    simp only [precedence, outermost?, Option.any_none, Bool.false_eq_true, iff_false]
    omega

theorem ofList_parens (wanted : Bool) (cs : List Char) :
    String.ofList (parens wanted cs) =
      if wanted then "(" ++ String.ofList cs ++ ")" else String.ofList cs := by
  cases wanted with
  | false => rfl
  | true =>
    rw [← String.toList_inj]
    simp [parens]

theorem ofList_operand (hn : n ≤ unaryPrecedence) (hg : ∀ o, o ∈ grouped ↔ o.precedence < n)
    (e : Expr) : String.ofList (parens (e.precedence < n) e.chars) = operandText grouped e := by
  simp only [ofList_parens, operandText, ← precedence_lt_iff hn hg, decide_eq_true_eq]
  rfl

theorem operandText_bare (hn : n ≤ unaryPrecedence) (hg : ∀ o, o ∈ grouped ↔ o.precedence < n)
    (he : n ≤ e.precedence) : operandText grouped e = e.render := by
  rw [operandText, if_neg]
  rw [← precedence_lt_iff hn hg]
  omega

/-- Operands that bind tightly enough stand on both sides of an operator as they are. -/
theorem render_binary_bare {l r : Expr} (hl : op.precedence ≤ l.precedence)
    (hr : op.precedence < r.precedence) :
    (binary op l r).render = l.render ++ (" " ++ op.symbol ++ " ") ++ r.render := by
  have hleft : ¬l.precedence < op.precedence := by omega
  have hright : ¬r.precedence ≤ op.precedence := by omega
  rw [render, chars, decide_eq_false hleft, decide_eq_false hright, ← String.toList_inj]
  simp [parens, render]

section Row

variable (hfirst : ∀ o, o ∈ first ↔ o.precedence < op.precedence)
variable (hlater : ∀ o, o ∈ later ↔ o.precedence < op.precedence + 1)

include hfirst

/-- What the operator has joined is not put in parentheses to its left. -/
theorem operandText_binary (l r : Expr) :
    operandText first (binary op l r) = (binary op l r).render := by
  simp [operandText, outermost?, hfirst]

include hlater

theorem render_binary (l r : Expr) :
    (binary op l r).render =
      operandText first l ++ (" " ++ op.symbol ++ " ") ++ operandText later r := by
  have hop := op.precedence_lt_unary
  have hleft := ofList_operand (Nat.le_of_lt hop) hfirst l
  have hright := ofList_operand hop hlater r
  rw [render, chars, ← hleft, ← hright, ← String.toList_inj]
  simp only [Nat.lt_succ_iff]
  simp

/-- What stands bare to the left of the operator is followed by further operands as it is. -/
theorem render_foldl (he : operandText first e = e.render) (es : List Expr) :
    (es.foldl (binary op) e).render =
      (" " ++ op.symbol ++ " ").intercalate (e.render :: es.map (operandText later)) := by
  induction es generalizing e with
  | nil => rw [List.foldl_nil, List.map_nil, String.intercalate_singleton]
  | cons r es ih =>
    rw [List.foldl_cons, ih (operandText_binary hfirst e r), render_binary hfirst hlater, he,
      List.map_cons, String.intercalate_cons_append, String.intercalate_cons_cons]

theorem render_join (es : List Expr) :
    (join op es).map render = rowText (" " ++ op.symbol ++ " ") first later es := by
  cases es with
  | nil => rfl
  | cons e es =>
    cases es with
    | nil => rfl
    | cons r es =>
      rw [join, Option.map_some, List.foldl_cons,
        render_foldl hfirst hlater (operandText_binary hfirst e r),
        render_binary hfirst hlater, String.intercalate_cons_append, ← String.intercalate_cons_cons]
      rfl

end Row

theorem join_eq_none_iff {es : List Expr} : join op es = none ↔ es = [] := by
  cases es <;> simp [join]

theorem render_all (es : List Expr) :
    (all es).map render = rowText " && " [.or] [.or, .and] es := by
  refine render_join ?_ ?_ es <;> intro o <;> cases o <;> decide

example :
    (all [.or (.ident "a") (.ident "b"), .and (.ident "c") (.ident "d"), .ident "e"]).map render =
      some "(a || b) && (c && d) && e" := by decide

theorem mem_looserThanSum (o : Operator) :
    o ∈ Operator.looserThanSum ↔ o.precedence < Operator.add.precedence := by
  cases o <;> decide

theorem mem_cons_looserThanSum (o : Operator) :
    o ∈ .add :: .sub :: Operator.looserThanSum ↔ o.precedence < Operator.add.precedence + 1 := by
  cases o <;> decide

theorem render_sum (es : List Expr) :
    (sum es).map render =
      rowText " + " Operator.looserThanSum (.add :: .sub :: Operator.looserThanSum) es :=
  render_join mem_looserThanSum mem_cons_looserThanSum es

/-- What binds more tightly than a sum is added up without any parentheses. -/
theorem render_foldl_add {es : List Expr}
    (h : ∀ t ∈ e :: es, Operator.add.precedence < t.precedence) :
    (es.foldl (binary .add) e).render = " + ".intercalate ((e :: es).map render) := by
  obtain ⟨he, hes⟩ := List.forall_mem_cons.1 h
  have hn : Operator.add.precedence + 1 ≤ unaryPrecedence := by decide
  have hfirst := operandText_bare (Nat.le_of_succ_le hn) mem_looserThanSum (Nat.le_of_lt he)
  have hlater : es.map (operandText (.add :: .sub :: Operator.looserThanSum)) = es.map render :=
    List.map_congr_left fun t ht => operandText_bare hn mem_cons_looserThanSum (hes t ht)
  rw [render_foldl mem_looserThanSum mem_cons_looserThanSum hfirst, hlater]
  rfl

end Expr

end ChartCompiler
