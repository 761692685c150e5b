import ChartCompiler.Proofs.Grammar.Layers
import Mathlib.Data.List.Infix

/-! Printing an expression and reading the text back. The induction is on the expression; the reader
goes down the levels while an operator stands at the top of its own tree, so what it carries is one
fact for each way an expression can be met: as a primary with selectors, as a unary expression, and
as the left end of a chain of its own level. Parentheses are exactly where the expression would
otherwise be met at a level that is too tight. -/

namespace ChartCompiler

open Grammar

namespace Expr

mutual

/-- What the text of an expression says. A field that is no name is looked up by its string, and a
number counts as it is printed. -/
def term : Expr → Term
  | .ident n => .ident n
  | .member e p => if isName p.toList then .member (term e) p else .index (term e) (.string p)
  | .index e i => .index (term e) (term i)
  | .number v => .number (String.ofList v.exprText)
  | .string s => .string s
  | .bool b => .bool b
  | .null => .null
  | .not e => .not (term e)
  | .binary op l r => .binary op (term l) (term r)
  | .call n args => .call n (terms args)

def terms : List Expr → List Term
  | [] => []
  | e :: es => term e :: terms es

end

def Fits (e : Expr) (ops : List Operator) : Prop := ∀ o l r, e = .binary o l r → o ∈ ops

/-- An operation that is none of a level fits a tighter one. -/
theorem Fits.tighter {e : Expr} {ops : List Operator} {tighter : List (List Operator)}
    (h : e.Fits (ops :: tighter).flatten) (hop : ¬∃ o l r, e = .binary o l r ∧ o ∈ ops) :
    e.Fits tighter.flatten := by
  intro o l r he
  have := h o l r he
  rw [List.flatten_cons, List.mem_append] at this
  exact this.resolve_left fun ho => hop ⟨o, l, r, he, ho⟩

/-- The operators that bind as tightly as one of a level are in that level or a tighter one, and
those that bind more tightly in a tighter one. -/
theorem levels_precedence : ∀ lv ∈ levels.tails, ∀ ops ∈ lv.head?, ∀ o ∈ ops,
    o ∉ lv.tail.flatten ∧ ∀ o' ∈ levels.flatten,
      (o.precedence ≤ o'.precedence → o' ∈ lv.flatten) ∧
      (o.precedence < o'.precedence → o' ∈ lv.tail.flatten) := by
  decide

theorem mem_levels (o : Operator) : o ∈ levels.flatten := by cases o <;> decide

section level

variable {ops : List Operator} {tighter : List (List Operator)} {o : Operator}

theorem not_mem_tighter (hlv : (ops :: tighter) <:+ levels) (ho : o ∈ ops) :
    o ∉ tighter.flatten :=
  (levels_precedence _ ((List.mem_tails _ _).2 hlv) ops rfl o ho).1

/-- A left operand without parentheses goes on the chain of its operator, or is of a tighter level.
-/
theorem fits_left {e : Expr} (hlv : (ops :: tighter) <:+ levels) (ho : o ∈ ops)
    (h : o.precedence ≤ e.precedence) : e.Fits (ops :: tighter).flatten := by
  rintro o' l r rfl
  exact ((levels_precedence _ ((List.mem_tails _ _).2 hlv) ops rfl o ho).2 o' (mem_levels o')).1 h

/-- A right operand without parentheses is of a tighter level. -/
theorem fits_right {e : Expr} (hlv : (ops :: tighter) <:+ levels) (ho : o ∈ ops)
    (h : o.precedence < e.precedence) : e.Fits tighter.flatten := by
  rintro o' l r rfl
  exact ((levels_precedence _ ((List.mem_tails _ _).2 hlv) ops rfl o ho).2 o' (mem_levels o')).2 h

theorem fits_levels (e : Expr) : e.Fits levels.flatten := fun o _ _ _ => mem_levels o

theorem suffix_length {lv : List (List Operator)} (h : lv <:+ levels) : lv.length ≤ 6 :=
  h.length_le

end level

/-- How a printed expression is read wherever it can stand without parentheses: an atom together
with the selectors behind it, a negation or a negative number on its own, and an operation as the
beginning of a chain of its level. -/
structure Reads (e : Expr) : Prop where
  atom : e.precedence = atomPrecedence → ∀ rest a n, rest.head? ≠ some .leftParen →
    Settles (selectors · e.term rest) n a →
    Settles (postfixed · (e.tokens ++ rest)) (n + 10 * e.tokens.length) a
  signed : e.precedence = unaryPrecedence → ∀ rest, Stops [] rest →
    Settles (unary · (e.tokens ++ rest)) (10 * e.tokens.length + 2) (e.term, rest)
  chained : ∀ o l r, e = .binary o l r → ∀ ops tighter, (ops :: tighter) <:+ levels → o ∈ ops →
    ∀ rest a n, Stops tighter.flatten rest → Settles (chain · ops tighter e.term rest) n a →
    Settles (level · (ops :: tighter) (e.tokens ++ rest))
      (n + 10 * e.tokens.length + tighter.length + 3) a

namespace Reads

variable {e : Expr} {rest : List Token} {a : Term × List Token} {n : Nat}

theorem unary (h : Reads e) (he : unaryPrecedence ≤ e.precedence) (hs : Stops [] rest) :
    Settles (unary · (e.tokens ++ rest)) (10 * e.tokens.length + 2) (e.term, rest) := by
  rcases Nat.eq_or_lt_of_le he with hu | ha
  · exact h.signed hu.symm rest hs
  · have hatom : e.precedence = atomPrecedence :=
      Nat.le_antisymm (precedence_le_atom e) ha
    have hpost := h.atom hatom rest _ 1 hs.no_call (selectors_stop e.term hs)
    exact (unary_postfixed hpost).mono (by omega)

/-- Whatever is not an operation is a unary expression. -/
theorem unary_le_precedence (h : ∀ o l r, e ≠ .binary o l r) : unaryPrecedence ≤ e.precedence := by
  cases e with
  | binary o l r => exact absurd rfl (h o l r)
  | number v => cases hv : v.isNegative <;> simp [precedence, hv, unaryPrecedence, atomPrecedence]
  | not e => exact Nat.le_refl _
  | _ => exact show unaryPrecedence ≤ atomPrecedence by decide

/-- A printed expression is read at every level that its operator fits. -/
theorem level (h : Reads e) : ∀ lv : List (List Operator), lv <:+ levels → e.Fits lv.flatten →
    Stops lv.flatten rest →
    Settles (level · lv (e.tokens ++ rest)) (10 * e.tokens.length + lv.length + 3) (e.term, rest)
  | [], _, hf, hs => by
    have hne : ∀ o l r, e ≠ .binary o l r := fun o l r he => by simpa using hf o l r he
    exact level_nil (h.unary (unary_le_precedence hne) hs)
  | ops :: tighter, hlv, hf, hs => by
    have htight : Stops tighter.flatten rest := hs.mono (by simp)
    have hstop : Settles (chain · ops tighter e.term rest) 1 (e.term, rest) :=
      chain_stop e.term (hs.mono (by simp))
    by_cases hop : ∃ o l r, e = .binary o l r ∧ o ∈ ops
    · obtain ⟨o, l, r, he, ho⟩ := hop
      have := h.chained o l r he ops tighter hlv ho rest _ 1 htight hstop
      exact this.mono (by simp only [List.length_cons]; omega)
    · have := level h tighter ((List.suffix_cons ops tighter).trans hlv) (hf.tighter hop) htight
      exact (level_cons this (hstop.mono (by omega))).mono
        (by simp only [List.length_cons]; omega)

/-- A printed expression begins a chain of every level that its operator fits. -/
theorem begins_chain (h : Reads e) {ops : List Operator} {tighter : List (List Operator)}
    (hlv : (ops :: tighter) <:+ levels) (hf : e.Fits (ops :: tighter).flatten)
    (hs : Stops tighter.flatten rest) (hc : Settles (chain · ops tighter e.term rest) n a) :
    Settles (Grammar.level · (ops :: tighter) (e.tokens ++ rest))
      (n + 10 * e.tokens.length + tighter.length + 4) a := by
  by_cases hop : ∃ o l r, e = .binary o l r ∧ o ∈ ops
  · obtain ⟨o, l, r, he, ho⟩ := hop
    exact (h.chained o l r he ops tighter hlv ho rest a n hs hc).mono (by omega)
  · have hlevel := h.level tighter ((List.suffix_cons ops tighter).trans hlv) (hf.tighter hop) hs
    exact level_cons (n := n + 10 * e.tokens.length + tighter.length + 3) (hlevel.mono (by omega))
      (hc.mono (by omega))

/-- In parentheses every expression is a primary. -/
theorem parens (h : Reads e) :
    Settles (primary · (.leftParen :: (e.tokens ++ .rightParen :: rest)))
      (10 * e.tokens.length + 10) (e.term, rest) :=
  primary_parens (h.level levels (List.suffix_refl _) e.fits_levels (.rightParen _ _))

section operand

variable (wanted : Bool)

/-- An operand in front of selectors. -/
theorem operand_atom (h : Reads e) (hw : wanted = false → e.precedence = atomPrecedence)
    (hr : rest.head? ≠ some .leftParen) (hs : Settles (selectors · e.term rest) n a) :
    Settles (postfixed · (enclose wanted e.tokens ++ rest))
      (n + 10 * (enclose wanted e.tokens).length) a := by
  cases wanted with
  | false => exact h.atom (hw rfl) rest a n hr hs
  | true =>
    have hp : Settles (primary · (.leftParen :: (e.tokens ++ .rightParen :: rest))) _ _ := h.parens
    have := postfixed_primary (n := n + 10 * e.tokens.length + 10) (hp.mono (by omega))
      (hs.mono (by omega))
    simp only [enclose, if_true, List.cons_append, List.append_assoc, List.nil_append,
      List.length_cons, List.length_append, List.length_nil]
    exact this.mono (by omega)

/-- An operand behind a negation. -/
theorem operand_unary (h : Reads e) (hw : wanted = false → unaryPrecedence ≤ e.precedence)
    (hs : Stops [] rest) :
    Settles (Grammar.unary · (enclose wanted e.tokens ++ rest))
      (10 * (enclose wanted e.tokens).length + 2) (e.term, rest) := by
  cases wanted with
  | false => exact h.unary (hw rfl) hs
  | true =>
    have hpost := h.operand_atom true (by simp) hs.no_call (selectors_stop _ hs)
    exact (unary_postfixed hpost).mono (by omega)

/-- An operand of an operator, read at a level. -/
theorem operand_level (h : Reads e) {lv : List (List Operator)} (hlv : lv <:+ levels)
    (hw : wanted = false → e.Fits lv.flatten) (hs : Stops lv.flatten rest) :
    Settles (Grammar.level · lv (enclose wanted e.tokens ++ rest))
      (10 * (enclose wanted e.tokens).length + lv.length + 3) (e.term, rest) := by
  cases wanted with
  | false => exact h.level lv hlv (hw rfl) hs
  | true =>
    have hunary := h.operand_unary true (by simp) (hs.mono (by simp))
    exact (level_unary hunary (by omega) lv hs).mono (by omega)

/-- The left operand of an operator, at the beginning of a chain. -/
theorem operand_chain (h : Reads e) {ops : List Operator} {tighter : List (List Operator)}
    (hlv : (ops :: tighter) <:+ levels) (hw : wanted = false → e.Fits (ops :: tighter).flatten)
    (hs : Stops tighter.flatten rest) (hc : Settles (chain · ops tighter e.term rest) n a) :
    Settles (Grammar.level · (ops :: tighter) (enclose wanted e.tokens ++ rest))
      (n + 10 * (enclose wanted e.tokens).length + tighter.length + 4) a := by
  cases wanted with
  | false => exact h.begins_chain hlv (hw rfl) hs hc
  | true =>
    have htight := h.operand_level true ((List.suffix_cons ops tighter).trans hlv)
      (by simp) hs
    exact level_cons
      (n := n + 10 * (enclose true e.tokens).length + tighter.length + 3)
      (htight.mono (by omega)) (hc.mono (by omega))

end operand

end Reads

theorem constant?_plain {n : String} (h : IsPlainName n) : constant? n.toList = none := by
  have hne : ∀ w ∈ reserved, n.toList ≠ w.toList := by
    intro w hw heq
    rw [String.toList_inj] at heq
    exact h.2 (heq ▸ hw)
  unfold constant?
  rw [if_neg (hne "true" (by decide)), if_neg (hne "false" (by decide)),
    if_neg (hne "null" (by decide)), if_neg]
  rintro (h' | h')
  · exact hne "NaN" (by decide) h'
  · exact hne "Infinity" (by decide) h'

/-- An expression of the highest precedence is a primary with its selectors, and nothing else. -/
theorem Reads.of_atom {e : Expr} (hp : e.precedence = atomPrecedence)
    (h : ∀ rest a n, rest.head? ≠ some .leftParen → Settles (selectors · e.term rest) n a →
      Settles (postfixed · (e.tokens ++ rest)) (n + 10 * e.tokens.length) a) : Reads e where
  atom _ := h
  signed hu := absurd (hp.symm.trans hu) (by decide)
  chained o l r he := by
    subst he
    cases o <;> cases hp

/-- A primary of one token. -/
theorem Reads.of_primary {e : Expr} {t : Token} (hp : e.precedence = atomPrecedence)
    (ht : e.tokens = [t])
    (h : ∀ rest : List Token, rest.head? ≠ some .leftParen →
      Settles (primary · (t :: rest)) 1 (e.term, rest)) : Reads e :=
  .of_atom hp fun rest a n hr hs => by
    rw [ht]
    exact (postfixed_primary (n := n + 1) ((h rest hr).mono (by omega)) (hs.mono (by omega))).mono
      (by simp)

theorem eq_atom_of_not_lt {e : Expr} (h : decide (e.precedence < atomPrecedence) = false) :
    e.precedence = atomPrecedence := by
  have := precedence_le_atom e
  simp only [decide_eq_false_iff_not] at h
  omega

theorem stops_moreArgs (ops : List Operator) (es : List Expr) (rest : List Token) :
    Stops ops (moreArgTokens es ++ .rightParen :: rest) := by
  cases es
  · exact .rightParen _ _
  · exact .comma _ _

namespace Reads

theorem member {e : Expr} (h : Reads e) (p : String) : Reads (.member e p) :=
  .of_atom rfl fun rest a n hr hs => by
    rw [term] at hs
    rw [tokens]
    split_ifs at hs ⊢ with hp
    · rw [← String.ofList_toList (s := p)] at hs
      have := h.operand_atom (e.precedence < atomPrecedence) eq_atom_of_not_lt (by simp)
        (selectors_member hs)
      rw [List.append_assoc]
      exact this.mono (by simp only [List.length_append, List.length_cons]; omega)
    · have hpost := postfixed_primary (primary_string p.toList)
        (selectors_stop (.string (String.ofList p.toList)) (.rightBracket [] rest))
      have hkey := level_unary (unary_postfixed hpost) (by omega) levels (.rightBracket _ rest)
      rw [String.ofList_toList] at hkey
      have hsel := selectors_index (n := n + 19) (hkey.mono (by simp [levels]))
        (hs.mono (by omega))
      have := h.operand_atom (e.precedence < atomPrecedence) eq_atom_of_not_lt (by simp) hsel
      rw [List.append_assoc]
      exact this.mono (by
        simp only [List.length_append, List.length_cons, List.length_nil]
        omega)

theorem index {e i : Expr} (h : Reads e) (hi : Reads i) : Reads (.index e i) :=
  .of_atom rfl fun rest a n hr hs => by
    have hpos := hi.level levels (List.suffix_refl _) i.fits_levels (.rightBracket _ rest)
    have hsel := selectors_index (n := n + 10 * i.tokens.length + 9)
      (hpos.mono (by simp [levels])) (hs.mono (by omega))
    have := h.operand_atom (e.precedence < atomPrecedence) eq_atom_of_not_lt (by simp) hsel
    rw [tokens, List.append_assoc, List.cons_append, List.append_assoc]
    exact this.mono (by
      simp only [List.length_append, List.length_cons, List.length_nil]
      omega)

theorem number {v : Number} (hv : v.isFinite) : Reads (.number v) := by
  obtain ⟨ds, hd, htext⟩ := Number.exprText_unsigned hv
  cases hneg : v.isNegative with
  | true =>
    have htok : (Expr.number v).tokens = [.op .sub, .number ds] := by
      rw [tokens, htext, hneg]
      rfl
    have hprec : (Expr.number v).precedence = unaryPrecedence := by simp [precedence, hneg]
    refine ⟨fun ha => absurd (hprec.symm.trans ha) (by decide), fun _ rest _ => ?_,
      fun o l r he => by cases he⟩
    rw [htok, term, htext, hneg]
    exact (unary_minus ds).mono (by simp)
  | false =>
    have htok : (Expr.number v).tokens = [.number ds] := by
      rw [tokens, htext, hneg]
      exact numberTokens_unsigned hd
    refine .of_primary (by simp [precedence, hneg]) htok fun rest _ => ?_
    rw [term, htext, hneg]
    exact primary_number ds

theorem not {e : Expr} (h : Reads e) : Reads (.not e) where
  atom ha := absurd ha (show unaryPrecedence ≠ atomPrecedence by decide)
  signed _ rest hs := by
    have := h.operand_unary (e.precedence < unaryPrecedence) (fun hw => by simpa using hw) hs
    rw [tokens, term]
    exact (unary_not this).mono (by simp only [List.length_cons]; omega)
  chained o l r he := by cases he

/-- The right operand is read at the tighter levels and joined to the left one, which then stands at
the beginning of the rest of the chain. -/
theorem binary {op : Operator} {l r : Expr} (hl : Reads l) (hr : Reads r) :
    Reads (.binary op l r) where
  atom ha := by cases op <;> cases ha
  signed hu := by cases op <;> cases hu
  chained o l' r' heq ops tighter hlv ho rest a n hs hc := by
    cases heq
    have hlen := suffix_length hlv
    have hright := hr.operand_level (r.precedence ≤ op.precedence)
      ((List.suffix_cons ops tighter).trans hlv)
      (fun hw => fits_right hlv ho (by simpa using hw)) hs
    have hchain := chain_op ho
      (n := n + 10 * (enclose (r.precedence ≤ op.precedence) r.tokens).length
        + tighter.length + 3) (hright.mono (by omega)) (hc.mono (by omega))
    have hleft := hl.operand_chain (l.precedence < op.precedence) hlv
      (fun hw => fits_left hlv ho (by simpa using hw)) (.op (not_mem_tighter hlv ho) _) hchain
    rw [tokens, List.append_assoc, List.cons_append]
    exact hleft.mono (by
      simp only [List.length_append, List.length_cons] at hlen ⊢
      omega)

theorem call {f : String} {args : List Expr} (hf : IsPlainName f)
    (ha : ∀ rest, Settles (arguments · (argTokens args ++ .rightParen :: rest))
      (10 * (argTokens args).length + 10) (terms args, rest)) : Reads (.call f args) :=
  .of_atom rfl fun rest a n hr hs => by
    have hcall := primary_call (constant?_plain hf) (ha rest)
    rw [String.ofList_toList] at hcall
    have := postfixed_primary (n := n + 10 * (argTokens args).length + 11)
      (hcall.mono (by omega)) (hs.mono (by omega))
    rw [tokens, List.cons_append, List.cons_append, List.append_assoc]
    exact this.mono (by
      simp only [List.length_append, List.length_cons, List.length_nil]
      omega)

end Reads

mutual

/-- Every readable expression is read back in each of the ways it can be met. -/
theorem reads : ∀ e : Expr, e.Readable → Reads e
  | .ident n, h => .of_primary rfl (by rw [tokens]) fun rest hr => by
    simpa [term] using primary_ident (constant?_plain h) hr
  | .member e p, h => (reads e h.1).member p
  | .index e i, h => (reads e h.1).index (reads i h.2)
  | .number _, h => .number h
  | .string s, _ => .of_primary rfl (by rw [tokens]) fun rest _ => by
    simpa [term] using primary_string s.toList
  | .bool b, _ => .of_primary rfl (by rw [tokens]) fun rest _ => by
    cases b <;> exact primary_constant rfl
  | .null, _ => .of_primary rfl (by rw [tokens]) fun rest _ => primary_constant rfl
  | .not e, h => (reads e h).not
  | .binary _ l r, h => .binary (reads l h.1) (reads r h.2)
  | .call _ args, h => .call h.1 (reads_args args h.2)

theorem reads_args : ∀ es : List Expr, AllReadable es → ∀ rest,
    Settles (arguments · (argTokens es ++ .rightParen :: rest))
      (10 * (argTokens es).length + 10) (terms es, rest)
  | [], _, rest => arguments_nil.mono (by omega)
  | e :: es, h, rest => by
    have he := (reads e h.1).level levels (List.suffix_refl _) e.fits_levels
      (stops_moreArgs _ es rest)
    have hmore := reads_moreArgs es h.2 rest
    rw [argTokens, terms, List.append_assoc, List.length_append]
    exact (arguments_cons (n := 10 * (e.tokens.length + (moreArgTokens es).length) + 9)
      (he.mono (by simp only [levels, List.length_cons, List.length_nil]; omega))
      (hmore.mono (by omega))).mono (by omega)

theorem reads_moreArgs : ∀ es : List Expr, AllReadable es → ∀ rest,
    Settles (moreArguments · (moreArgTokens es ++ .rightParen :: rest))
      (10 * (moreArgTokens es).length + 1) (terms es, rest)
  | [], _, rest => moreArguments_nil
  | e :: es, h, rest => by
    have he := (reads e h.1).level levels (List.suffix_refl _) e.fits_levels
      (stops_moreArgs _ es rest)
    have hmore := reads_moreArgs es h.2 rest
    rw [moreArgTokens, terms, List.cons_append, List.append_assoc, List.length_cons,
      List.length_append]
    exact (moreArguments_cons (n := 10 * (e.tokens.length + (moreArgTokens es).length) + 9)
      (he.mono (by simp only [levels, List.length_cons, List.length_nil]; omega))
      (hmore.mono (by omega))).mono (by omega)

end

theorem tokens?_chars {e : Expr} (h : e.Readable) : tokens? e.chars = some e.tokens := by
  have := splits_chars e h [] (.nil e)
  simpa [Splits, tokens?_nil] using this

theorem read_of_readable {e : Expr} (h : e.Readable) : Grammar.read e.render = some e.term := by
  have hlevel := (reads e h).level levels (List.suffix_refl _) e.fits_levels (.nil _)
  rw [List.append_nil] at hlevel
  have := hlevel.at_depth (m := depth e.tokens.length)
    (by simp only [depth, levels, List.length_cons, List.length_nil]; omega)
  rw [Grammar.read, render, String.toList_ofList, tokens?_chars h]
  simp [this]

/-- Reading a printed expression consumes the whole text and gives the expression back, so that two
expressions with one text say the same. -/
theorem read_render :
    (∀ e : Expr, e.Readable → Grammar.read e.render = some e.term) ∧
    ∀ e e' : Expr, e.Readable → e'.Readable → e.render = e'.render → e.term = e'.term := by
  refine ⟨fun e => read_of_readable, fun e e' h h' heq => ?_⟩
  have := read_of_readable h
  rw [heq, read_of_readable h'] at this
  exact (Option.some.inj this).symm

/-- A field that is no name and the same field looked up by a string have one text, and both come
back from it. -/
theorem read_render_field :
    let e : Expr := .binary .sub (.member (.number (Number.ofInt (-2))) "it's") (.not (.ident "a"))
    let e' : Expr :=
      .binary .sub (.index (.number (Number.ofInt (-2))) (.string "it's")) (.not (.ident "a"))
    e.Readable ∧ e'.Readable ∧ e.render = e'.render ∧ e.term = e'.term ∧
      Grammar.read e.render = some e.term := by
  intro e e'
  have ha : IsPlainName "a" := ⟨by decide, by decide⟩
  have hnum : (Number.ofInt (-2)).isFinite := by decide
  have h : e.Readable := ⟨⟨hnum, fun hname => absurd hname (by decide)⟩, ha⟩
  have h' : e'.Readable := ⟨⟨hnum, trivial⟩, ha⟩
  have heq : e.render = e'.render := by decide +kernel
  exact ⟨h, h', heq, read_render.2 e e' h h' heq, read_render.1 e h⟩

end Expr

end ChartCompiler
