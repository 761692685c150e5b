import ChartCompiler.Proofs.Grammar.Scan

/-! The tokens of a printed expression. They are those of its parts with the parentheses that the
printer puts around them, for every expression whose names are names and whose numbers are finite;
only a name behind a bare number would be taken for its fraction. -/

namespace ChartCompiler

open Grammar

def IsPlainName (n : String) : Prop := isName n.toList ∧ n ∉ reserved

namespace Expr

def IsBareNumber (e : Expr) : Prop := ∃ v, e = .number v ∧ v.isNegative = false

mutual

/-- Names are plain, numbers finite, and no name stands behind the dot of a bare number. -/
def Readable : Expr → Prop
  | .ident n => IsPlainName n
  | .member e p => Readable e ∧ (isName p.toList → ¬e.IsBareNumber)
  | .index e i => Readable e ∧ Readable i
  | .number v => v.isFinite
  | .string _ | .bool _ | .null => True
  | .not e => Readable e
  | .binary _ l r => Readable l ∧ Readable r
  | .call n args => IsPlainName n ∧ AllReadable args

def AllReadable : List Expr → Prop
  | [] => True
  | e :: es => Readable e ∧ AllReadable es

end

def enclose (wanted : Bool) (ts : List Token) : List Token :=
  if wanted then .leftParen :: (ts ++ [.rightParen]) else ts

def numberTokens : List Char → List Token
  | '-' :: ds => [.op .sub, .number ds]
  | ds => [.number ds]

mutual

def tokens : Expr → List Token
  | .ident n => [.word n.toList]
  | .member e p =>
    enclose (e.precedence < atomPrecedence) (tokens e) ++
      if isName p.toList then [.dot, .word p.toList]
      else [.leftBracket, .string p.toList, .rightBracket]
  | .index e i =>
    enclose (e.precedence < atomPrecedence) (tokens e) ++
      .leftBracket :: (tokens i ++ [.rightBracket])
  | .number v => numberTokens v.exprText
  | .string s => [.string s.toList]
  | .bool b => [.word (if b then "true".toList else "false".toList)]
  | .null => [.word "null".toList]
  | .not e => .bang :: enclose (e.precedence < unaryPrecedence) (tokens e)
  | .binary op l r =>
    enclose (l.precedence < op.precedence) (tokens l) ++
      .op op :: enclose (r.precedence ≤ op.precedence) (tokens r)
  | .call n args => .word n.toList :: .leftParen :: (argTokens args ++ [.rightParen])

def argTokens : List Expr → List Token
  | [] => []
  | e :: es => tokens e ++ moreArgTokens es

def moreArgTokens : List Expr → List Token
  | [] => []
  | e :: es => .comma :: (tokens e ++ moreArgTokens es)

end

/-- What may stand behind a printed expression without being read as part of it: nothing that goes
on a name, and a point only behind what binds most tightly and is no number. -/
structure Precedes (e : Expr) (rest : List Char) : Prop where
  apart : Apart isNameChar rest
  point : ¬Apart (· == '.') rest → e.precedence = atomPrecedence ∧ ¬e.IsBareNumber

theorem Precedes.of_cons {e : Expr} {c : Char} {rest : List Char} (hc : isNameChar c = false)
    (hp : c ≠ '.') : e.Precedes (c :: rest) :=
  ⟨.cons hc, fun h => absurd (.cons (by simpa using hp)) h⟩

theorem Precedes.nil (e : Expr) : e.Precedes [] := ⟨.nil _, fun h => absurd (.nil _) h⟩

/-- What needs parentheses in front of a point has none behind it. -/
theorem Precedes.no_point {e : Expr} {rest : List Char} (h : e.Precedes rest)
    (he : e.precedence = atomPrecedence → e.IsBareNumber) : Apart (· == '.') rest := by
  by_cases hp : Apart (· == '.') rest
  · exact hp
  · obtain ⟨hprec, hnum⟩ := h.point hp
    exact absurd (he hprec) hnum

end Expr

def Begins (cs : List Char) : Prop := ∃ c ds, cs = c :: ds ∧ c ≠ '='

namespace Begins

variable {cs : List Char}

theorem cons {c : Char} (h : c ≠ '=') : Begins (c :: cs) := ⟨c, cs, rfl, h⟩

theorem append (h : Begins cs) (ds : List Char) : Begins (cs ++ ds) := by
  obtain ⟨c, cs, rfl, hc⟩ := h
  exact cons hc

theorem parens (h : Begins cs) (wanted : Bool) : Begins (Expr.parens wanted cs) := by
  cases wanted
  · exact h
  · exact cons (by decide)

theorem of_isName (h : isName cs) : Begins cs := by
  cases cs with
  | nil => cases h
  | cons c cs =>
    refine cons ?_
    rintro rfl
    cases h

theorem of_unsigned (h : Unsigned cs) : Begins cs := by
  obtain ⟨c, cs, rfl, hc⟩ := h.head
  refine cons ?_
  rintro rfl
  cases hc

theorem apart (h : Begins cs) : Apart (· == '=') cs := by
  obtain ⟨c, cs, rfl, hc⟩ := h
  exact .cons (by simpa using hc)

end Begins

namespace Expr

theorem chars_begins : ∀ e : Expr, e.Readable → Begins e.chars
  | .ident n, h => .of_isName h.1
  | .member e p, h => by
    rw [chars]
    exact ((chars_begins e h.1).parens _).append _
  | .index e i, h => by
    rw [chars]
    exact ((chars_begins e h.1).parens _).append _
  | .number v, h => by
    obtain ⟨ds, hd, htext⟩ := Number.exprText_unsigned h
    rw [chars, htext]
    cases v.isNegative
    · exact .of_unsigned hd
    · exact .cons (by decide)
  | .string s, _ => by
    rw [chars]
    exact .cons (by decide)
  | .bool b, _ => by
    rw [chars]
    cases b <;> exact .cons (by decide)
  | .null, _ => by
    rw [chars]
    exact .cons (by decide)
  | .not e, _ => by
    rw [chars]
    exact .cons (by decide)
  | .binary op l r, h => by
    rw [chars]
    exact ((chars_begins l h.1).parens _).append _
  | .call n args, h => by
    rw [chars]
    exact (Begins.of_isName h.1.1).append _

theorem numberTokens_unsigned {ds : List Char} (h : Unsigned ds) :
    numberTokens ds = [.number ds] := by
  obtain ⟨c, ds, rfl, hc⟩ := h.head
  unfold numberTokens
  split
  · next heq =>
    cases heq
    cases hc
  · rfl

theorem precedence_le_atom (e : Expr) : e.precedence ≤ atomPrecedence := by
  cases e <;> simp only [precedence, unaryPrecedence, atomPrecedence]
  case number v => cases v.isNegative <;> decide
  case binary op l r => cases op <;> decide
  all_goals decide

theorem Precedes.of_apart {e : Expr} {rest : List Char} (h : Apart isNameChar rest)
    (hp : Apart (· == '.') rest) : e.Precedes rest :=
  ⟨h, fun hn => absurd hp hn⟩

/-- An operand in its parentheses, or without them before what may stand behind it. -/
theorem splits_operand {e : Expr} {wanted : Bool} {rest : List Char}
    (ih : ∀ rest, e.Precedes rest → Splits (e.chars ++ rest) e.tokens rest)
    (h : wanted = false → e.Precedes rest) :
    Splits (parens wanted e.chars ++ rest) (enclose wanted e.tokens) rest := by
  cases wanted with
  | false => exact ih rest (h rfl)
  | true =>
    have hin := ih (')' :: rest) (.of_cons (by decide) (by decide))
    have hclose : next? (')' :: rest) = some (.rightParen, rest) := rfl
    have := Splits.cons (a := '(' :: (e.chars ++ ')' :: rest)) rfl (hin.trans (.next hclose))
    simpa [parens, enclose] using this

theorem precedes_moreArgs (es : List Expr) (e : Expr) (rest : List Char) :
    e.Precedes (charsMoreArgs es ++ ')' :: rest) := by
  cases es <;> exact .of_cons (by decide) (by decide)

mutual

/-- A printed expression falls into its tokens, whatever follows that is no part of it. -/
theorem splits_chars : ∀ (e : Expr), e.Readable → ∀ rest, e.Precedes rest →
    Splits (e.chars ++ rest) e.tokens rest
  | .ident n, h, rest, hr => by
    rw [chars, tokens]
    exact .next (next?_word h.1 hr.apart)
  | .member e p, h, rest, hr => by
    rw [chars, tokens, List.append_assoc]
    have ih := splits_chars e h.1
    split_ifs with hp
    · refine (splits_operand ih fun hw => ⟨.cons (by decide), fun _ => ?_⟩).trans ?_
      · have := precedence_le_atom e
        simp only [decide_eq_false_iff_not] at hw
        exact ⟨by omega, h.2 hp⟩
      · exact .cons rfl (.next (next?_word hp hr.apart))
    · have hkey : Splits ('[' :: (quote p.toList ++ [']']) ++ rest)
          [.leftBracket, .string p.toList, .rightBracket] rest := by
        rw [List.cons_append, List.append_assoc]
        exact .cons rfl (.cons (next?_string _) (.next rfl))
      exact (splits_operand ih fun _ => .of_cons (by decide) (by decide)).trans hkey
  | .index e i, h, rest, hr => by
    rw [chars, tokens, List.append_assoc, List.cons_append, List.append_assoc]
    refine (splits_operand (splits_chars e h.1) fun _ => .of_cons (by decide) (by decide)).trans ?_
    have hi := splits_chars i h.2 (']' :: rest) (.of_cons (by decide) (by decide))
    exact .cons rfl (hi.trans (.next rfl))
  | .number v, h, rest, hr => by
    obtain ⟨ds, hd, htext⟩ := Number.exprText_unsigned h
    have hpoint : Apart (· == '.') rest := by
      refine hr.no_point fun hprec => ⟨v, rfl, ?_⟩
      cases hv : v.isNegative
      · rfl
      · simp [precedence, hv, unaryPrecedence, atomPrecedence] at hprec
    have hnum := Splits.next (next?_number hd hr.apart hpoint)
    rw [chars, tokens, htext]
    cases v.isNegative with
    | true => exact .cons rfl hnum
    | false =>
      simpa [Number.signText, numberTokens_unsigned hd] using hnum
  | .string s, _, rest, _ => by
    rw [chars, tokens]
    exact .next (next?_string _)
  | .bool b, _, rest, hr => by
    rw [chars, tokens]
    cases b <;> exact .next (next?_word (by decide) hr.apart)
  | .null, _, rest, hr => by
    rw [chars, tokens]
    exact .next (next?_word (by decide) hr.apart)
  | .not e, h, rest, hr => by
    rw [chars, tokens, List.cons_append]
    have hpoint : Apart (· == '.') rest := hr.no_point fun hp =>
      absurd hp (show unaryPrecedence ≠ atomPrecedence by decide)
    have hbang := next?_bang (((chars_begins e h).parens (e.precedence < unaryPrecedence)).append
      rest).apart
    exact .cons hbang (splits_operand (splits_chars e h) fun _ => .of_apart hr.apart hpoint)
  | .binary op l r, h, rest, hr => by
    rw [chars, tokens, List.append_assoc, List.cons_append, List.append_assoc, List.cons_append]
    have hpoint : Apart (· == '.') rest := by
      refine hr.no_point fun hp => ?_
      cases op <;> cases hp
    refine (splits_operand (splits_chars l h.1) fun _ => .of_cons (by decide) (by decide)).trans ?_
    have hright : Splits (parens (r.precedence ≤ op.precedence) r.chars ++ rest)
        (enclose (r.precedence ≤ op.precedence) r.tokens) rest :=
      splits_operand (splits_chars r h.2) fun _ => .of_apart hr.apart hpoint
    exact (Splits.space _).trans (.cons (next?_op op) ((Splits.space _).trans hright))
  | .call n args, h, rest, _ => by
    rw [chars, tokens, List.append_assoc, List.cons_append, List.append_assoc]
    exact .cons (next?_word h.1.1 (.cons (by decide)))
      (.cons rfl ((splits_args args h.2 rest).trans (.next rfl)))

theorem splits_args : ∀ (es : List Expr), AllReadable es → ∀ rest,
    Splits (charsArgs es ++ ')' :: rest) (argTokens es) (')' :: rest)
  | [], _, rest => .refl _
  | e :: es, h, rest => by
    rw [charsArgs, argTokens, List.append_assoc]
    exact (splits_chars e h.1 _ (precedes_moreArgs es e rest)).trans (splits_moreArgs es h.2 rest)

theorem splits_moreArgs : ∀ (es : List Expr), AllReadable es → ∀ rest,
    Splits (charsMoreArgs es ++ ')' :: rest) (moreArgTokens es) (')' :: rest)
  | [], _, rest => .refl _
  | e :: es, h, rest => by
    rw [charsMoreArgs, moreArgTokens, List.cons_append, List.cons_append, List.append_assoc]
    have he := splits_chars e h.1 _ (precedes_moreArgs es e rest)
    exact .cons rfl ((Splits.space _).trans (he.trans (splits_moreArgs es h.2 rest)))

end

end Expr

end ChartCompiler
