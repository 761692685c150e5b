import ChartCompiler.Json.Draft
import ChartCompiler.Json.Printer
import ChartCompiler.Proofs.Grammar.Digits

/-! The two texts of a value differ in their blanks only. A scanner that knows where a string
literal begins and ends, and nothing else of the grammar, drops the blanks between the literals. It
takes the indented text of a value to its compact text, whatever quotes, backslashes and blanks
stand in the strings of the value. -/

namespace ChartCompiler.Json

mutual

/-- The text without the blanks outside its string literals. -/
def withoutBlanks : List Char → List Char
  | [] => []
  | c :: cs =>
    if c = '"' then c :: insideLiteral cs
    else if isBlank c then withoutBlanks cs
    else c :: withoutBlanks cs

/-- The same from inside a literal: a backslash takes the next character with it. -/
def insideLiteral : List Char → List Char
  | [] => []
  | c :: cs => if c = '"' then c :: withoutBlanks cs
    else if c = '\\' then c :: afterBackslash cs
    else c :: insideLiteral cs

def afterBackslash : List Char → List Char
  | [] => []
  | c :: cs => c :: insideLiteral cs

end

mutual

theorem withoutBlanks_idem : ∀ cs, withoutBlanks (withoutBlanks cs) = withoutBlanks cs
  | [] => rfl
  | c :: cs => by
    rw [withoutBlanks]
    split_ifs with hq hb
    · rw [withoutBlanks, if_pos hq, insideLiteral_idem cs]
    · exact withoutBlanks_idem cs
    · rw [withoutBlanks, if_neg hq, if_neg hb, withoutBlanks_idem cs]

theorem insideLiteral_idem : ∀ cs, insideLiteral (insideLiteral cs) = insideLiteral cs
  | [] => rfl
  | c :: cs => by
    rw [insideLiteral]
    split_ifs with hq hb
    · rw [insideLiteral, if_pos hq, withoutBlanks_idem cs]
    · rw [insideLiteral, if_neg hq, if_pos hb, afterBackslash_idem cs]
    · rw [insideLiteral, if_neg hq, if_neg hb, insideLiteral_idem cs]

theorem afterBackslash_idem : ∀ cs, afterBackslash (afterBackslash cs) = afterBackslash cs
  | [] => rfl
  | c :: cs => by rw [afterBackslash, afterBackslash, insideLiteral_idem cs]

end

/-! ### The parts of a text -/

def IsDense (cs : List Char) : Prop := ∀ c ∈ cs, c ≠ '"' ∧ isBlank c = false

instance (cs : List Char) : Decidable (IsDense cs) :=
  List.decidableBAll (fun c => c ≠ '"' ∧ isBlank c = false) cs

theorem IsDense.append {cs ds : List Char} (hc : IsDense cs) (hd : IsDense ds) :
    IsDense (cs ++ ds) := by
  intro c h
  exact (List.mem_append.1 h).elim (hc c) (hd c)

theorem IsDense.of_digits {cs : List Char} (h : ∀ c ∈ cs, c.isDigit) : IsDense cs := by
  intro c hc
  have hd := h c hc
  constructor
  · rintro rfl
    cases hd
  · rw [Bool.eq_false_iff]
    intro hb
    simp only [isBlank, Bool.or_eq_true, decide_eq_true_eq, or_assoc] at hb
    rcases hb with rfl | rfl | rfl | rfl <;> cases hd

theorem IsDense.of_unsigned {cs : List Char} (h : Unsigned cs) : IsDense cs := by
  obtain ⟨whole, tail, rfl, -, hw, ht⟩ := h
  refine (IsDense.of_digits hw).append ?_
  rcases ht with rfl | ⟨ds, rfl, hd⟩
  · intro c hc
    cases hc
  · exact IsDense.append (show IsDense ['.'] by decide) (.of_digits hd)

theorem signText_dense (negative : Bool) : IsDense (Number.signText negative) := by
  cases negative <;> decide

theorem toString_int_dense (i : Int) : IsDense (toString i).toList := by
  rw [toString_int]
  exact (signText_dense _).append (.of_digits (toDigits_isDigit _))

theorem scientific_dense (d : Decimal) : IsDense d.scientific := by
  have hdigits := toDigits_isDigit d.digits
  have hpower : IsDense ('e' :: (if d.leadingExponent < 0 then '-' else '+') ::
      Nat.toDigits 10 d.leadingExponent.natAbs) := by
    have hsign : IsDense ['e', if d.leadingExponent < 0 then '-' else '+'] := by
      split_ifs <;> decide
    exact hsign.append (.of_digits (toDigits_isDigit _))
  unfold Decimal.scientific
  dsimp only
  split
  · next first second rest hd =>
    rw [hd] at hdigits
    have hfirst : IsDense [first] := .of_digits fun c hc => hdigits c (by simp_all)
    have hrest : IsDense (second :: rest) := .of_digits fun c hc => hdigits c (by simp_all)
    exact hfirst.append ((IsDense.append (show IsDense ['.'] by decide) hrest).append hpower)
  · exact (IsDense.of_digits hdigits).append hpower

theorem literal_dense (x : Number) : IsDense x.literal.toList := by
  cases x with
  | nan => decide
  | infinite => exact (by decide : IsDense "null".toList)
  | finite s m e =>
    simp only [Number.literal, String.toList_ofList]
    refine (signText_dense s).append ?_
    split_ifs
    · exact (IsDense.of_unsigned (Decimal.positional_unsigned _)).append (by decide)
    · exact (IsDense.of_unsigned (Decimal.positional_unsigned _)).append (by decide)
    · exact scientific_dense _

theorem withoutBlanks_cons {c : Char} (h : IsDense [c]) (rest : List Char) :
    withoutBlanks (c :: rest) = c :: withoutBlanks rest := by
  obtain ⟨hq, hb⟩ := h c (by simp)
  rw [withoutBlanks, if_neg hq, hb]
  rfl

theorem withoutBlanks_dense {cs : List Char} (h : IsDense cs) (rest : List Char) :
    withoutBlanks (cs ++ rest) = cs ++ withoutBlanks rest := by
  induction cs with
  | nil => rfl
  | cons c cs ih =>
    have hc : IsDense [c] := fun d hd => h d (List.mem_cons.2 (.inl (List.mem_singleton.1 hd)))
    rw [List.cons_append, withoutBlanks_cons hc, ih fun d hd => h d (List.mem_cons_of_mem c hd),
      List.cons_append]

theorem withoutBlanks_space (rest : List Char) :
    withoutBlanks (' ' :: rest) = withoutBlanks rest := rfl

theorem withoutBlanks_lineBreak (depth : Nat) (rest : List Char) :
    withoutBlanks (lineBreak depth ++ rest) = withoutBlanks rest := by
  have hspaces : ∀ n, withoutBlanks (List.replicate n ' ' ++ rest) = withoutBlanks rest := by
    intro n
    induction n with
    | zero => rfl
    | succ n ih => simpa [List.replicate_succ, withoutBlanks, isBlank] using ih
  simpa [lineBreak, withoutBlanks, isBlank] using hspaces (2 * depth)

theorem hexDigit_ne {n : Nat} (h : n < 16) : hexDigit n ≠ '"' ∧ hexDigit n ≠ '\\' := by
  revert n
  decide

/-- A literal is not left before its end: a quote inside stands behind a backslash. -/
theorem insideLiteral_escaped (c : Char) (rest : List Char) :
    insideLiteral (escaped c ++ rest) = escaped c ++ insideLiteral rest := by
  unfold escaped
  split_ifs with hq hs
  case pos | pos | pos | pos | pos | pos | pos => rfl
  case pos hlow =>
    obtain ⟨hq', hs'⟩ := hexDigit_ne (n := c.toNat / 16) (by omega)
    obtain ⟨hq'', hs''⟩ := hexDigit_ne (n := c.toNat % 16) (by omega)
    simp [insideLiteral, afterBackslash, hq', hs', hq'', hs'']
  case neg => simp [insideLiteral, hq, hs]

theorem withoutBlanks_quoted (s : String) (rest : List Char) :
    withoutBlanks (quoted s ++ rest) = quoted s ++ withoutBlanks rest := by
  have hinside : ∀ cs : List Char, insideLiteral (cs.flatMap escaped ++ '"' :: rest) =
      cs.flatMap escaped ++ '"' :: withoutBlanks rest := by
    intro cs
    induction cs with
    | nil => simp [insideLiteral]
    | cons c cs ih => rw [List.flatMap_cons, List.append_assoc, insideLiteral_escaped, ih,
        List.append_assoc]
  simpa [quoted, withoutBlanks] using hinside s.toList

/-! ### Values -/

mutual

/-- The indented text of a value, whatever follows it. -/
theorem withoutBlanks_indentedChars (depth : Nat) : ∀ (j : Json) (rest : List Char),
    withoutBlanks (indentedChars depth j ++ rest) = compactChars j ++ withoutBlanks rest
  | .null, rest => by
    rw [indentedChars, compactChars]
    exact withoutBlanks_dense (by decide) rest
  | .bool b, rest => by
    rw [indentedChars, compactChars]
    exact withoutBlanks_dense (by cases b <;> decide) rest
  | .int i, rest => by
    rw [indentedChars, compactChars]
    exact withoutBlanks_dense (toString_int_dense i) rest
  | .float x, rest => by
    rw [indentedChars, compactChars]
    exact withoutBlanks_dense (literal_dense x) rest
  | .text s, rest => by
    rw [indentedChars, compactChars]
    exact withoutBlanks_quoted s rest
  | .array [], rest => by
    rw [indentedChars, compactChars]
    exact withoutBlanks_dense (by decide) rest
  | .array (j :: js), rest => by
    rw [indentedChars, compactChars]
    simp only [List.cons_append, List.append_assoc, List.nil_append]
    rw [withoutBlanks_cons (by decide), withoutBlanks_lineBreak, withoutBlanks_indentedChars,
      withoutBlanks_indentedItems, withoutBlanks_lineBreak, withoutBlanks_cons (by decide)]
  | .object [], rest => by
    rw [indentedChars, compactChars]
    exact withoutBlanks_dense (by decide) rest
  | .object ((n, v) :: ms), rest => by
    rw [indentedChars, compactChars]
    simp only [List.cons_append, List.append_assoc, List.nil_append]
    rw [withoutBlanks_cons (by decide), withoutBlanks_lineBreak, withoutBlanks_quoted,
      withoutBlanks_cons (by decide), withoutBlanks_space, withoutBlanks_indentedChars,
      withoutBlanks_indentedMembers, withoutBlanks_lineBreak, withoutBlanks_cons (by decide)]

theorem withoutBlanks_indentedItems (depth : Nat) : ∀ (js : List Json) (rest : List Char),
    withoutBlanks (indentedItems depth js ++ rest) = compactItems js ++ withoutBlanks rest
  | [], rest => rfl
  | j :: js, rest => by
    rw [indentedItems, compactItems]
    simp only [List.cons_append, List.append_assoc]
    rw [withoutBlanks_cons (by decide), withoutBlanks_lineBreak, withoutBlanks_indentedChars,
      withoutBlanks_indentedItems]

theorem withoutBlanks_indentedMembers (depth : Nat) : ∀ (ms : List (String × Json))
    (rest : List Char),
    withoutBlanks (indentedMembers depth ms ++ rest) = compactMembers ms ++ withoutBlanks rest
  | [], rest => rfl
  | (n, v) :: ms, rest => by
    rw [indentedMembers, compactMembers]
    simp only [List.cons_append, List.append_assoc]
    rw [withoutBlanks_cons (by decide), withoutBlanks_lineBreak, withoutBlanks_quoted,
      withoutBlanks_cons (by decide), withoutBlanks_space, withoutBlanks_indentedChars,
      withoutBlanks_indentedMembers]

end

/-- Without its blanks, the indented text is the compact one. -/
theorem withoutBlanks_indented (j : Json) :
    withoutBlanks j.indented.toList = j.compact.toList := by
  simpa [indented, compact, withoutBlanks] using withoutBlanks_indentedChars 0 j []

/-- The compact text has no blank to lose. -/
theorem withoutBlanks_compact (j : Json) :
    withoutBlanks j.compact.toList = j.compact.toList := by
  rw [← withoutBlanks_indented, withoutBlanks_idem]

end ChartCompiler.Json
