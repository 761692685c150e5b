import ChartCompiler.Proofs.Grammar.Digits
import ChartCompiler.Proofs.Grammar.Reader

/-! How the printed pieces of an expression fall into tokens: names, numbers, string literals and
symbols, each whatever follows it, as long as that cannot be read as part of it. -/

namespace ChartCompiler.Grammar

def Apart (p : Char → Bool) (cs : List Char) : Prop := ∀ c ∈ cs.head?, p c = false

theorem Apart.nil (p : Char → Bool) : Apart p [] := by simp [Apart]

theorem Apart.cons {p : Char → Bool} {c : Char} {cs : List Char} (h : p c = false) :
    Apart p (c :: cs) := by simpa [Apart] using h

theorem Apart.mono {p q : Char → Bool} {cs : List Char} (h : Apart q cs)
    (hpq : ∀ c, p c → q c) : Apart p cs := by
  intro c hc
  have := h c hc
  cases hp : p c
  · rfl
  · rw [hpq c hp] at this
    cases this

/-- A run of a class ends where the class does. -/
theorem takeWhile_append_apart {p : Char → Bool} {cs rest : List Char} (h : ∀ c ∈ cs, p c)
    (hr : Apart p rest) : (cs ++ rest).takeWhile p = cs := by
  rw [List.takeWhile_append_of_pos h]
  cases rest with
  | nil => simp
  | cons c rest =>
    have hc : p c = false := hr c (by simp)
    simp [hc]

theorem dropWhile_append_apart {p : Char → Bool} {cs rest : List Char} (h : ∀ c ∈ cs, p c)
    (hr : Apart p rest) : (cs ++ rest).dropWhile p = rest := by
  rw [List.dropWhile_append_of_pos h]
  cases rest with
  | nil => rfl
  | cons c rest =>
    have hc : p c = false := hr c (by simp)
    simp [hc]

/-- A text begins with tokens, and the rest of its tokens are those of what follows. -/
def Splits (cs : List Char) (ts : List Token) (rest : List Char) : Prop :=
  tokens? cs = (tokens? rest).map (ts ++ ·)

namespace Splits

theorem refl (cs : List Char) : Splits cs [] cs := by simp [Splits]

theorem trans {a b c : List Char} {ts us : List Token} (h : Splits a ts b) (h' : Splits b us c) :
    Splits a (ts ++ us) c := by
  unfold Splits at *
  rw [h, h', Option.map_map]
  congr 1
  funext vs
  simp

theorem next {cs rest : List Char} {t : Token} (h : next? cs = some (t, rest)) :
    Splits cs [t] rest := tokens?_of_next? h

theorem space (cs : List Char) : Splits (' ' :: cs) [] cs := by
  simp [Splits, tokens?_space]

/-- A token in front of a text that begins with tokens. -/
theorem cons {a b c : List Char} {t : Token} {ts : List Token} (h : next? a = some (t, b))
    (h' : Splits b ts c) : Splits a (t :: ts) c := (next h).trans h'

end Splits

section pieces

variable {rest : List Char}

theorem isDigit_isNameChar (c : Char) (h : c.isDigit) : isNameChar c := by
  simp [isNameChar, Char.isAlphanum, h]

theorem isDigit_not_isNameStart {c : Char} (h : c.isDigit) : isNameStart c = false := by
  obtain ⟨hlow, hhigh⟩ : 48 ≤ c.toNat ∧ c.toNat ≤ 57 := Char.isDigit_iff_toNat.1 h
  have hupper : ¬c.isUpper := by
    intro hc
    have : 65 ≤ c.toNat := (of_decide_eq_true hc).1
    omega
  have hlower : ¬c.isLower := by
    intro hc
    have : 97 ≤ c.toNat := of_decide_eq_true (Bool.and_eq_true_iff.1 hc).1
    omega
  have halpha : c.isAlpha = (c.isUpper || c.isLower) := rfl
  have hne : c ≠ '_' ∧ c ≠ '$' := by
    constructor <;> rintro rfl <;> revert h <;> decide
  simp [isNameStart, halpha, hupper, hlower, hne]

theorem next?_word {w : List Char} (hw : isName w) (hr : Apart isNameChar rest) :
    next? (w ++ rest) = some (.word w, rest) := by
  cases w with
  | nil => cases hw
  | cons c cs =>
    simp only [isName, Bool.and_eq_true, List.all_eq_true] at hw
    rw [List.cons_append, next?, if_pos hw.1, takeWhile_append_apart hw.2 hr,
      dropWhile_append_apart hw.2 hr]

theorem next?_number {ds : List Char} (hd : Unsigned ds) (hr : Apart isNameChar rest)
    (hp : Apart (· == '.') rest) : next? (ds ++ rest) = some (.number ds, rest) := by
  obtain ⟨c, cs, hc, hcd⟩ := hd.head
  have hn : next? (ds ++ rest) = number? (ds ++ rest) := by
    rw [hc, List.cons_append, next?, isDigit_not_isNameStart hcd, hcd]
    rfl
  have hdig : Apart Char.isDigit rest := hr.mono isDigit_isNameChar
  have hend : rest.head?.any isNameChar = false := by
    cases rest with
    | nil => rfl
    | cons c rest => exact hr c (by simp)
  obtain ⟨whole, tail, rfl, -, hw, ht⟩ := hd
  rw [hn]
  simp only [number?, List.append_assoc]
  rcases ht with rfl | ⟨ds, rfl, hds⟩
  · rw [List.nil_append, takeWhile_append_apart hw hdig, dropWhile_append_apart hw hdig]
    have hf : fraction rest = ([], rest) := by
      unfold fraction
      split
      · exact absurd (hp '.' (by simp)) (by decide)
      · rfl
    simp [hf, hend]
  · have hpoint : Apart Char.isDigit ('.' :: ds ++ rest) := .cons rfl
    rw [takeWhile_append_apart hw hpoint, dropWhile_append_apart hw hpoint]
    simp only [List.cons_append, fraction, takeWhile_append_apart hds hdig,
      dropWhile_append_apart hds hdig, hend]
    rfl

theorem unquote_quoteChar (c : Char) (cs : List Char) :
    unquote (quoteChar c ++ cs) = (unquote cs).map fun (s, rest) => (c :: s, rest) := by
  unfold quoteChar
  split_ifs with h1 h2 h3 h4 h5 h6
  · subst c
    cases h : unquote cs <;> simp [unquote, escape?, h]
  · subst c
    cases h : unquote cs <;> simp [unquote, escape?, h]
  · subst c
    cases h : unquote cs <;> simp [unquote, escape?, h]
  · subst c
    cases h : unquote cs <;> simp [unquote, escape?, h]
  · subst c
    have hx : hexChar? '2' '0' '2' '8' = some '\u2028' := rfl
    cases h : unquote cs <;> simp [unquote, hx, h]
  · subst c
    have hx : hexChar? '2' '0' '2' '9' = some '\u2029' := rfl
    cases h : unquote cs <;> simp [unquote, hx, h]
  · simp [unquote, h1]

/-- A string literal ends at its own closing quote, whatever it holds. -/
theorem unquote_quoteChars (s : List Char) :
    unquote (s.flatMap quoteChar ++ '\'' :: rest) = some (s, rest) := by
  induction s with
  | nil => simp [unquote]
  | cons c s ih => rw [List.flatMap_cons, List.append_assoc, unquote_quoteChar, ih, Option.map_some]

theorem next?_string (s : List Char) : next? (quote s ++ rest) = some (.string s, rest) := by
  simp [next?, quote, isNameStart, unquote_quoteChars]

/-- An exclamation mark is a token of its own unless an inequality begins with it. -/
theorem next?_bang {cs : List Char} (h : Apart (· == '=') cs) :
    next? ('!' :: cs) = some (.bang, cs) := by
  cases cs with
  | nil => rfl
  | cons c cs =>
    have hc : c ≠ '=' := by simpa using h c (by simp)
    simp [next?, isNameStart, symbol?, symbols, hc.symm]
    rfl

/-- An operator with a space behind it. -/
theorem next?_op (o : Operator) :
    next? (o.symbol.toList ++ ' ' :: rest) = some (.op o, ' ' :: rest) := by
  cases o <;> rfl

end pieces

end ChartCompiler.Grammar
