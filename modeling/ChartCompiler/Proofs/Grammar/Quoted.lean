import ChartCompiler.Proofs.Grammar.Scan
import Mathlib.Data.List.Basic

/-! String literals say themselves where they end. What follows a literal is never read as part of
it, and no part of its content is taken for its end: cut off before its last quote, a literal is
none. -/

namespace ChartCompiler.Grammar

/-- Reads a string literal from the front of a text, and gives what it denotes and what follows it.
-/
def literal? : List Char → Option (List Char × List Char)
  | [] => none
  | c :: cs => if c = '\'' then unquote cs else none

def lineBreaks : List Char := ['\n', '\r', '\u2028', '\u2029']

variable {cs s rest : List Char}

theorem literal?_cons (c : Char) (cs : List Char) :
    literal? (c :: cs) = if c = '\'' then unquote cs else none := rfl

theorem unquote_escaped {e : Char} (he : e ≠ 'u') :
    unquote ('\\' :: e :: cs) = (escape? e).bind fun x =>
      (unquote cs).bind fun r => some (x :: r.1, r.2) := by
  rw [unquote]
  · rfl
  · intros
    contradiction

theorem unquote_plain {c : Char} (hquote : c ≠ '\'') (hslash : c ≠ '\\') :
    unquote (c :: cs) = (unquote cs).map fun r => (c :: r.1, r.2) := by
  rw [unquote] <;> intros <;> contradiction

/-- A literal that ends in a text ends at the same place in a longer text. -/
theorem unquote_append (h : unquote cs = some (s, rest)) (more : List Char) :
    unquote (cs ++ more) = some (s, rest ++ more) := by
  fun_induction unquote cs generalizing s rest with
  | case1 => cases h
  | case2 cs =>
    cases h
    rfl
  | case3 a b c d cs ih =>
    simp only [bind, Option.bind_eq_some_iff, pure, Option.some.injEq, Prod.mk.injEq] at h
    obtain ⟨x, hx, ⟨t, rest'⟩, ht, rfl, rfl⟩ := h
    have hmore := ih ht
    simp [unquote, hx, hmore]
  | case4 e cs _ ih =>
    simp only [bind, Option.bind_eq_some_iff, pure, Option.some.injEq, Prod.mk.injEq] at h
    obtain ⟨x, hx, ⟨t, rest'⟩, ht, rfl, rfl⟩ := h
    -- the escape was complete, so no character behind it takes part in it
    have he : e ≠ 'u' := by
      rintro rfl
      cases hx
    rw [List.cons_append, List.cons_append, unquote_escaped he, hx, ih ht]
    rfl
  | case5 c cs hquote _ hslash ih =>
    simp only [Option.map_eq_some_iff, Prod.mk.injEq] at h
    obtain ⟨⟨t, rest'⟩, ht, rfl, rfl⟩ := h
    have hc : c ≠ '\\' := by
      rintro rfl
      cases cs with
      | nil => cases ht
      | cons e cs => exact hslash e cs rfl rfl
    rw [List.cons_append, unquote_plain hquote hc, ih ht]
    rfl

theorem literal?_append (h : literal? cs = some (s, rest)) (more : List Char) :
    literal? (cs ++ more) = some (s, rest ++ more) := by
  cases cs with
  | nil => cases h
  | cons c cs =>
    rw [literal?_cons] at h
    split_ifs at h with hc
    rw [List.cons_append, literal?_cons, if_pos hc]
    exact unquote_append h more

theorem literal?_quote (s rest : List Char) : literal? (quote s ++ rest) = some (s, rest) := by
  rw [quote, List.cons_append, literal?_cons, if_pos rfl, List.append_assoc]
  exact unquote_quoteChars s

theorem not_mem_quoteChar (c : Char) : ∀ b ∈ lineBreaks, b ∉ quoteChar c := by
  unfold quoteChar
  split_ifs with hslash hquote hn hr hline hparagraph
  case neg => simp [lineBreaks, hn, hr, hline, hparagraph, eq_comm]
  all_goals simp [lineBreaks]

theorem quote_disjoint_lineBreaks (s : List Char) : lineBreaks.Disjoint (quote s) := by
  intro c hbreak hc
  have hne : c ≠ '\'' := by
    rintro rfl
    exact absurd hbreak (by decide)
  have hmem : c ∈ s.flatMap quoteChar := by simpa [quote, hne] using hc
  obtain ⟨d, -, hd⟩ := List.mem_flatMap.1 hmem
  exact not_mem_quoteChar d c hbreak hd

/-- Two texts that begin with literals are the same only with the same literal and the same rest. -/
theorem quote_append_inj {t rest' : List Char} :
    quote t ++ rest' = quote s ++ rest ↔ t = s ∧ rest' = rest := by
  constructor
  · intro h
    have hread := literal?_quote t rest'
    rw [h, literal?_quote] at hread
    cases hread
    exact ⟨rfl, rfl⟩
  · rintro ⟨rfl, rfl⟩
    rfl

/-- Before its last quote a literal does not end. -/
theorem literal?_take_quote (s : List Char) (n : Nat) :
    literal? ((quote s).take n) = if n < (quote s).length then none else some (s, []) := by
  have hwhole := literal?_quote s []
  rw [List.append_nil] at hwhole
  split_ifs with hn
  · rw [Option.eq_none_iff_forall_ne_some]
    rintro ⟨t, rest⟩ hcut
    -- what is cut off would be left over, and nothing is
    have hread := literal?_append hcut ((quote s).drop n)
    rw [List.take_append_drop, hwhole] at hread
    obtain ⟨-, hrest⟩ := Prod.mk.inj (Option.some.inj hread)
    have hdrop : (quote s).drop n = [] := (List.append_eq_nil_iff.1 hrest.symm).2
    rw [List.drop_eq_nil_iff] at hdrop
    omega
  · rw [List.take_of_length_le (by omega), hwhole]

/-- Reading a quoted text gives it back and stops right behind its literal, whatever follows. So
literals of different texts differ, also where more text follows them, and a literal ends nowhere
before its last quote. No line ends inside a literal. -/
theorem quote_delimits (s : List Char) :
    (∀ rest, literal? (quote s ++ rest) = some (s, rest)) ∧
      lineBreaks.Disjoint (quote s) ∧
      (∀ t rest rest', quote t ++ rest' = quote s ++ rest ↔ t = s ∧ rest' = rest) ∧
      (∀ t, quote t = quote s ↔ t = s) ∧
      ∀ n, literal? ((quote s).take n) = if n < (quote s).length then none else some (s, []) := by
  refine ⟨literal?_quote s, quote_disjoint_lineBreaks s, fun t rest rest' => quote_append_inj,
    fun t => ?_, literal?_take_quote s⟩
  have hnothing := @quote_append_inj s [] t []
  rwa [List.append_nil, List.append_nil, and_iff_left rfl] at hnothing

example : literal? "'it\\'s' + '\\\\'".toList = some ("it's".toList, " + '\\\\'".toList) := by rfl

end ChartCompiler.Grammar
