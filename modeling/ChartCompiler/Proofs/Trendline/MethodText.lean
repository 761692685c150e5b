import ChartCompiler.Proofs.Grammar.Digits
import ChartCompiler.Trendline.Method
import Mathlib.Data.List.Induction
import Mathlib.Data.Nat.Digits.Defs
import Mathlib.Logic.Function.Basic

/-! The texts that write a method. A grammar says which they are and which method each of them
writes; the reader takes these texts and no others, and what it says of the rest depends on how they
begin. A number may have a plus sign and leading zeros, so a method has many texts. One of them is
printed: the one with neither. -/

namespace ChartCompiler

def decimalValue (cs : List Char) : Nat :=
  Nat.ofDigits 10 (cs.reverse.map fun c => c.toNat - '0'.toNat)

/-- Decimal digits, at least one, that denote a number. -/
structure IsNumeral (cs : List Char) (n : Nat) : Prop where
  ne_nil : cs ≠ []
  digits : ∀ c ∈ cs, c.isDigit
  denotes : decimalValue cs = n

theorem digit_lt_ten {c : Char} (h : c.isDigit) : c.toNat - '0'.toNat < 10 := by
  obtain ⟨-, hhigh⟩ : 48 ≤ c.toNat ∧ c.toNat ≤ 57 := Char.isDigit_iff_toNat.1 h
  have hzero : '0'.toNat = 48 := rfl
  omega

theorem digitChar_of_isDigit {c : Char} (h : c.isDigit) :
    Nat.digitChar (c.toNat - '0'.toNat) = c := by
  obtain ⟨hlow, -⟩ : 48 ≤ c.toNat ∧ c.toNat ≤ 57 := Char.isDigit_iff_toNat.1 h
  have hzero : '0'.toNat = 48 := rfl
  apply Char.toNat_inj.1
  rw [Nat.toNat_digitChar_of_lt_ten (digit_lt_ten h)]
  omega

/-- The last digit counts once, and the digits before it ten times what they denote. -/
theorem decimalValue_append (cs : List Char) (c : Char) :
    decimalValue (cs ++ [c]) = 10 * decimalValue cs + (c.toNat - '0'.toNat) := by
  rw [decimalValue, decimalValue, List.reverse_append, List.reverse_singleton,
    List.singleton_append, List.map_cons, Nat.ofDigits_cons, Nat.add_comm]

namespace IsNumeral

variable {cs : List Char} {n : Nat}

theorem toDigits (n : Nat) : IsNumeral (Nat.toDigits 10 n) n where
  ne_nil := Nat.toDigits_ne_nil
  digits := toDigits_isDigit n
  denotes := by
    induction n using Nat.strongRecOn with
    | ind n ih =>
      by_cases hn : n < 10
      · rw [Nat.toDigits_of_lt_base hn]
        have hvalue := Nat.toNat_digitChar_sub_48_of_lt_ten hn
        simpa [decimalValue] using hvalue
      · have hdigit : n % 10 < 10 := Nat.mod_lt _ (by decide)
        have hvalue : (n % 10).digitChar.toNat - '0'.toNat = n % 10 :=
          Nat.toNat_digitChar_sub_48_of_lt_ten hdigit
        rw [Nat.toDigits_of_base_le (by decide) (by omega), decimalValue_append,
          ih (n / 10) (by omega), hvalue]
        omega

/-- A numeral that does not begin with a zero is how its number is printed. -/
theorem eq_toDigits (h : IsNumeral cs n) (hzero : cs.head? ≠ some '0') :
    cs = Nat.toDigits 10 n := by
  obtain ⟨hne, hdigits, rfl⟩ := h
  induction cs using List.reverseRecOn with
  | nil => exact absurd rfl hne
  | append_singleton ds d ih =>
    have hd : d.isDigit := hdigits d (by simp)
    have hlt := digit_lt_ten hd
    have hlast : Nat.toDigits 10 (d.toNat - '0'.toNat) = [d] := by
      rw [Nat.toDigits_of_lt_base hlt, digitChar_of_isDigit hd]
    rw [decimalValue_append]
    by_cases hds : ds = []
    · subst hds
      simpa [decimalValue] using hlast.symm
    · have hhead : (ds ++ [d]).head? = ds.head? := by
        cases ds with
        | nil => exact absurd rfl hds
        | cons c cs => rfl
      rw [hhead] at hzero
      have hfirst := ih hzero hds fun c hc => hdigits c (by simp [hc])
      -- what stands before the last digit is printed with no leading zero, so it is not zero
      have hpos : 0 < decimalValue ds := by
        refine Nat.pos_of_ne_zero fun hval => hzero ?_
        rw [hfirst, hval]
        rfl
      rw [← Nat.toDigits_append_toDigits (by decide) hpos hlt, hlast, ← hfirst]

end IsNumeral

inductive PositiveCount.Spells (n : PositiveCount) : List Char → Prop
  | bare {cs : List Char} (h : IsNumeral cs n.val) : n.Spells cs
  | signed {cs : List Char} (h : IsNumeral cs n.val) : n.Spells ('+' :: cs)

inductive FitMethod.Spells : FitMethod → String → Prop
  | average : Spells .average "average"
  | linear : Spells .linear "linear"
  | quadratic : Spells .quadratic "quadratic"
  | polynomial {n : PositiveCount} {s : String} (h : n.Spells s.toList) :
    Spells (.polynomial n) ("polynomial-" ++ s)
  | exponential : Spells .exponential "exponential"
  | logarithmic : Spells .logarithmic "logarithmic"
  | power : Spells .power "power"
  | movingAverage {n : PositiveCount} {s : String} (h : n.Spells s.toList) :
    Spells (.movingAverage n) ("movingAverage-" ++ s)

/-- What is said of a text that writes no method: the error names the whole text, and its kind is
decided by how the text begins. -/
def BuildError.Blames (s : String) : BuildError → Prop
  | .badPolynomialOrder t => t = s ∧ ∃ rest, s = "polynomial-" ++ rest
  | .badMovingAverageWidth t => t = s ∧ ∃ rest, s = "movingAverage-" ++ rest
  | .unknownMethod t =>
    t = s ∧ ∀ rest, s ≠ "polynomial-" ++ rest ∧ s ≠ "movingAverage-" ++ rest

namespace FitMethod

theorem readDigits_eq_some_iff {cs : List Char} {n : Nat} :
    readDigits cs = some n ↔ IsNumeral cs n := by
  have hfold : cs.foldl (fun n c => n * 10 + (c.toNat - 48)) 0 = decimalValue cs := by
    induction cs using List.reverseRecOn with
    | nil => rfl
    | append_singleton ds d ih =>
      rw [decimalValue_append, ← ih, List.foldl_append, List.foldl_cons, List.foldl_nil,
        Nat.mul_comm]
      rfl
  cases cs with
  | nil => exact ⟨nofun, fun h => absurd rfl h.ne_nil⟩
  | cons c cs =>
    rw [readDigits, hfold]
    swap
    · exact List.cons_ne_nil c cs
    constructor
    · intro h
      split_ifs at h with hdigits
      exact ⟨List.cons_ne_nil c cs, List.all_eq_true.1 hdigits, Option.some.inj h⟩
    · rintro ⟨-, hdigits, rfl⟩
      rw [if_pos (List.all_eq_true.2 hdigits)]

/-- A number in the range of counts is a count. -/
theorem dite_eq_some_iff {k : Nat} {n : PositiveCount} :
    (if h : 0 < k ∧ k < Nat.pow 2 32 then some (PositiveCount.mk k h.1 h.2) else none) = some n ↔
      k = n.val := by
  obtain ⟨v, hpos, hlt⟩ := n
  split_ifs with hk
  · simp
  · simp only [false_iff]
    rintro rfl
    exact hk ⟨hpos, hlt⟩

theorem readCount_signed {cs : List Char} {n : PositiveCount} :
    readCount ('+' :: cs) = some n ↔ readDigits cs = some n.val := by
  rw [readCount]
  cases readDigits cs with
  | none => simp
  | some k => exact dite_eq_some_iff.trans Option.some_inj.symm

theorem readCount_bare {cs : List Char} {n : PositiveCount} (h : cs.head? ≠ some '+') :
    readCount cs = some n ↔ readDigits cs = some n.val := by
  rw [readCount]
  · cases readDigits cs with
    | none => simp
    | some k => exact dite_eq_some_iff.trans Option.some_inj.symm
  · rintro cs rfl
    exact h rfl

theorem readCount_eq_some_iff {cs : List Char} {n : PositiveCount} :
    readCount cs = some n ↔ n.Spells cs := by
  by_cases hsign : cs.head? = some '+'
  · obtain ⟨ds, rfl⟩ := List.head?_eq_some_iff.1 hsign
    rw [readCount_signed, readDigits_eq_some_iff]
    refine ⟨.signed, fun h => ?_⟩
    cases h with
    | bare h => exact absurd (h.digits '+' List.mem_cons_self) (by decide)
    | signed h => exact h
  · rw [readCount_bare hsign, readDigits_eq_some_iff]
    refine ⟨.bare, fun h => ?_⟩
    cases h with
    | bare h => exact h
    | signed h => exact absurd rfl hsign

/-! The reader first asks how a text begins. -/

theorem after?_append (start cs : List Char) : after? start (start ++ cs) = some cs := by
  rw [after?, if_pos (List.isPrefixOf_iff_prefix.2 (List.prefix_append start cs)), List.drop_left]

theorem eq_append_of_after? {start cs rest : List Char} (h : after? start cs = some rest) :
    cs = start ++ rest := by
  rw [after?] at h
  split_ifs at h with hprefix
  obtain ⟨tail, rfl⟩ := List.isPrefixOf_iff_prefix.1 hprefix
  rw [← Option.some.inj h, List.drop_left]

theorem ofText_polynomial (s : String) :
    ofText ("polynomial-" ++ s) = ((readCount s.toList).map .polynomial).elim
      (.error (.badPolynomialOrder ("polynomial-" ++ s))) .ok := by
  rw [ofText, String.toList_append, after?_append]

theorem ofText_movingAverage (s : String) :
    ofText ("movingAverage-" ++ s) = ((readCount s.toList).map .movingAverage).elim
      (.error (.badMovingAverageWidth ("movingAverage-" ++ s))) .ok := by
  have hother : after? "polynomial-".toList ("movingAverage-".toList ++ s.toList) = none := rfl
  rw [ofText, String.toList_append, hother, after?_append]

/-- A text begins like a polynomial, like a moving average, or like neither. -/
theorem text_cases (s : String) :
    (∃ rest, s = "polynomial-" ++ rest) ∨ (∃ rest, s = "movingAverage-" ++ rest) ∨
      (after? "polynomial-".toList s.toList = none ∧
        after? "movingAverage-".toList s.toList = none) := by
  have hbegins {start : String} {rest : List Char} (h : after? start.toList s.toList = some rest) :
      s = start ++ String.ofList rest := by
    apply String.toList_inj.1
    rw [eq_append_of_after? h, String.toList_append, String.toList_ofList]
  cases hp : after? "polynomial-".toList s.toList with
  | some rest => exact .inl ⟨_, hbegins hp⟩
  | none =>
    cases hm : after? "movingAverage-".toList s.toList with
    | some rest => exact .inr (.inl ⟨_, hbegins hm⟩)
    | none => exact .inr (.inr ⟨rfl, rfl⟩)

theorem ne_append_of_after? {start s : String} (h : after? start.toList s.toList = none)
    (rest : String) : s ≠ start ++ rest := by
  rintro rfl
  rw [String.toList_append, after?_append] at h
  cases h

variable {k : FitMethod} {s : String}

theorem ofText_of_spells (h : k.Spells s) : ofText s = .ok k := by
  cases h with
  | polynomial h => rw [ofText_polynomial, readCount_eq_some_iff.2 h]; rfl
  | movingAverage h => rw [ofText_movingAverage, readCount_eq_some_iff.2 h]; rfl
  | average | linear | quadratic | exponential | logarithmic | power => rfl

/-- A text that is read is in the grammar, and any other is blamed for how it begins. -/
theorem ofText_cases (s : String) :
    (∃ k, ofText s = .ok k ∧ k.Spells s) ∨ ∃ e, ofText s = .error e ∧ e.Blames s := by
  rcases text_cases s with ⟨rest, rfl⟩ | ⟨rest, rfl⟩ | ⟨hp, hm⟩
  · rw [ofText_polynomial]
    cases hn : readCount rest.toList with
    | some n => exact .inl ⟨_, rfl, .polynomial (readCount_eq_some_iff.1 hn)⟩
    | none => exact .inr ⟨_, rfl, rfl, rest, rfl⟩
  · rw [ofText_movingAverage]
    cases hn : readCount rest.toList with
    | some n => exact .inl ⟨_, rfl, .movingAverage (readCount_eq_some_iff.1 hn)⟩
    | none => exact .inr ⟨_, rfl, rfl, rest, rfl⟩
  · by_cases hword : s ∈ ["average", "linear", "quadratic", "exponential", "logarithmic", "power"]
    · refine .inl ?_
      simp only [List.mem_cons, List.not_mem_nil, or_false] at hword
      rcases hword with rfl | rfl | rfl | rfl | rfl | rfl
      · exact ⟨_, rfl, .average⟩
      · exact ⟨_, rfl, .linear⟩
      · exact ⟨_, rfl, .quadratic⟩
      · exact ⟨_, rfl, .exponential⟩
      · exact ⟨_, rfl, .logarithmic⟩
      · exact ⟨_, rfl, .power⟩
    · refine .inr ⟨.unknownMethod s, ?_, rfl, fun rest => ⟨ne_append_of_after? hp rest,
        ne_append_of_after? hm rest⟩⟩
      simp only [List.mem_cons, List.not_mem_nil, or_false, not_or] at hword
      obtain ⟨h1, h2, h3, h4, h5, h6⟩ := hword
      rw [ofText, hp, hm]
      dsimp only
      rw [if_neg h1, if_neg h2, if_neg h3, if_neg h4, if_neg h5, if_neg h6]

end FitMethod

theorem polynomial_ne_movingAverage (a b : String) :
    "polynomial-" ++ a ≠ "movingAverage-" ++ b := by
  intro h
  have hlist := congrArg String.toList h
  simp at hlist

/-- A text is blamed for one thing only. -/
theorem BuildError.Blames.unique {s : String} {e e' : BuildError} (h : e.Blames s)
    (h' : e'.Blames s) : e = e' := by
  cases e with
  | badPolynomialOrder t =>
    obtain ⟨rfl, rest, hs⟩ := h
    cases e' with
    | badPolynomialOrder t' => rw [h'.1]
    | badMovingAverageWidth t' =>
      obtain ⟨-, rest', hs'⟩ := h'
      exact absurd (hs.symm.trans hs') (polynomial_ne_movingAverage rest rest')
    | unknownMethod t' => exact absurd hs (h'.2 rest).1
  | badMovingAverageWidth t =>
    obtain ⟨rfl, rest, hs⟩ := h
    cases e' with
    | badPolynomialOrder t' =>
      obtain ⟨-, rest', hs'⟩ := h'
      exact absurd (hs'.symm.trans hs) (polynomial_ne_movingAverage rest' rest)
    | badMovingAverageWidth t' => rw [h'.1]
    | unknownMethod t' => exact absurd hs (h'.2 rest).2
  | unknownMethod t =>
    obtain ⟨rfl, hs⟩ := h
    cases e' with
    | badPolynomialOrder t' =>
      obtain ⟨-, rest, hs'⟩ := h'
      exact absurd hs' (hs rest).1
    | badMovingAverageWidth t' =>
      obtain ⟨-, rest, hs'⟩ := h'
      exact absurd hs' (hs rest).2
    | unknownMethod t' => rw [h'.1]

namespace FitMethod

variable {k : FitMethod} {s : String}

theorem ofText_eq_ok_iff : ofText s = .ok k ↔ k.Spells s := by
  refine ⟨fun h => ?_, ofText_of_spells⟩
  rcases ofText_cases s with ⟨k', hread, hk'⟩ | ⟨e, hread, -⟩
  · rw [h] at hread
    rw [Except.ok.inj hread]
    exact hk'
  · rw [h] at hread
    cases hread

theorem ofText_eq_error_iff {e : BuildError} :
    ofText s = .error e ↔ (∀ k : FitMethod, ¬k.Spells s) ∧ e.Blames s := by
  rcases ofText_cases s with ⟨k, hread, hk⟩ | ⟨e', hread, he'⟩
  · rw [hread]
    exact ⟨nofun, fun h => absurd hk (h.1 k)⟩
  · rw [hread]
    constructor
    · intro h
      refine ⟨fun k hk => ?_, Except.error.inj h ▸ he'⟩
      rw [ofText_of_spells hk] at hread
      cases hread
    · rintro ⟨-, he⟩
      rw [he.unique he']

variable (s) in
/-- The reader takes exactly the texts of the grammar, each for the method that it writes, and
blames any other text for how it begins. -/
theorem ofText_eq_iff :
    (∀ k : FitMethod, ofText s = .ok k ↔ k.Spells s) ∧
      ∀ e, ofText s = .error e ↔ (∀ k : FitMethod, ¬k.Spells s) ∧ e.Blames s :=
  ⟨fun _ => ofText_eq_ok_iff, fun _ => ofText_eq_error_iff⟩

example : ofText "movingAverage-+0004294967295" =
    .ok (.movingAverage ⟨4294967295, by decide, by decide⟩) := rfl

example : ofText "polynomial-4294967296" =
    .error (.badPolynomialOrder "polynomial-4294967296") := rfl

/-! Printing a method writes its number without a sign or leading zeros. -/

theorem spells_toText : k.Spells k.toText := by
  have hcount (n : PositiveCount) : n.Spells (toString n.val).toList := by
    rw [Nat.toString_eq_ofList_toDigits, String.toList_ofList]
    exact .bare (.toDigits n.val)
  cases k with
  | average => exact .average
  | linear => exact .linear
  | quadratic => exact .quadratic
  | polynomial n => exact .polynomial (hcount n)
  | exponential => exact .exponential
  | logarithmic => exact .logarithmic
  | power => exact .power
  | movingAverage n => exact .movingAverage (hcount n)

end FitMethod

/-- A number behind the kind of a method, if there is one, begins with neither a plus sign nor a
zero. -/
def IsCanonical (s : String) : Prop :=
  ∀ start ∈ ["polynomial-", "movingAverage-"], ∀ number : String, s = start ++ number →
    number.toList.head? ≠ some '+' ∧ number.toList.head? ≠ some '0'

/-- A count is written in the way it is printed, or with a plus sign or a zero in front. -/
theorem PositiveCount.Spells.eq_toString_iff {n : PositiveCount} {s : String}
    (h : n.Spells s.toList) :
    toString n.val = s ↔ s.toList.head? ≠ some '+' ∧ s.toList.head? ≠ some '0' := by
  rw [Nat.toString_eq_ofList_toDigits]
  constructor
  · rintro rfl
    rw [String.toList_ofList]
    refine ⟨fun hplus => ?_, head?_toDigits_ne_zero n.pos⟩
    exact absurd (toDigits_isDigit n.val '+' (List.mem_of_mem_head? hplus)) (by decide)
  · rintro ⟨hplus, hzero⟩
    generalize hcs : s.toList = cs at *
    cases h with
    | signed h => exact absurd rfl hplus
    | bare h => rw [← h.eq_toDigits hzero, ← hcs, String.ofList_toList]

namespace FitMethod

variable {k : FitMethod} {s : String}

theorem isCanonical_of_word (hp : after? "polynomial-".toList s.toList = none)
    (hm : after? "movingAverage-".toList s.toList = none) : IsCanonical s := by
  intro start hstart number hs
  simp only [List.mem_cons, List.not_mem_nil, or_false] at hstart
  rcases hstart with rfl | rfl
  · exact absurd hs (ne_append_of_after? hp number)
  · exact absurd hs (ne_append_of_after? hm number)

theorem isCanonical_append_iff {start number : String}
    (h : start ∈ ["polynomial-", "movingAverage-"]) :
    IsCanonical (start ++ number) ↔
      number.toList.head? ≠ some '+' ∧ number.toList.head? ≠ some '0' := by
  refine ⟨fun hs => hs start h number rfl, fun hnumber start' h' number' hs => ?_⟩
  have hstart : start = start' := by
    simp only [List.mem_cons, List.not_mem_nil, or_false] at h h'
    rcases h with rfl | rfl <;> rcases h' with rfl | rfl
    · rfl
    · exact absurd hs (polynomial_ne_movingAverage number number')
    · exact absurd hs.symm (polynomial_ne_movingAverage number' number)
    · rfl
  subst hstart
  rw [← (String.append_right_inj start).1 hs]
  exact hnumber

/-- Among the texts of a method the printed one is the canonical one. -/
theorem Spells.toText_eq_iff (h : k.Spells s) : k.toText = s ↔ IsCanonical s := by
  cases h with
  | polynomial h =>
    rw [isCanonical_append_iff (by simp), ← h.eq_toString_iff]
    exact String.append_right_inj _
  | movingAverage h =>
    rw [isCanonical_append_iff (by simp), ← h.eq_toString_iff]
    exact String.append_right_inj _
  | average | linear | quadratic | exponential | logarithmic | power =>
    exact ⟨fun _ => isCanonical_of_word rfl rfl, fun _ => rfl⟩

/-- Every method is read from its printed text, so no two methods are printed alike. Printing what
was read from a text gives a text of the same method, and the text itself exactly if its number has
no plus sign and no leading zero. -/
theorem ofText_toText :
    (∀ k, ofText k.toText = .ok k) ∧ Function.Injective toText ∧
      ∀ s k, ofText s = .ok k → ofText k.toText = .ok k ∧ (k.toText = s ↔ IsCanonical s) := by
  have hread (k : FitMethod) : ofText k.toText = .ok k := ofText_of_spells spells_toText
  refine ⟨hread, fun k k' h => ?_, fun s k h => ⟨hread k, ?_⟩⟩
  · exact Except.ok.inj ((hread k).symm.trans (h ▸ hread k'))
  · exact (ofText_eq_ok_iff.1 h).toText_eq_iff

theorem ofText_toText_signed :
    ∃ k, ofText "polynomial-+007" = .ok k ∧ ofText k.toText = .ok k ∧ k.toText = "polynomial-7" ∧
      ¬IsCanonical "polynomial-+007" := by
  have hread : ofText "polynomial-+007" = .ok (.polynomial ⟨7, by decide, by decide⟩) := rfl
  obtain ⟨hprinted, hcanonical⟩ := ofText_toText.2.2 _ _ hread
  exact ⟨_, hread, hprinted, by decide, fun h => absurd (hcanonical.2 h) (by decide)⟩

end FitMethod

end ChartCompiler
