import ChartCompiler.Proofs.Document.Blanks

/-! Numbers in a document's text. What is written is a numeral as JSON has it, with no zero in front
of other digits, and the scanner takes it whole and nothing behind it. An integer that 64 bits hold
comes back as it is. -/

namespace ChartCompiler

/-! ### The decimal of a number -/

namespace Rounds

theorem nearest?_contains {r : Rounds} {tie : Tie} {n : Nat} (h : r.nearest? tie = some n) :
    r.contains n := by
  unfold nearest? at h
  cases hbelow : r.contains (r.value / r.denominator) <;>
    cases habove : r.contains (r.value / r.denominator + 1) <;> simp only [hbelow, habove] at h
  · cases h
  · rwa [← Option.some.inj h]
  · rwa [← Option.some.inj h]
  · grind

/-- Zero is outside the interval of a positive number, so no grid gives it. -/
theorem nearest?_ne_zero {r : Rounds} {tie : Tie} {n : Nat} (hlow : 0 < r.low)
    (h : r.nearest? tie = some n) : n ≠ 0 := by
  rintro rfl
  have hin := nearest?_contains h
  unfold contains at hin
  dsimp only at hin
  split_ifs at hin
  · simp at hin
    omega
  · simp at hin

theorem low_inUnits {r : Rounds} (h : 0 < r.low) (k : Int) : 0 < (r.inUnits k).low := by
  unfold inUnits
  split_ifs
  · exact h
  · exact Nat.mul_pos h (Nat.pow_pos (by decide))

theorem search_zero {r : Rounds} {tie : Tie} (h : 0 < r.low) (k : Int) (fuel : Nat)
    (hd : (r.search tie k fuel).digits = 0) : (r.search tie k fuel).exponent = 0 := by
  induction fuel generalizing k with
  | zero => rfl
  | succ fuel ih =>
    rw [search] at hd ⊢
    cases hnearest : (r.inUnits k).nearest? tie with
    | some n =>
      rw [hnearest] at hd
      exact absurd hd (nearest?_ne_zero (low_inUnits h k) hnearest)
    | none =>
      rw [hnearest] at hd
      exact ih (k - 1) hd

end Rounds

theorem Number.shortest_zero {m : Nat} {e : Int} {tie : Tie} (h : (shortest m e tie).digits = 0) :
    (shortest m e tie).exponent = 0 := by
  unfold shortest at h ⊢
  split_ifs at h ⊢ with hm
  · rfl
  · refine Rounds.search_zero ?_ _ _ h
    have hunit : 0 < (scaled 1 1 (e - 2)).1 := by
      unfold scaled
      split_ifs
      · exact Nat.mul_pos Nat.one_pos (Nat.two_pow_pos _)
      · exact Nat.one_pos
    refine Nat.mul_pos ?_ hunit
    split_ifs <;> omega

theorem Number.literal_of_not_finite {x : Number} (h : x.isFinite = false) :
    x.literal = "null" := by
  cases x with
  | nan | infinite => rfl
  | finite => cases h

namespace Json

/-! ### Numbers -/

def values (ds : List Char) : List Nat := ds.map fun c => c.toNat - 48

def NoDigit (rest : List Char) : Prop := ∀ c ∈ rest.head?, c.isDigit = false

/-- Nothing here goes on with a number. -/
structure EndsNumber (rest : List Char) : Prop where
  digit : NoDigit rest
  point : rest.head? ≠ some '.'
  exponent : rest.head? ≠ some 'e' ∧ rest.head? ≠ some 'E'

/-- Digits that may stand before the point. -/
structure IsWhole (ds : List Char) : Prop where
  digits : ∀ c ∈ ds, c.isDigit
  nonempty : ds ≠ []
  noZero : ds.head? = some '0' → ds = ['0']

/-- The digits of a literal before an exponent, and behind the point if there is one. -/
inductive Mantissa (negative : Bool) : List Char → Literal → Prop
  | whole {ds : List Char} (h : IsWhole ds) : Mantissa negative ds { negative, whole := values ds }
  | point {ds fs : List Char} (h : IsWhole ds) (hne : fs ≠ []) (hf : ∀ c ∈ fs, c.isDigit) :
    Mantissa negative (ds ++ '.' :: fs) { negative, whole := values ds, fraction := values fs }

/-- The texts of a literal behind its sign. -/
inductive Spells (negative : Bool) : List Char → Literal → Prop
  | plain {cs : List Char} {l : Literal} (h : Mantissa negative cs l) : Spells negative cs l
  | power {cs es : List Char} {l : Literal} (h : Mantissa negative cs l) (down : Bool)
    (hne : es ≠ []) (he : ∀ c ∈ es, c.isDigit) :
    Spells negative (cs ++ 'e' :: (if down then '-' else '+') :: es)
      { l with exponent := some (down, values es) }

variable {ds fs es rest : List Char}

theorem noDigit_cons {c : Char} (h : c.isDigit = false) (rest : List Char) :
    NoDigit (c :: rest) := by
  rintro d ⟨⟩
  exact h

theorem digits_append (hd : ∀ c ∈ ds, c.isDigit) (hr : NoDigit rest) :
    digits (ds ++ rest) = (values ds, rest) := by
  have hrest : rest.takeWhile Char.isDigit = [] ∧ rest.dropWhile Char.isDigit = rest := by
    cases rest with
    | nil => exact ⟨rfl, rfl⟩
    | cons c cs => simp [hr c rfl]
  rw [digits, List.takeWhile_append_of_pos hd, List.dropWhile_append_of_pos hd, hrest.1, hrest.2,
    List.append_nil, values]

theorem IsWhole.values_cons (h : IsWhole ds) :
    ∃ n ns, values ds = n :: ns ∧ (n = 0 → ns = []) := by
  obtain ⟨c, cs, rfl⟩ := List.exists_cons_of_ne_nil h.nonempty
  refine ⟨c.toNat - 48, values cs, rfl, fun hzero => ?_⟩
  have hc : c = '0' := by
    obtain ⟨hlow, -⟩ : 48 ≤ c.toNat ∧ c.toNat ≤ 57 :=
      Char.isDigit_iff_toNat.1 (h.digits c List.mem_cons_self)
    apply Char.toNat_inj.1
    have hcode : '0'.toNat = 48 := rfl
    omega
  rw [hc] at h
  have hnone := h.noZero rfl
  rw [(List.cons.inj hnone).2]
  rfl

theorem values_ne_nil (h : ds ≠ []) : ∃ n ns, values ds = n :: ns := by
  obtain ⟨c, cs, rfl⟩ := List.exists_cons_of_ne_nil h
  exact ⟨_, _, rfl⟩

theorem scanNumber_bare (h : IsWhole ds) (hr : NoDigit rest) (hp : rest.head? ≠ some '.')
    (negative : Bool) :
    scanNumber negative (ds ++ rest) = scanExponent { negative, whole := values ds } rest := by
  obtain ⟨n, ns, hvalues, hzero⟩ := h.values_cons
  unfold scanNumber
  rw [digits_append h.digits hr, hvalues]
  split <;> simp_all

theorem scanNumber_point (h : IsWhole ds) (hne : fs ≠ []) (hf : ∀ c ∈ fs, c.isDigit)
    (hr : NoDigit rest) (negative : Bool) :
    scanNumber negative (ds ++ '.' :: (fs ++ rest)) =
      scanExponent { negative, whole := values ds, fraction := values fs } rest := by
  obtain ⟨n, ns, hvalues, hzero⟩ := h.values_cons
  obtain ⟨f, fv, hfs⟩ := values_ne_nil hne
  have hpoint : NoDigit ('.' :: (fs ++ rest)) := noDigit_cons rfl _
  unfold scanNumber
  rw [digits_append h.digits hpoint, hvalues]
  cases n with
  | zero => simp [hzero rfl, digits_append hf hr, hfs]
  | succ n => simp [digits_append hf hr, hfs]

theorem scanExponent_none (h : rest.head? ≠ some 'e' ∧ rest.head? ≠ some 'E') (l : Literal) :
    scanExponent l rest = (.number l.value, some rest) := by
  unfold scanExponent
  split <;> simp_all

theorem scanExponent_some (hne : es ≠ []) (he : ∀ c ∈ es, c.isDigit) (hr : NoDigit rest)
    (down : Bool) (l : Literal) :
    scanExponent l ('e' :: (if down then '-' else '+') :: (es ++ rest)) =
      (.number { l with exponent := some (down, values es) }.value, some rest) := by
  obtain ⟨n, ns, hes⟩ := values_ne_nil hne
  cases down <;> simp [scanExponent, digits_append he hr, hes]

variable {negative : Bool} {cs : List Char} {l : Literal}

theorem Mantissa.scanNumber (h : Mantissa negative cs l) (hr : NoDigit rest)
    (hp : rest.head? ≠ some '.') :
    scanNumber negative (cs ++ rest) = scanExponent l rest := by
  cases h with
  | whole h => exact scanNumber_bare h hr hp negative
  | point h hne hf =>
    rw [List.append_assoc, List.cons_append]
    exact scanNumber_point h hne hf hr negative

theorem Spells.scanNumber (h : Spells negative cs l) (hr : EndsNumber rest) :
    scanNumber negative (cs ++ rest) = (.number l.value, some rest) := by
  cases h with
  | plain h => rw [h.scanNumber hr.digit hr.point, scanExponent_none hr.exponent]
  | power h down hne he =>
    rw [List.append_assoc, List.cons_append, List.cons_append,
      h.scanNumber (noDigit_cons rfl _) (by simp), scanExponent_some hne he hr.digit]

theorem Spells.head (h : Spells negative cs l) : ∃ c ds, cs = c :: ds ∧ c.isDigit := by
  have hmantissa {cs : List Char} {l : Literal} (h : Mantissa negative cs l) :
      ∃ c ds, cs = c :: ds ∧ c.isDigit := by
    cases h with
    | whole h | point h =>
      obtain ⟨c, cs, rfl⟩ := List.exists_cons_of_ne_nil h.nonempty
      exact ⟨c, _, rfl, h.digits c List.mem_cons_self⟩
  cases h with
  | plain h => exact hmantissa h
  | power h =>
    obtain ⟨c, ds, rfl, hc⟩ := hmantissa h
    exact ⟨c, _, rfl, hc⟩

theorem isBlank_of_isDigit {c : Char} (h : c.isDigit) : isBlank c = false :=
  (IsDense.of_digits (List.forall_mem_singleton.2 h) c List.mem_cons_self).2

theorem Spells.scanValue (h : Spells negative cs l) (hr : EndsNumber rest) (fuel : Nat) :
    scanValue (fuel + 1) (Number.signText negative ++ cs ++ rest) =
      (.number l.value, some rest) := by
  have hscan := h.scanNumber hr
  cases negative with
  | true => simpa [Number.signText, Json.scanValue, skipBlanks, isBlank] using hscan
  | false =>
    -- by its first digit the scanner tells a number from every other value
    obtain ⟨c, ds, rfl, hc⟩ := h.head
    simp only [Number.signText, Bool.false_eq_true, if_false, List.nil_append, List.cons_append]
      at hscan ⊢
    rw [Json.scanValue, skipBlanks, List.dropWhile_cons, isBlank_of_isDigit hc]
    simp only [Bool.false_eq_true, if_false]
    split <;> simp_all

/-! ### The texts of numbers -/

theorem isWhole_toDigits (n : Nat) : IsWhole (Nat.toDigits 10 n) where
  digits := toDigits_isDigit n
  nonempty := Nat.toDigits_ne_nil
  noZero h := by
    rcases Nat.eq_zero_or_pos n with rfl | hpos
    · rfl
    · exact absurd h (head?_toDigits_ne_zero hpos)

theorem isWhole_singleton {c : Char} (h : c.isDigit) : IsWhole [c] where
  digits := by simpa using h
  nonempty := List.cons_ne_nil c []
  noZero h := by
    obtain rfl := Option.some.inj h
    rfl

theorem isWhole_append {zeros : List Char} (h : IsWhole ds) (hne : ds ≠ ['0'])
    (hz : ∀ c ∈ zeros, c.isDigit) : IsWhole (ds ++ zeros) where
  digits c hc := (List.mem_append.1 hc).elim (h.digits c) (hz c)
  nonempty := List.append_ne_nil_of_left_ne_nil h.nonempty zeros
  noZero hzero := by
    obtain ⟨c, cs, rfl⟩ := List.exists_cons_of_ne_nil h.nonempty
    exact absurd (h.noZero hzero) hne

theorem isWhole_take {k : Nat} (h : IsWhole ds) (hne : ds ≠ ['0']) (hk : k ≠ 0) :
    IsWhole (ds.take k) where
  digits c hc := h.digits c (List.mem_of_mem_take hc)
  nonempty := by simp [h.nonempty, hk]
  noZero hzero := by
    rw [List.head?_take, if_neg hk] at hzero
    exact absurd (h.noZero hzero) hne

theorem scientific_spells (negative : Bool) (d : Decimal) :
    ∃ l, Spells negative d.scientific l := by
  have hd := isWhole_toDigits d.digits
  -- the sign of the exponent is printed by a proposition and read as a `Bool`
  have hpower : ('e' :: (if d.leadingExponent < 0 then '-' else '+') ::
      Nat.toDigits 10 d.leadingExponent.natAbs) = 'e' ::
        (if decide (d.leadingExponent < 0) then '-' else '+') ::
          Nat.toDigits 10 d.leadingExponent.natAbs := by
    simp
  unfold Decimal.scientific
  dsimp only
  rw [hpower]
  split
  · next first second rest heq =>
    rw [heq] at hd
    have hfirst : IsWhole [first] := isWhole_singleton (hd.digits first (by simp))
    have hrest : ∀ c ∈ second :: rest, c.isDigit := fun c hc => hd.digits c (by simp_all)
    exact ⟨_, .power (.point hfirst (by simp) hrest) _ Nat.toDigits_ne_nil (toDigits_isDigit _)⟩
  · exact ⟨_, .power (.whole hd) _ Nat.toDigits_ne_nil (toDigits_isDigit _)⟩

theorem positional_spells (negative : Bool) {d : Decimal} (h : d.digits = 0 → d.exponent = 0) :
    ∃ l, Spells negative (d.positional ++ if 0 ≤ d.exponent then ['.', '0'] else []) l := by
  have hd := isWhole_toDigits d.digits
  have hzeros (n : Nat) : ∀ c ∈ List.replicate n '0', c.isDigit := by
    intro c hc
    rw [List.eq_of_mem_replicate hc]
    rfl
  -- zeros are put behind the digits, or the point among them, only where these are not a lone zero
  have hne (he : d.exponent ≠ 0) : Nat.toDigits 10 d.digits ≠ ['0'] := by
    intro hzero
    have hpos : 0 < d.digits := Nat.pos_of_ne_zero fun hd => he (h hd)
    exact head?_toDigits_ne_zero hpos (by rw [hzero, List.head?_singleton])
  unfold Decimal.positional
  dsimp only
  split_ifs with he hp
  · refine ⟨_, .plain (.point ?_ (List.cons_ne_nil '0' []) (hzeros 1))⟩
    by_cases hzero : d.exponent = 0
    · rw [hzero]
      simpa using hd
    · exact isWhole_append hd (hne hzero) (hzeros _)
  · rw [List.append_nil]
    refine ⟨_, .plain (.point (isWhole_take hd (hne (by omega)) (by omega)) ?_ ?_)⟩
    · rw [ne_eq, List.drop_eq_nil_iff]
      omega
    · exact fun c hc => hd.digits c (List.mem_of_mem_drop hc)
  · rw [List.append_nil]
    refine ⟨_, .plain (.point (isWhole_singleton rfl) ?_ ?_)⟩
    · exact List.append_ne_nil_of_right_ne_nil _ hd.nonempty
    · exact fun c hc => (List.mem_append.1 hc).elim (hzeros _ c) (hd.digits c)

theorem literal_spells (negative : Bool) (m : Nat) (e : Int) :
    ∃ cs l, (Number.finite negative m e).literal.toList = Number.signText negative ++ cs ∧
      Spells negative cs l := by
  have hzero : (Number.shortest m e .even).digits = 0 → (Number.shortest m e .even).exponent = 0 :=
    Number.shortest_zero
  rw [Number.literal, String.toList_ofList]
  split
  · obtain ⟨l, hl⟩ := positional_spells negative hzero
    exact ⟨_, l, rfl, hl⟩
  · obtain ⟨l, hl⟩ := scientific_spells negative (Number.shortest m e .even)
    exact ⟨_, l, rfl, hl⟩

/-! ### Integers -/

theorem le_ofDigitChars (cs : List Char) (s : Nat) : s ≤ Nat.ofDigitChars 10 cs s := by
  induction cs generalizing s with
  | nil => exact Nat.le_refl s
  | cons c cs ih =>
    have hnext := ih (10 * s + (c.toNat - '0'.toNat))
    rw [Nat.ofDigitChars, List.foldl_cons]
    exact Nat.le_trans (by omega) hnext

/-- Digits are gathered whole if the number that they write fits. -/
theorem gather_values {s : Nat} (h : Nat.ofDigitChars 10 cs s ≤ Literal.maxSignificand) :
    Literal.gather s (values cs) = (Nat.ofDigitChars 10 cs s, []) := by
  induction cs generalizing s with
  | nil => rfl
  | cons c cs ih =>
    have hstep : Nat.ofDigitChars 10 (c :: cs) s =
        Nat.ofDigitChars 10 cs (s * 10 + (c.toNat - 48)) := by
      rw [Nat.mul_comm]
      rfl
    rw [hstep] at h ⊢
    have hfits := Nat.le_trans (le_ofDigitChars cs _) h
    have hgather : Literal.gather s (values (c :: cs)) =
        Literal.gather (s * 10 + (c.toNat - 48)) (values cs) := if_pos hfits
    rw [hgather]
    exact ih h

/-- An integer that 64 bits hold, with a sign or without, is read as it is. -/
theorem value_toDigits {i : Int} (hlow : -(Nat.pow 2 63 : Nat) ≤ i)
    (hhigh : i ≤ Literal.maxSignificand) :
    ({ negative := decide (i < 0), whole := values (Nat.toDigits 10 i.natAbs) } : Literal).value =
      some (.integer i) := by
  rw [Nat.pow_eq] at hlow
  have hdigits : Nat.ofDigitChars 10 (Nat.toDigits 10 i.natAbs) 0 = i.natAbs :=
    Nat.ofDigitChars_toDigits (by decide) (by decide)
  have hgather : Literal.gather 0 (values (Nat.toDigits 10 i.natAbs)) = (i.natAbs, []) := by
    rw [gather_values, hdigits]
    rw [hdigits]
    have hmax : 2 ^ 63 ≤ Literal.maxSignificand := by decide
    omega
  simp only [Literal.value, hgather, List.isEmpty_nil, Option.isNone_none, Bool.and_true, if_true]
  by_cases hneg : i < 0
  · have hfits : 0 < i.natAbs ∧ i.natAbs ≤ Nat.pow 2 63 := by
      rw [Nat.pow_eq]
      omega
    have hvalue : -(i.natAbs : Int) = i := by omega
    simp only [hneg, decide_true, Bool.not_true, Bool.false_eq_true, if_false, if_pos hfits, hvalue]
  · have hvalue : (i.natAbs : Int) = i := by omega
    simp only [hneg, decide_false, Bool.not_false, if_true, hvalue]

end Json

end ChartCompiler
