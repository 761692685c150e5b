import ChartCompiler.Proofs.Grammar.Token

/-! The shape of a number inside an expression: a sign for what is below zero, digits, and perhaps a
point with digits behind it. This holds of every finite number, however many digits it takes, since
no exponent is ever written. -/

namespace ChartCompiler

def Unsigned (cs : List Char) : Prop :=
  ∃ whole tail, cs = whole ++ tail ∧ whole ≠ [] ∧ (∀ c ∈ whole, c.isDigit) ∧
    (tail = [] ∨ ∃ ds, tail = '.' :: ds ∧ ∀ c ∈ ds, c.isDigit)

theorem toDigits_isDigit (n : Nat) : ∀ c ∈ Nat.toDigits 10 n, c.isDigit := fun _ h =>
  Nat.isDigit_of_mem_toDigits (by decide) (by decide) h

theorem head?_toDigits_ne_zero {n : Nat} (h : 0 < n) : (Nat.toDigits 10 n).head? ≠ some '0' := by
  induction n using Nat.strongRecOn with
  | ind n ih =>
    by_cases hn : n < 10
    · rw [Nat.toDigits_of_lt_base hn, List.head?_singleton]
      intro hzero
      have := Nat.digitChar_eq_zero.1 (Option.some.inj hzero)
      omega
    · have hfirst := ih (n / 10) (by omega) (by omega)
      rw [Nat.toDigits_of_base_le (by decide) (by omega)]
      obtain ⟨c, cs, hcs⟩ :=
        List.exists_cons_of_ne_nil (Nat.toDigits_ne_nil (n := n / 10) (b := 10))
      rw [hcs] at hfirst ⊢
      exact hfirst

theorem Unsigned.of_digits {cs : List Char} (hne : cs ≠ []) (h : ∀ c ∈ cs, c.isDigit) :
    Unsigned cs :=
  ⟨cs, [], by simp, hne, h, .inl rfl⟩

theorem Unsigned.of_point {whole ds : List Char} (hne : whole ≠ []) (hw : ∀ c ∈ whole, c.isDigit)
    (hd : ∀ c ∈ ds, c.isDigit) : Unsigned (whole ++ '.' :: ds) :=
  ⟨whole, '.' :: ds, rfl, hne, hw, .inr ⟨ds, rfl, hd⟩⟩

theorem Unsigned.head {cs : List Char} (h : Unsigned cs) : ∃ c ds, cs = c :: ds ∧ c.isDigit := by
  obtain ⟨whole, tail, rfl, hne, hw, -⟩ := h
  cases whole with
  | nil => exact absurd rfl hne
  | cons c ds => exact ⟨c, ds ++ tail, rfl, hw c (by simp)⟩

theorem Decimal.positional_unsigned (d : Decimal) : Unsigned d.positional := by
  have hd := toDigits_isDigit d.digits
  have hzero : ∀ n, ∀ c ∈ List.replicate n '0', c.isDigit := by
    intro n c hc
    rw [List.eq_of_mem_replicate hc]
    rfl
  unfold Decimal.positional
  dsimp only
  split_ifs with he hp
  · refine .of_digits (by simp) ?_
    intro c hc
    rcases List.mem_append.1 hc with h | h
    · exact hd c h
    · exact hzero _ c h
  · refine .of_point ?_ (fun c hc => hd c (List.mem_of_mem_take hc))
      (fun c hc => hd c (List.mem_of_mem_drop hc))
    rw [← List.length_pos_iff, List.length_take]
    omega
  · refine Unsigned.of_point (List.cons_ne_nil '0' []) (hzero 1) ?_
    intro c hc
    rcases List.mem_append.1 hc with h | h
    · exact hzero _ c h
    · exact hd c h

theorem toString_int (i : Int) :
    (toString i).toList = Number.signText (decide (i < 0)) ++ Nat.toDigits 10 i.natAbs := by
  cases i with
  | ofNat n => simp [toString, Int.repr, Number.signText]
  | negSucc n => simp [toString, Int.repr, Number.signText]

namespace Number

def isFinite : Number → Bool
  | .finite _ _ _ => true
  | _ => false

theorem gridExponent_le (n d : Nat) :
    gridExponent n d ≤ max ((n.log2 : Int) - d.log2 - 53) minExponent + 1 := by
  simp only [gridExponent]
  split_ifs <;> omega

/-- Counts are far below the largest number. -/
theorem ofNat_isFinite {n : Nat} (hn : n < Nat.pow 2 32) : (ofNat n).isFinite := by
  rcases Nat.eq_zero_or_pos n with rfl | hpos
  · rfl
  · have hlog : n.log2 < 32 := (Nat.log2_lt (by omega)).2 hn
    have hone : Nat.log2 1 = 0 := rfl
    have hgrid := gridExponent_le n 1
    simp only [minExponent, hone] at hgrid
    rw [ofNat, round, if_neg (by omega)]
    dsimp only
    -- rounding up may take one step more
    split <;> rw [if_neg (by simp only [maxExponent]; omega)] <;> rfl

/-- A finite number has the magnitude zero only with the mantissa zero. -/
theorem wholeMagnitude?_eq_zero {s : Bool} {m n : Nat} {e : Int}
    (h : wholeMagnitude? (.finite s m e) = some n) : n = 0 ↔ m = 0 := by
  simp only [wholeMagnitude?, scaled] at h
  split_ifs at h with he hd hd
  · simp only [Option.some.injEq] at h
    subst h
    have hpos : 0 < Nat.pow 2 e.toNat := Nat.two_pow_pos e.toNat
    rw [Nat.div_one, Nat.mul_eq_zero]
    omega
  · simp only [Option.some.injEq, Nat.one_mul] at h hd
    subst h
    have hpos : 0 < Nat.pow 2 (-e).toNat := Nat.two_pow_pos (-e).toNat
    rw [Nat.div_eq_zero_iff_lt hpos]
    constructor
    · intro hlt
      rwa [Nat.mod_eq_of_lt hlt] at hd
    · rintro rfl
      exact hpos

theorem wholeMagnitude?_zero (s : Bool) (e : Int) : wholeMagnitude? (.finite s 0 e) = some 0 := by
  simp only [wholeMagnitude?, scaled]
  split_ifs <;> simp_all

/-- The sign stands in front of what is below zero, and of nothing else. -/
theorem exprText_unsigned {v : Number} (hv : v.isFinite) :
    ∃ ds, Unsigned ds ∧ v.exprText = signText v.isNegative ++ ds := by
  cases v with
  | nan => cases hv
  | infinite => cases hv
  | finite s m e =>
    simp only [exprText, isNegative]
    cases hw : wholeMagnitude? (.finite s m e) with
    | none =>
      have hm : m ≠ 0 := by
        rintro rfl
        rw [wholeMagnitude?_zero] at hw
        cases hw
      exact ⟨_, Decimal.positional_unsigned (shortest m e .up), by simp [hm]⟩
    | some n =>
      have hn := wholeMagnitude?_eq_zero hw
      simp only
      split_ifs with hlt
      · exact ⟨_, .of_digits Nat.toDigits_ne_nil (toDigits_isDigit n), by simp [hn]⟩
      · have hm : m ≠ 0 := fun h => hlt (by rw [hn.2 h]; decide)
        exact ⟨_, Decimal.positional_unsigned (shortest m e .up), by simp [hm]⟩

end Number

end ChartCompiler
