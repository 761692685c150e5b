import ChartCompiler.Proofs.Build.SeriesIds
import ChartCompiler.Proofs.Expr.Rows
import ChartCompiler.Proofs.Trendline.FittedCurve

/-! The texts of the sums that a chart computes by: the id of a series and the value of a fitted
polynomial. All that they add up binds more tightly than a sum, so they are printed as their terms,
and in the terms nothing is in parentheses but the arguments of a call. Natural numbers in them, the
places and powers of coefficients, are printed in their digits. -/

namespace ChartCompiler

namespace Number

variable {negative : Bool} {m n : Nat} {e : Int}

theorem wholeMagnitude?_of_value (h : (m : ℚ) * 2 ^ e = n) :
    (finite negative m e).wholeMagnitude? = some n := by
  rcases le_or_gt 0 e with he | he
  · obtain ⟨k, rfl⟩ := Int.eq_ofNat_of_zero_le he
    have hnat : m * Nat.pow 2 k = n := by exact_mod_cast h
    have hscaled : scaled m 1 k = (n, 1) := by rw [scaled, if_pos he, Int.toNat_natCast, hnat]
    simp [wholeMagnitude?, hscaled, Nat.mod_one]
  · obtain ⟨k, hk⟩ := Int.eq_ofNat_of_zero_le (a := -e) (by omega)
    have hnat : m = n * Nat.pow 2 k := by
      rw [← neg_neg e, hk, zpow_neg, zpow_natCast, ← div_eq_mul_inv, div_eq_iff (by positivity)] at h
      exact_mod_cast h
    have hscaled : scaled m 1 e = (n * Nat.pow 2 k, Nat.pow 2 k) := by
      rw [scaled, if_neg (by omega), hk, Int.toNat_natCast, Nat.one_mul, hnat]
    have hpos : 0 < Nat.pow 2 k := Nat.two_pow_pos k
    simp only [wholeMagnitude?, hscaled, Nat.mul_mod_left, if_true, Nat.mul_div_cancel n hpos]

/-- A natural number is printed in its digits, without a sign. -/
theorem exprText_of_value {v : Number} (h : v.value? = some (n : ℚ)) (hn : n < Nat.pow 10 15) :
    v.exprText = Nat.toDigits 10 n := by
  cases v with
  | nan => cases h
  | infinite negative => cases h
  | finite negative m e =>
    have hvalue := Option.some.inj h
    have hpos : (0 : ℚ) ≤ m * 2 ^ e := by positivity
    obtain ⟨hmag, hsign⟩ : (m : ℚ) * 2 ^ e = n ∧ (negative && n ≠ 0) = false := by
      cases negative with
      | false => exact ⟨hvalue, rfl⟩
      | true =>
        -- below zero there is no natural number, so this is zero with a sign
        have hcast : (0 : ℚ) ≤ n := Nat.cast_nonneg n
        rw [if_pos rfl] at hvalue
        have hzero : n = 0 := by exact_mod_cast (by linarith : (n : ℚ) = 0)
        exact ⟨by linarith, by simp [hzero]⟩
    rw [exprText, wholeMagnitude?_of_value hmag]
    dsimp only
    rw [if_pos hn, hsign]
    rfl

end Number

namespace Expr

theorem chars_nat {n : Nat} (hn : n < Nat.pow 2 32) : (nat n).chars = (toString n).toList := by
  have hvalue : (Number.ofNat n).value? = some (n : ℚ) :=
    Number.value?_ofNat (hn.trans (by decide))
  rw [nat, chars, Number.exprText_of_value hvalue (hn.trans (by decide))]
  exact (Nat.toList_repr).symm

end Expr

namespace DerivedField

/-- The id of a series is printed as its fields with bars between them. -/
theorem seriesId_text (f : String) (fs : List String) :
    ∃ e, (seriesId (f :: fs)).transforms = [.formula e Names.seriesId] ∧
      e.render = " + ' | ' + ".intercalate ((f :: fs).map fun g => (Expr.datum g).render) := by
  obtain ⟨e, he, hsum⟩ := seriesId_transforms (List.cons_ne_nil f fs)
  refine ⟨e, he, ?_⟩
  rw [Expr.intersperse_fields] at hsum
  obtain rfl := Option.some.inj hsum
  have hbar : (Expr.string " | ").render = "' | '" := by decide
  have htight : ∀ t ∈ Expr.datum f :: fs.flatMap fun g => [.string " | ", .datum g],
      Operator.add.precedence < t.precedence := by
    intro t ht
    simp only [List.mem_cons, List.mem_flatMap, List.not_mem_nil, or_false] at ht
    rcases ht with rfl | ⟨g, -, rfl | rfl⟩ <;> exact (by decide : 5 < 8)
  have htexts : (fs.flatMap fun g => [Expr.string " | ", .datum g]).map Expr.render =
      (fs.map fun g => (Expr.datum g).render).flatMap fun t => ["' | '", t] := by
    rw [List.map_flatMap, List.flatMap_map]
    simp only [List.map_cons, List.map_nil, hbar]
  rw [Expr.render_foldl_add htight, List.map_cons, htexts, intercalate_between]
  rfl

end DerivedField

namespace Transform

variable {n i : Nat}

theorem coef_render (hi : i < Nat.pow 2 32) :
    (coef i).render = "datum.coef[" ++ toString i ++ "]" := by
  have hcoef : (Expr.datum "coef").chars = "datum.coef".toList := by decide
  rw [← String.toList_inj, coef, Expr.render, Expr.chars, Expr.chars_nat hi, hcoef]
  simp [Expr.parens, Expr.precedence, Expr.datum]

theorem pow_render (dimension : String) (hi : i < Nat.pow 2 32) :
    (Expr.call "pow" [.datum dimension, .nat i]).render =
      "pow(" ++ (Expr.datum dimension).render ++ ", " ++ toString i ++ ")" := by
  rw [← String.toList_inj]
  simp [Expr.render, Expr.chars, Expr.charsArgs, Expr.charsMoreArgs, Expr.chars_nat hi]

def termText (dimension : String) (i : Nat) : String :=
  "datum.coef[" ++ toString i ++ "]" ++ " * " ++
    ("pow(" ++ (Expr.datum dimension).render ++ ", " ++ toString i ++ ")")

theorem term_render (dimension : String) (hi : i < Nat.pow 2 32) :
    (term dimension i).render = termText dimension i := by
  have hcoef : Operator.mul.precedence ≤ (coef i).precedence := (by decide : 6 ≤ 8)
  have hpow : Operator.mul.precedence < (Expr.call "pow" [.datum dimension, .nat i]).precedence :=
    (by decide : 6 < 8)
  refine (Expr.render_binary_bare hcoef hpow).trans ?_
  rw [coef_render hi, pow_render dimension hi]
  rfl

/-- The formula of a polynomial is printed as its terms. -/
theorem curveFormula_text {method : FitMethod} (h : method.HasDegree n) (dimension : String) :
    ∃ e, curveFormula method dimension = some (.formula e Names.trendlineValue) ∧
      e.render =
        " + ".intercalate ("datum.coef[0]" :: (List.range' 1 n).map (termText dimension)) := by
  refine ⟨_, congrArg (Option.map _) (curve_of_hasDegree h), ?_⟩
  have hlt := h.lt
  have htight : ∀ t ∈ coef 0 :: (List.range' 1 n).map (term dimension),
      Operator.add.precedence < t.precedence := by
    intro t ht
    rcases List.mem_cons.1 ht with rfl | ht
    · decide
    · obtain ⟨i, -, rfl⟩ := List.mem_map.1 ht
      exact (by decide : 5 < 6)
  have hfirst : (coef 0).render = "datum.coef[0]" := coef_render (by decide)
  have hterms : ((List.range' 1 n).map (term dimension)).map Expr.render =
      (List.range' 1 n).map (termText dimension) := by
    rw [List.map_map]
    refine List.map_congr_left fun i hi => term_render dimension ?_
    have hle := (List.mem_range'_1.1 hi).2
    omega
  rw [Expr.render_foldl_add htight, List.map_cons, hfirst, hterms]

end Transform

/-- Conjunctions and sums of any number of expressions print flat. The first operand is put in
parentheses where its operator binds less tightly, a later one also where it binds as tightly, a
single one never. So the id of a series is printed as its fields with bars between them, and the
curve of a polynomial as the sum of its terms, with no parentheses but those of the powers. -/
theorem folds_print_flat :
    (∀ es, (Expr.all es).map Expr.render = Expr.rowText " && " [.or] [.or, .and] es) ∧
      (∀ es, (Expr.sum es).map Expr.render = Expr.rowText " + " Operator.looserThanSum
        (.add :: .sub :: Operator.looserThanSum) es) ∧
      (∀ es, (Expr.all es = none ↔ es = []) ∧ (Expr.sum es = none ↔ es = [])) ∧
      (DerivedField.seriesId []).transforms = [] ∧
      (∀ f fs, ∃ e, (DerivedField.seriesId (f :: fs)).transforms = [.formula e Names.seriesId] ∧
        e.render = " + ' | ' + ".intercalate ((f :: fs).map fun g => (Expr.datum g).render)) ∧
      ∀ method n dimension, method.HasDegree n →
        ∃ e, Transform.curveFormula method dimension = some (.formula e Names.trendlineValue) ∧
          e.render = " + ".intercalate
            ("datum.coef[0]" :: (List.range' 1 n).map (Transform.termText dimension)) :=
  ⟨Expr.render_all, Expr.render_sum, fun _ => ⟨Expr.join_eq_none_iff, Expr.join_eq_none_iff⟩, rfl,
    DerivedField.seriesId_text, fun _ _ dimension h => Transform.curveFormula_text h dimension⟩

/-- A parabola over a field that is no name. -/
theorem folds_print_flat_of_parabola :
    FitMethod.quadratic.HasDegree 2 ∧ ∃ e, Transform.curveFormula .quadratic "my day" =
      some (.formula e Names.trendlineValue) ∧ e.render =
        "datum.coef[0] + datum.coef[1] * pow(datum['my day'], 1)" ++
          " + datum.coef[2] * pow(datum['my day'], 2)" := by
  obtain ⟨e, he, htext⟩ := folds_print_flat.2.2.2.2.2 .quadratic 2 "my day" .quadratic
  refine ⟨.quadratic, e, he, ?_⟩
  rw [htext]
  decide

end ChartCompiler
