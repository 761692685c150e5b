import ChartCompiler.Proofs.Build.Roles
import ChartCompiler.Proofs.Document.Resolves
import ChartCompiler.Proofs.Expr.Eval

/-! The value of a fitted curve, computed in each row from the coefficients of its series. The
coefficients of a polynomial are those of the powers of the dimension, up to the order that the fit
is asked for, so the formula adds up as many powers as there are coefficients. -/

namespace ChartCompiler

namespace Expr

def position? (field : String) : Expr → Option Expr
  | .index (.member (.ident "datum") f) i => if f = field then some i else none
  | _ => none

def positions (field : String) (e : Expr) : List Expr := e.parts.filterMap (position? field)

theorem positions_foldl (field : String) (op : Operator) (es : List Expr) (e : Expr) :
    (es.foldl (binary op) e).positions field =
      e.positions field ++ es.flatMap (positions field) :=
  filterMap_parts_foldl (fun _ _ => rfl) es e

end Expr

namespace FitMethod

inductive HasDegree : FitMethod → Nat → Prop
  | linear : HasDegree .linear 1
  | quadratic : HasDegree .quadratic 2
  | polynomial (order : PositiveCount) : HasDegree (.polynomial order) order.val

variable {method : FitMethod} {n : Nat}

theorem HasDegree.lt (h : method.HasDegree n) : n < Nat.pow 2 32 := by
  cases h with
  | linear => decide
  | quadratic => decide
  | polynomial order => exact order.lt

end FitMethod

variable {K : Type*}

/-- The curves that are fitted: by how many coefficients a curve is given, and its value at a point.
-/
inductive FitMethod.TakesValue [Field K] (exp log : K → K) (pow : K → K → K) (c : Nat → K) (x : K) :
    FitMethod → Nat → K → Prop
  | polynomial {method : FitMethod} {n : Nat} (h : method.HasDegree n) :
    TakesValue exp log pow c x method (n + 1) (∑ i ∈ Finset.range (n + 1), c i * x ^ i)
  | exponential : TakesValue exp log pow c x .exponential 2 (c 0 + exp (c 1 * x))
  | logarithmic : TakesValue exp log pow c x .logarithmic 2 (c 0 + c 1 * log x)
  | power : TakesValue exp log pow c x .power 2 (c 0 * pow x (c 1))

theorem FitMethod.exists_takesValue [Field K] {method : FitMethod} (h : method.isRegression)
    (exp log : K → K) (pow : K → K → K) (c : Nat → K) (x : K) :
    ∃ count y, method.TakesValue exp log pow c x count y := by
  cases method with
  | average => cases h
  | movingAverage _ => cases h
  | linear => exact ⟨_, _, .polynomial .linear⟩
  | quadratic => exact ⟨_, _, .polynomial .quadratic⟩
  | polynomial order => exact ⟨_, _, .polynomial (.polynomial order)⟩
  | exponential => exact ⟨_, _, .exponential⟩
  | logarithmic => exact ⟨_, _, .logarithmic⟩
  | power => exact ⟨_, _, .power⟩

def Value.StartsWith (v : Value K) (c : Nat → K) (count : Nat) : Prop :=
  ∃ items, v = .array items ∧ ∀ i < count, items[i]? = some (.number (c i))

/-- The functions that curves call. All that is known of a power is that by a natural number it is a
product. -/
structure Runtime.Computes [Field K] (σ : Runtime K) (exp log : K → K) (pow : K → K → K) : Prop where
  exp_eq : ∀ x, σ.call "exp" [.number x] = some (.number (exp x))
  log_eq : ∀ x, σ.call "log" [.number x] = some (.number (log x))
  pow_eq : ∀ x y, σ.call "pow" [.number x, .number y] = some (.number (pow x y))
  pow_natCast : ∀ x (n : Nat), pow x n = x ^ n

noncomputable def Runtime.analysis : Runtime ℝ where
  signal _ := none
  call
    | "exp", [.number x] => some (.number (Real.exp x))
    | "log", [.number x] => some (.number (Real.log x))
    | "pow", [.number x, .number y] => some (.number (x ^ y))
    | _, _ => none

theorem Runtime.analysis_computes : analysis.Computes Real.exp Real.log (· ^ ·) where
  exp_eq _ := rfl
  log_eq _ := rfl
  pow_eq _ _ := rfl
  pow_natCast := Real.rpow_natCast

namespace Transform

def coef (i : Nat) : Expr := .index (.datum "coef") (.nat i)

def term (dimension : String) (i : Nat) : Expr :=
  coef i * .call "pow" [.datum dimension, .nat i]

variable {method : FitMethod} {dimension : String} {n : Nat} {e : Expr}

theorem curve_of_hasDegree (h : method.HasDegree n) :
    curve method dimension =
      some (((List.range' 1 n).map (term dimension)).foldl (.binary .add) (coef 0)) := by
  cases h <;> rfl

theorem positions_term (dimension : String) (i : Nat) :
    (term dimension i).positions "coef" = [.nat i] := rfl

theorem positions_polynomial (n : Nat) :
    (((List.range' 1 n).map (term dimension)).foldl (.binary .add) (coef 0)).positions "coef" =
      (List.range (n + 1)).map Expr.nat := by
  have hzero : (coef 0).positions "coef" = [.nat 0] := rfl
  rw [Expr.positions_foldl, hzero, List.flatMap_map, List.range_eq_range', List.range'_succ]
  simp only [positions_term, List.map_cons, List.singleton_append, ← List.map_eq_flatMap,
    Nat.zero_add]

/-- A curve looks up each of its coefficients once, and none besides. -/
theorem positions_curve [Field K] {exp log : K → K} {pow : K → K → K} {c : Nat → K} {x y : K}
    {count : Nat} (he : curve method dimension = some e)
    (hy : method.TakesValue exp log pow c x count y) :
    e.positions "coef" = (List.range count).map Expr.nat := by
  cases hy with
  | polynomial h =>
    rw [curve_of_hasDegree h] at he
    obtain rfl := Option.some.inj he
    exact positions_polynomial _
  | exponential =>
    obtain rfl := Option.some.inj he
    rfl
  | logarithmic =>
    obtain rfl := Option.some.inj he
    rfl
  | power =>
    obtain rfl := Option.some.inj he
    rfl

section Eval

variable [Field K] [LinearOrder K] [FloorRing K] [IsStrictOrderedRing K]
variable {σ : Runtime K} {row : Row K} {c : Nat → K} {x y : K} {count i : Nat}
variable {exp log : K → K} {pow : K → K → K}

theorem eval_coef (hc : (row "coef").StartsWith c count) (hi : i < count)
    (hlt : i < Nat.pow 2 32) : (coef i).eval σ row = some (.number (c i)) := by
  obtain ⟨items, hrow, hitems⟩ := hc
  rw [coef, Expr.eval, Expr.eval_datum, Expr.eval_nat hlt, hrow, Option.bind_some, Option.bind_some,
    Value.item?_natCast, hitems i hi]

theorem eval_term (hσ : σ.Computes exp log pow) (hx : row dimension = .number x)
    (hc : (row "coef").StartsWith c count) (hi : i < count) (hlt : i < Nat.pow 2 32) :
    (term dimension i).eval σ row = some (.number (c i * x ^ i)) := by
  have hdatum : (Expr.datum dimension).eval σ row = some (.number x) := by rw [Expr.eval_datum, hx]
  refine Expr.eval_mul_number (eval_coef hc hi hlt) ?_
  rw [Expr.eval_call_two hdatum (Expr.eval_nat hlt), hσ.pow_eq, hσ.pow_natCast]

theorem eval_polynomial (hσ : σ.Computes exp log pow) (hx : row dimension = .number x)
    (h : method.HasDegree n) (hc : (row "coef").StartsWith c (n + 1))
    (he : curve method dimension = some e) :
    e.eval σ row = some (.number (∑ i ∈ Finset.range (n + 1), c i * x ^ i)) := by
  rw [curve_of_hasDegree h] at he
  obtain rfl := Option.some.inj he
  have hlt := h.lt
  have hterms : ∀ i ∈ List.range' 1 n,
      (term dimension i).eval σ row = some (.number (c i * x ^ i)) := by
    intro i hi
    obtain ⟨-, hi⟩ := List.mem_range'_1.1 hi
    exact eval_term hσ hx hc (by omega) (by omega)
  have hsum : ∑ i ∈ Finset.range (n + 1), c i * x ^ i =
      ((List.range (n + 1)).map fun i => c i * x ^ i).sum := rfl
  rw [Expr.eval_foldl_add hterms (eval_coef hc (by omega) (by decide)), hsum, List.range_eq_range',
    List.range'_succ, List.map_cons, List.sum_cons, pow_zero, mul_one]

theorem eval_curve (hσ : σ.Computes exp log pow) (hx : row dimension = .number x)
    (hc : (row "coef").StartsWith c count) (he : curve method dimension = some e)
    (hy : method.TakesValue exp log pow c x count y) : e.eval σ row = some (.number y) := by
  have hdatum : (Expr.datum dimension).eval σ row = some (.number x) := by rw [Expr.eval_datum, hx]
  cases hy with
  | polynomial h => exact eval_polynomial hσ hx h hc he
  | exponential =>
    obtain rfl := Option.some.inj he
    have hexponent := Expr.eval_mul_number (eval_coef hc one_lt_two (by decide)) hdatum
    exact Expr.eval_add_number (eval_coef hc two_pos (by decide))
      ((Expr.eval_call_one hexponent).trans (hσ.exp_eq _))
  | logarithmic =>
    obtain rfl := Option.some.inj he
    have hlog := (Expr.eval_call_one hdatum).trans (hσ.log_eq x)
    exact Expr.eval_add_number (eval_coef hc two_pos (by decide))
      (Expr.eval_mul_number (eval_coef hc one_lt_two (by decide)) hlog)
  | power =>
    obtain rfl := Option.some.inj he
    have hexponent := eval_coef (σ := σ) hc one_lt_two (by decide)
    exact Expr.eval_mul_number (eval_coef hc two_pos (by decide))
      ((Expr.eval_call_two hdatum hexponent).trans (hσ.pow_eq x (c 1)))

end Eval

theorem isSome_curve (method : FitMethod) (dimension : String) :
    (curve method dimension).isSome = method.isRegression := by
  cases method <;> rfl

theorem fit_of_hasDegree (h : method.HasDegree n) (m : SeriesMark) (params : Bool) :
    ∃ r, fit m method params = some (.regression r) ∧ r.method = .poly ∧ r.order = some n := by
  cases h <;> exact ⟨_, rfl, rfl, rfl⟩

end Transform

namespace Trendline

variable {m : SeriesMark} {t : Trendline} {ts : List Trendline}

theorem metric_of_ofOptions {children : List Child} {o : TrendlineOptions} {mark : String}
    {index : Nat} (h : ofOptions children o mark index = .ok t) : t.metric = Names.trendlineValue := by
  rw [ofOptions] at h
  split at h <;>
  · obtain ⟨method, -, h⟩ := bind_eq_ok.1 h
    cases h
    rfl

theorem metric_of_ofListFrom {mark : String} {index : Nat} {os : List (List Child × TrendlineOptions)}
    (h : ofListFrom mark index os = .ok ts) : ∀ t ∈ ts, t.metric = Names.trendlineValue := by
  induction os generalizing index ts with
  | nil =>
    cases h
    exact List.forall_mem_nil _
  | cons o os ih =>
    rw [ofListFrom] at h
    obtain ⟨t, ht, h⟩ := bind_eq_ok.1 h
    obtain ⟨ts, hts, h⟩ := bind_eq_ok.1 h
    cases h
    exact List.forall_mem_cons.2 ⟨metric_of_ofOptions ht, ih hts⟩

/-- The lines of trendlines are drawn at the values of their trendlines. -/
theorem line_channel_y (h : m.trendlines = .ok ts) (ht : t ∈ ts) {rule : Rule} :
    ("y", rule) ∈ (line m t).channels ↔ rule = .single (metricValue Names.trendlineValue) := by
  rw [Mark.channels_of_rules (m := line m t) rfl (by simp) (by simp),
    ← metric_of_ofListFrom h t ht]
  simp

variable [Field K] [LinearOrder K] [FloorRing K] [IsStrictOrderedRing K]

/-- A formula for the curve exists for regressions only. It writes the values that the lines of
trendlines are drawn at. It looks up the coefficients of the curve, and none besides, and from these
it computes the value of the curve. A polynomial has the degree that its fit is asked for. -/
theorem curveFormula_fits (method : FitMethod) (dimension : String) :
    (Transform.curveFormula method dimension).isSome = method.isRegression ∧
    (method.isRegression → ∀ exp log pow (c : Nat → K) x,
      ∃ count y, method.TakesValue exp log pow c x count y) ∧
    (∀ t, Transform.curveFormula method dimension = some t →
      ∃ e, t = .formula e Names.trendlineValue ∧
        ∀ exp log pow (c : Nat → K) x count y, method.TakesValue exp log pow c x count y →
          e.positions "coef" = (List.range count).map Expr.nat ∧
          ∀ (σ : Runtime K) row, σ.Computes exp log pow → (row "coef").StartsWith c count →
            row dimension = .number x → e.eval σ row = some (.number y)) ∧
    (∀ n, method.HasDegree n → ∀ m params, ∃ r,
      Transform.fit m method params = some (.regression r) ∧ r.method = .poly ∧ r.order = some n) ∧
    ∀ (m : SeriesMark) ts t rule, m.trendlines = .ok ts → t ∈ ts →
      (("y", rule) ∈ (line m t).channels ↔ rule = .single (metricValue Names.trendlineValue)) := by
  refine ⟨by rw [Transform.curveFormula, Option.isSome_map, Transform.isSome_curve],
    FitMethod.exists_takesValue, ?_, fun n hn => Transform.fit_of_hasDegree hn,
    fun m ts t rule h ht => line_channel_y h ht⟩
  intro t h
  obtain ⟨e, he, rfl⟩ := Option.map_eq_some_iff.1 h
  refine ⟨e, rfl, fun exp log pow c x count y hy => ⟨Transform.positions_curve he hy, ?_⟩⟩
  exact fun σ row hσ hc hx => Transform.eval_curve hσ hx hc he hy

/-- The parabola `1 + 2 x + 3 x ^ 2` at two. -/
theorem curveFormula_fits_parabola :
    ∃ e, Transform.curveFormula .quadratic "day" = some (.formula e Names.trendlineValue) ∧
      e.eval .analysis (fun f => if f = "coef" then .array [.number 1, .number 2, .number 3]
        else .number 2) = some (.number (17 : ℝ)) := by
  obtain ⟨-, -, hformula, -⟩ := curveFormula_fits (K := ℝ) .quadratic "day"
  obtain ⟨e, he, hvalue⟩ := hformula _ rfl
  let c : Nat → ℝ := fun i => i + 1
  have hsum : ∑ i ∈ Finset.range (2 + 1), c i * (2 : ℝ) ^ i = 17 := by
    norm_num [Finset.sum_range_succ, c]
  have hcurve : FitMethod.TakesValue Real.exp Real.log (· ^ ·) c 2 .quadratic 3 17 :=
    hsum ▸ .polynomial .quadratic
  refine ⟨e, congrArg some he, (hvalue _ _ _ _ _ _ _ hcurve).2 _ _ Runtime.analysis_computes ?_ rfl⟩
  refine ⟨_, rfl, fun i hi => ?_⟩
  interval_cases i <;> norm_num [c]

end Trendline

end ChartCompiler
