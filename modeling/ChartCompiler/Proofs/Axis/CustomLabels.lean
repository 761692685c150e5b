import ChartCompiler.Axis.Labels
import ChartCompiler.Proofs.Document.RuleValue

/-! The channels of axis labels, evaluated at a tick. A signal holds a list of custom labels, and the
first one whose value is that of the tick overrides the defaults. Each rule asks for the place of
that label before it looks it up, so the place `-1` of a tick without one is never looked up. -/

namespace ChartCompiler

variable {K : Type*} [Field K] [LinearOrder K]

namespace Value

def isScalar : Value K → Bool
  | .array _ | .object _ => false
  | _ => true

def equals (v w : Value K) : Bool := (v.strictEq? w).getD false

/-- The place of the first value of a list that equals one, `-1` if none does. -/
def place (vs : List (Value K)) (v : Value K) : K := (vs.findIdx? (·.equals v)).elim (-1) Nat.cast

end Value

structure Runtime.Searches (σ : Runtime K) : Prop where
  pluck_eq (items : List (String → Value K)) (name : String) :
    σ.call "pluck" [.array (items.map .object), .text name] = some (.array (items.map (· name)))
  indexof_eq (vs : List (Value K)) (v : Value K) (hv : v.isScalar) :
    σ.call "indexof" [.array vs, v] = some (.number (Value.place vs v))

/-- One list in a signal, and the functions to search it. -/
def Runtime.holding (name : String) (items : List (String → Value K)) : Runtime K where
  signal n := if n = name then some (.array (items.map .object)) else none
  call
    | "pluck", [.array vs, .text n] => some (.array (vs.map fun v => (v.member? n).getD .undefined))
    | "indexof", [.array vs, v] => some (.number (Value.place vs v))
    | _, _ => none

theorem Runtime.holding_searches (name : String) (items : List (String → Value K)) :
    (holding name items).Searches where
  pluck_eq items n := by simp [holding, Value.member?]
  indexof_eq vs v hv := rfl

namespace Axis

def customLabel? (items : List (String → Value K)) (v : Value K) : Option (String → Value K) :=
  items.find? fun label => (label "value").equals v

/-- A property of a custom label that counts as true, or the default. -/
def overridden (custom : Option (String → Value K)) (property : String) (default : Value K) :
    Value K :=
  custom.elim default fun label => if (label property).truthy then label property else default

section Place

variable {items : List (String → Value K)} {v : Value K}

theorem place_of_none (h : customLabel? items v = none) :
    Value.place (items.map (· "value")) v = -1 := by
  have hnone : (items.map (· "value")).findIdx? (·.equals v) = none := by
    rw [List.findIdx?_map, List.findIdx?_eq_none_iff]
    exact fun label hlabel => eq_false_of_ne_true (List.find?_eq_none.1 h label hlabel)
  rw [Value.place, hnone, Option.elim_none]

theorem place_of_some {label : String → Value K} (h : customLabel? items v = some label) :
    ∃ n : ℕ, Value.place (items.map (· "value")) v = n ∧ items[n]? = some label := by
  unfold customLabel? at h
  rw [List.find?_eq_bind_findIdx?_getElem?] at h
  obtain ⟨n, hn, hitem⟩ := Option.bind_eq_some_iff.1 h
  refine ⟨n, ?_, hitem⟩
  have hfound : (items.map (· "value")).findIdx? (·.equals v) = some n := by
    rw [List.findIdx?_map]
    exact hn
  rw [Value.place, hfound, Option.elim_some]

end Place

section Tick

variable [FloorRing K] [IsStrictOrderedRing K] {σ : Runtime K} {row : Row K} {labels : String}
variable {items : List (String → Value K)}
variable (hσ : σ.Searches) (hlabels : labels ≠ "datum")
variable (hitems : σ.signal labels = some (.array (items.map .object)))
variable (hv : (row "value").isScalar)

include hlabels hitems in
omit [IsStrictOrderedRing K] in
theorem eval_labels : (Expr.signal labels).eval σ row = some (.array (items.map .object)) := by
  rw [Expr.eval_signal hlabels, hitems]

include hσ hlabels hitems hv

omit [IsStrictOrderedRing K] in
theorem eval_customIndex : (customIndex labels).eval σ row =
    some (.number (Value.place (items.map (· "value")) (row "value"))) := by
  have hpluck : (Expr.call "pluck" [.signal labels, .string "value"]).eval σ row =
      some (.array (items.map (· "value"))) := by
    rw [Expr.eval_call_two (eval_labels hlabels hitems) (Expr.eval_string _), hσ.pluck_eq]
  unfold customIndex tickValue
  rw [Expr.eval_call_two hpluck (Expr.eval_datum _), hσ.indexof_eq _ _ hv]

theorem eval_hasCustom : (hasCustom labels).eval σ row =
    some (.bool (customLabel? items (row "value")).isSome) := by
  have hminus : (Expr.int (-1)).eval σ row = some (.number (-1)) := by
    rw [Expr.eval_int (by decide), Int.cast_neg, Int.cast_one]
  unfold hasCustom
  rw [Expr.eval_strictNe (eval_customIndex hσ hlabels hitems hv) hminus]
  cases hcustom : customLabel? items (row "value") with
  | none =>
    rw [place_of_none hcustom]
    simp [Value.strictEq?]
  | some label =>
    obtain ⟨n, hn, -⟩ := place_of_some hcustom
    have hne : (n : K) ≠ -1 := by
      have hn : (0 : K) ≤ n := Nat.cast_nonneg n
      linarith
    rw [hn]
    simp [Value.strictEq?, hne]

theorem eval_custom {label : String → Value K}
    (hlabel : customLabel? items (row "value") = some label) (property : String) :
    (custom labels property).eval σ row = some (label property) := by
  obtain ⟨n, hn, hitem⟩ := place_of_some hlabel
  have hindex : (Expr.index (.signal labels) (customIndex labels)).eval σ row =
      some (.object label) := by
    rw [Expr.eval_index (eval_labels hlabels hitems) (eval_customIndex hσ hlabels hitems hv), hn,
      Value.item?_natCast, List.getElem?_map, hitem, Option.map_some]
  unfold custom
  rw [Expr.eval_member hindex, Value.member?]

/-- The property of the custom label, or the value at the tick. -/
theorem eval_guarded_custom (property : String) :
    (Rule.firstOf [(ChannelValue.ofSignal (custom labels property)).guarded (hasCustom labels),
      .ofSignal tickValue]).eval σ row =
      some ((customLabel? items (row "value")).elim (row "value") (· property)) := by
  have htick : (ChannelValue.ofSignal tickValue).eval σ row = some (row "value") := by
    rw [ChannelValue.eval_ofSignal, tickValue, Expr.eval_datum]
  rw [Rule.eval_guarded_or (eval_hasCustom hσ hlabels hitems hv) rfl]
  cases hcustom : customLabel? items (row "value") with
  | none => exact htick
  | some label => exact eval_custom hσ hlabels hitems hv hcustom property

/-- Without a custom label the conjunction is done with its left side, and none is looked up. -/
theorem eval_hasCustom_and (property : String) :
    ((hasCustom labels).and (custom labels property)).eval σ row =
      some ((customLabel? items (row "value")).elim (.bool false) (· property)) := by
  rw [Expr.eval_and (eval_hasCustom hσ hlabels hitems hv)]
  cases hcustom : customLabel? items (row "value") with
  | none => rfl
  | some label => exact eval_custom hσ hlabels hitems hv hcustom property

theorem eval_customOr (property default : String) :
    (customOr labels property (.text default)).eval σ row =
      some (overridden (customLabel? items (row "value")) property (.text default)) := by
  unfold customOr overridden
  rw [Rule.eval_guarded_or (eval_hasCustom_and hσ hlabels hitems hv property) rfl]
  cases hcustom : customLabel? items (row "value") with
  | none => rfl
  | some label =>
    rw [Option.elim_some, Option.elim_some]
    split_ifs with htruthy
    · exact eval_custom hσ hlabels hitems hv hcustom property
    · rfl

end Tick

/-- The channels of axis labels at a tick: what the first custom label of its value says where it has
one, and the defaults elsewhere. No list is asked for the item before its first. -/
theorem labelsEncode_eval [FloorRing K] [IsStrictOrderedRing K] {σ : Runtime K} {row : Row K}
    {labels : String} {items : List (String → Value K)} (hσ : σ.Searches)
    (hlabels : labels ≠ "datum")
    (hitems : σ.signal labels = some (.array (items.map .object)))
    (hv : (row "value").isScalar) (label : LabelAlign) (weight : FontWeight) (key : LabelKey)
    (position : Position) :
    let custom := customLabel? items (row "value")
    let channel := if position.isVertical then "baseline" else "align"
    let side := if position.isVertical then Named.name label.toBaseline else Named.name label.toAlign
    ∃ text weightRule setting : Rule,
      (labelsEncode label weight key position labels).update =
        [("text", text), ("fontWeight", weightRule), (channel, setting)] ∧
      text.eval σ row = some (custom.elim (row "value") (· (Named.name key))) ∧
      weightRule.eval σ row =
        some (overridden custom "fontWeight" (.text (Named.name weight))) ∧
      setting.eval σ row = some (overridden custom "align" (.text side)) ∧
      ∀ r ∈ [text, weightRule, setting], ∀ list place,
        Expr.index list place ∈ r.demanded σ row → place.eval σ row ≠ some (.number (-1)) := by
  intro custom channel side
  have htext := eval_guarded_custom hσ hlabels hitems hv (Named.name key)
  have hweight := eval_customOr hσ hlabels hitems hv "fontWeight" (Named.name weight)
  have hsetting := eval_customOr hσ hlabels hitems hv "align" side
  refine ⟨_, _, _, ?_, htext, hweight, hsetting, ?_⟩
  · cases position <;> rfl
  · intro r hr list place hplace
    simp only [List.mem_cons, List.not_mem_nil, or_false] at hr
    rcases hr with rfl | rfl | rfl
    · exact Rule.eval_position_ne htext hplace
    · exact Rule.eval_position_ne hweight hplace
    · exact Rule.eval_position_ne hsetting hplace

/-- Of two labels of a value the first counts, also where only the second says how to align. -/
theorem labelsEncode_eval_of_repeated :
    let object (members : List (String × Value ℚ)) (name : String) : Value ℚ :=
      (members.lookup name).getD .undefined
    let items := [
      object [("value", .text "2"), ("label", .text "text")],
      object [("value", .number 2), ("label", .text "two"), ("fontWeight", .text "bold")],
      object [("value", .number 2), ("label", .text "again"), ("align", .text "bottom")]]
    let σ := Runtime.holding "axis0_labels" items
    let row := object [("value", .number 2)]
    (σ.Searches ∧ "axis0_labels" ≠ "datum" ∧
      σ.signal "axis0_labels" = some (.array (items.map .object)) ∧ (row "value").isScalar) ∧
    ∃ text weight setting : Rule,
      (labelsEncode .start .normal .label .left "axis0_labels").update =
        [("text", text), ("fontWeight", weight), ("baseline", setting)] ∧
      text.eval σ row = some (.text "two") ∧ weight.eval σ row = some (.text "bold") ∧
      setting.eval σ row = some (.text "top") ∧
      ∀ r ∈ [text, weight, setting], ∀ list place,
        Expr.index list place ∈ r.demanded σ row → place.eval σ row ≠ some (.number (-1)) := by
  intro object items σ row
  have hσ : σ.Searches := Runtime.holding_searches _ _
  have hlabels : "axis0_labels" ≠ "datum" := by decide
  have hitems : σ.signal "axis0_labels" = some (.array (items.map .object)) := rfl
  have hv : (row "value").isScalar := rfl
  exact ⟨⟨hσ, hlabels, hitems, hv⟩,
    labelsEncode_eval hσ hlabels hitems hv .start .normal .label .left⟩

end Axis

end ChartCompiler
