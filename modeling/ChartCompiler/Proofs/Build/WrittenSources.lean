import ChartCompiler.Proofs.Build.Drawn
import ChartCompiler.Proofs.Build.Parts
import ChartCompiler.Proofs.Build.WrittenMarks

/-! What fields, sources and signals are written with. Every expression in them reads a row, the
filters of highlighted rows also read what is pointed at or picked, and those of a range hold its
bounds. -/

namespace ChartCompiler

variable {V : Vocabulary}

def DerivedField.Resolves (σ : Scope) (f : DerivedField) : Prop := ∀ t ∈ f.transforms, t.Resolves σ

def Source.Resolves (σ : Scope) (s : Source) : Prop := ∀ t ∈ s.transforms, t.Resolves σ

def Signal.Resolves (σ : Scope) (s : Signal) : Prop := ∀ u ∈ s.updates, u.value.Resolves σ

def DerivedField.Written (V : Vocabulary) (f : DerivedField) : Prop :=
  ∀ t ∈ f.transforms, t.Written V

def Source.Written (V : Vocabulary) (s : Source) : Prop := ∀ t ∈ s.transforms, t.Written V

def Signal.Written (V : Vocabulary) (s : Signal) : Prop := ∀ u ∈ s.updates, u.value.Written V

namespace DerivedField

theorem date_written (dimension : String) : (date dimension).Written V :=
  List.forall_mem_singleton.2
    (Transform.written_formula.2 (.function (by decide) (.datum dimension)))

theorem seriesId_written (facets : List String) : (seriesId facets).Written V := by
  have hterms : ∀ es : List Expr, (∀ e ∈ es, e.Written V) →
      ∀ e ∈ es.intersperse (.string " | "), e.Written V := by
    intro es hes
    have hbetween : (Expr.string " | ").Written V := .string " | "
    fun_induction List.intersperse with
    | case1 => simp
    | case2 e => exact hes
    | case3 e es hne ih => simp_all
  intro t ht
  obtain ⟨e, he, rfl⟩ := Option.map_eq_some_iff.1 (Option.mem_toList.1 ht)
  exact Transform.written_formula.2 (.join (hterms _ (by simp)) e he)

theorem normalized_written (dimension : String) : (normalized dimension).Written V := by
  have hday : (Expr.nat msPerDay).Written V := .nat (by decide)
  refine List.forall_mem_cons.2 ⟨nofun, List.forall_mem_singleton.2 ?_⟩
  exact Transform.written_formula.2
    (.binary (.binary (.binary (.datum _) (.datum _)) hday) hday)

end DerivedField

def Trendline.HasBound (t : Trendline) (v : Number) : Prop :=
  t.dimensionRange.1 = some v ∨ t.dimensionRange.2 = some v

namespace Transform

theorem inRange_written (dimension : String) {range : Option Number × Option Number}
    (h : ∀ v, range.1 = some v ∨ range.2 = some v → V.number v) :
    ∀ t ∈ inRange dimension range, t.Written V := by
  intro t ht
  obtain ⟨e, he, rfl⟩ := Option.map_eq_some_iff.1 (Option.mem_toList.1 ht)
  refine written_filter.2 (.join ?_ e he)
  intro bound hbound
  simp only [List.mem_filterMap, List.mem_cons, List.not_mem_nil, or_false, id_eq,
    exists_eq_right] at hbound
  rcases hbound with hbound | hbound
  · obtain ⟨least, hleast, rfl⟩ := Option.map_eq_some_iff.1 hbound.symm
    exact .binary (.datum _) (.number (h least (.inl hleast)))
  · obtain ⟨most, hmost, rfl⟩ := Option.map_eq_some_iff.1 hbound.symm
    exact .binary (.datum _) (.number (h most (.inr hmost)))

theorem statistical_written (m : SeriesMark) (method : FitMethod) (params : Bool) :
    ∀ t ∈ statistical m method params, t.Written V := by
  have hnone : ∀ t ∈ statistical m method params, t.exprs = [] := by
    cases method <;> simp [statistical, average, movingAverage, fit, FitMethod.regression?, exprs]
  intro t ht e he
  rw [hnone t ht] at he
  exact absurd he List.not_mem_nil

theorem curve_written (method : FitMethod) (dimension : String) :
    ∀ e ∈ curve method dimension, e.Written V := by
  have hx : (Expr.datum dimension).Written V := .datum dimension
  have hcoef {i : Nat} (hi : i < Nat.pow 2 32) : (Expr.index (.datum "coef") (.nat i)).Written V :=
    .index (.datum "coef") (.nat hi)
  have hpow {e : Expr} (he : e.Written V) : (Expr.call "pow" [.datum dimension, e]).Written V :=
    .function₂ (by decide) hx he
  have hpoly {order : Nat} (horder : order < Nat.pow 2 32) :
      ∀ e ∈ Expr.sum (.index (.datum "coef") (.nat 0) ::
        (List.range' 1 order).map fun i =>
          .index (.datum "coef") (.nat i) * .call "pow" [.datum dimension, .nat i]),
      e.Written V := by
    refine .join (List.forall_mem_cons.2 ⟨hcoef (by decide), ?_⟩)
    intro e he
    obtain ⟨i, hi, rfl⟩ := List.mem_map.1 he
    have hi : i < Nat.pow 2 32 := by
      rw [List.mem_range'_1] at hi
      omega
    exact .binary (hcoef hi) (hpow (.nat hi))
  have hzero := hcoef (i := 0) (by decide)
  have hone := hcoef (i := 1) (by decide)
  intro e he
  cases method with
  | average => cases he
  | movingAverage width => cases he
  | linear => exact hpoly (by decide) e he
  | quadratic => exact hpoly (by decide) e he
  | polynomial n => exact hpoly n.lt e he
  | exponential =>
    obtain rfl := Option.some_inj.1 he
    exact .binary hzero (.function (by decide) (.binary hone hx))
  | logarithmic =>
    obtain rfl := Option.some_inj.1 he
    exact .binary hzero (.binary hone (.function (by decide) hx))
  | power =>
    obtain rfl := Option.some_inj.1 he
    exact .binary hzero (hpow hone)

theorem curveFormula_written (method : FitMethod) (dimension : String) :
    ∀ t ∈ (curveFormula method dimension).toList, t.Written V := by
  intro t ht
  obtain ⟨e, he, rfl⟩ := Option.map_eq_some_iff.1 (Option.mem_toList.1 ht)
  exact written_formula.2 (curve_written method dimension e he)

end Transform

namespace SeriesMark

variable {m : SeriesMark}

theorem lineSources_written
    (hhovered : hasInteractive m.children → V.signal (m.name ++ "_hoveredId"))
    (hid : hasPopover m.children → V.signal (m.name ++ "_selectedId")) :
    ∀ s ∈ m.lineSources, s.Written V := by
  intro s hs
  rcases List.mem_append.1 hs with hs | hs
  · obtain ⟨f, -, rfl⟩ := Option.map_eq_some_iff.1 (Option.mem_toList.1 hs)
    exact List.forall_mem_singleton.2 (Transform.written_filter.2 (Expr.written_flagged f))
  · split_ifs at hs with hint
    · rw [List.mem_singleton.1 hs]
      exact List.forall_mem_singleton.2
        (Transform.written_filter.2 (Expr.written_highlighted (hhovered hint) hid))
    · exact absurd hs List.not_mem_nil

end SeriesMark

namespace Trendline

variable {m : SeriesMark} {ts : List Trendline}

theorem sources_written {t : Trendline} (h : ∀ v, t.HasBound v → V.number v) :
    ∀ s ∈ sources m t, s.Written V := by
  have hrange := Transform.inRange_written m.dimension h
  have hstat (params : Bool) := Transform.statistical_written (V := V) m t.method params
  have hlookup : (Transform.lookupParams t.name m.facets.all).Written V := by
    simp [Transform.Written, Transform.lookupParams, Transform.exprs]
  have hderive (name : String) (ts : List Transform) (hts : ∀ t ∈ ts, t.Written V) :
      (Source.derive name Names.filteredTable ts).Written V := hts
  have happend {ts us : List Transform} (hts : ∀ t ∈ ts, t.Written V)
      (hus : ∀ t ∈ us, t.Written V) : ∀ t ∈ ts ++ us, t.Written V :=
    List.forall_mem_append.2 ⟨hts, hus⟩
  have hcurve := hderive t.curveSource _
    (happend (happend hrange (hstat false)) (DerivedField.seriesId_written m.facets.all))
  have hparams := hderive t.paramsSource _ (happend hrange (hstat true))
  have hrows := hderive t.rowSource _
    (happend (happend hrange (List.forall_mem_singleton.2 hlookup))
      (Transform.curveFormula_written t.method m.fitDimension))
  have hwindow := hderive t.rowSource _ (happend (hstat false) hrange)
  have haverage := hderive t.rowSource _ (happend hrange (hstat false))
  rw [sources]
  split_ifs <;> simp only [List.forall_mem_cons, List.not_mem_nil, false_implies, implies_true,
    and_true, hcurve, hparams, hrows, hwindow, haverage]

/-- The rows of the interactive trendlines are highlighted by the row that is pointed at or picked
on any of them. -/
theorem allSources_written (hbound : ∀ t ∈ ts, ∀ v, t.HasBound v → V.number v)
    (hhovered : (∃ t ∈ ts, t.isInteractive) → V.signal (sharedName m.name ++ "_hoveredId"))
    (hid : (ts.any fun t => hasPopover t.children) → V.signal (sharedName m.name ++ "_selectedId")) :
    ∀ s ∈ allSources m ts, s.Written V := by
  intro s hs
  rcases List.mem_append.1 hs with hs | hs
  · obtain ⟨t, ht, hs⟩ := List.mem_flatMap.1 hs
    exact sources_written (hbound t ht) s hs
  · obtain ⟨hint, rfl | rfl⟩ := mem_combinedSources hs
    · exact nofun
    · exact List.forall_mem_singleton.2
        (Transform.written_filter.2 (Expr.written_highlighted (hhovered hint) hid))

end Trendline

namespace Signal

theorem hover_written (name field mark : String) (nested : Bool) :
    (hover name field nested mark).Written V := by
  have hfield : (if nested then Expr.nestedDatum field else .datum field).Written V := by
    cases nested
    · exact .datum field
    · exact .nestedDatum field
  intro u hu
  simp only [hover, unset, List.mem_cons, List.not_mem_nil, or_false] at hu
  rcases hu with rfl | rfl
  · exact hfield
  · exact .null

theorem unset_written (name : String) : (unset name).Written V := nofun

end Signal

theorem SeriesMark.lineSignals_written {m : SeriesMark} :
    ∀ s ∈ m.lineSignals, s.Written V := by
  have hhover := Signal.hover_written (V := V) (m.name ++ "_hoveredId") Names.markId m.cells true
  intro s hs
  rw [lineSignals] at hs
  split_ifs at hs with hint hpop
  · simp only [List.mem_cons, List.not_mem_nil, or_false] at hs
    rcases hs with rfl | rfl | rfl
    · exact hhover
    · exact Signal.unset_written _
    · exact Signal.unset_written _
  · rw [List.mem_singleton.1 hs]
    exact hhover
  · exact absurd hs List.not_mem_nil

theorem Trendline.allSignals_written {m : SeriesMark} {ts : List Trendline} :
    ∀ s ∈ allSignals m ts, s.Written V := by
  intro s hs
  simp only [allSignals, List.mem_append] at hs
  rcases hs with (hs | hs) | hs <;> split_ifs at hs <;>
    simp only [List.mem_cons, List.not_mem_nil, or_false] at hs
  · rcases hs with rfl | rfl
    · exact Signal.hover_written _ _ _ _
    · exact Signal.hover_written _ _ _ _
  · rw [hs]
    exact Signal.hover_written _ _ _ _
  · rcases hs with rfl | rfl
    · exact Signal.unset_written _
    · exact Signal.unset_written _

end ChartCompiler
