import ChartCompiler.Proofs.Build.Columns
import ChartCompiler.Proofs.Build.Roles

/-! The sources of trendlines, one block for each trendline. The rows of a block are limited to the
range of the trendline in all of its sources alike. A mean and a fit are computed of the rows in the
range, but a moving average is computed first, since it also needs the rows just outside. Behind the
blocks stand the rows of all the interactive trendlines together. -/

namespace ChartCompiler

namespace Transform

def rangeTest? (dimension : String) : Option Number × Option Number → Option Expr
  | (none, none) => none
  | (some least, none) => some (.gte (.datum dimension) (.number least))
  | (none, some most) => some (.lte (.datum dimension) (.number most))
  | (some least, some most) =>
    some (.and (.gte (.datum dimension) (.number least)) (.lte (.datum dimension) (.number most)))

def limits (dimension : String) (range : Option Number × Option Number) : List Transform :=
  ((rangeTest? dimension range).map .filter).toList

theorem inRange_eq_limits (dimension : String) (range : Option Number × Option Number) :
    inRange dimension range = limits dimension range := by
  rcases range with ⟨_ | least, _ | most⟩ <;> rfl

theorem filter_mem_limits {dimension : String} {range : Option Number × Option Number}
    {test : Expr} :
    .filter test ∈ limits dimension range ↔ rangeTest? dimension range = some test := by
  rw [limits, Option.mem_toList, Option.map_eq_some_iff]
  simp

end Transform

namespace Trendline

/-- What computes a trendline in each of its sources. A mean is put beside the rows it is over, a
moving average looks back from each row, and a curve is fitted. Of a curve there may be the
coefficients too, and then they are joined to the rows. -/
inductive Step (m : SeriesMark) (t : Trendline) : String → Transform → Prop
  | mean (h : t.method = .average) :
    Step m t (t.name ++ "_data") (.joinAggregate {
      groupby := some m.facets.all
      fields := [m.metric]
      ops := [.mean]
      outputs := [Names.trendlineValue] })
  | window {width : PositiveCount} (h : t.method = .movingAverage width) :
    Step m t (t.name ++ "_data") (.window {
      ops := [.mean]
      groupby := m.facets.all
      fields := [m.metric]
      outputs := [Names.trendlineValue]
      frame := (some (width.val - 1), some 0) })
  | curve {kind : RegressionKind} (h : t.method.regression? = some kind) :
    Step m t (t.name ++ "_highResolutionData") (.regression {
      method := kind
      order := t.method.order?
      groupby := m.facets.all
      x := m.fitDimension
      y := m.metric
      outputs := some [m.fitDimension, Names.trendlineValue]
      params := false })
  | params {kind : RegressionKind} (h : t.method.regression? = some kind) :
    Step m t (t.name ++ "_params") (.regression {
      method := kind
      order := t.method.order?
      groupby := m.facets.all
      x := m.fitDimension
      y := m.metric
      outputs := none
      params := true })
  | rows (h : t.method.isRegression) :
    Step m t (t.name ++ "_data") (.lookup {
      source := t.name ++ "_params"
      key := "keys"
      fields := m.facets.all
      values := ["coef"] })

structure Chain (m : SeriesMark) (t : Trendline) (block : List Source) : Prop where
  names : block.map Source.name =
    if t.method.isRegression && t.isInteractive then
      [t.name ++ "_highResolutionData", t.name ++ "_params", t.name ++ "_data"]
    else [t.lineSource]
  rows : t.isInteractive → t.name ++ "_data" ∈ block.map Source.name
  origin : ∀ s ∈ block, s.origin = .derived Names.filteredTable
  filters : ∀ s ∈ block, ∀ test, .filter test ∈ s.transforms ↔
    Transform.rangeTest? m.dimension t.dimensionRange = some test
  limitsFirst : t.method.isWindow = false → ∀ s ∈ block, ∃ step rest, Step m t s.name step ∧
    (∀ u ∈ rest, ∃ e output, u = .formula e output) ∧
    s.transforms = Transform.limits m.dimension t.dimensionRange ++ step :: rest
  limitsLast : t.method.isWindow → ∀ s ∈ block, ∃ step, Step m t s.name step ∧
    s.transforms = step :: Transform.limits m.dimension t.dimensionRange
  value : ∃ s ∈ block, s.name = t.lineSource ∧
    Names.trendlineValue ∈ s.transforms.flatMap Transform.outputs

variable {m : SeriesMark} {t : Trendline} {test : Expr}

theorem Step.ne_filter {name : String} {step : Transform} (h : Step m t name step) :
    step ≠ .filter test := by
  cases h <;> exact nofun

/-- A fit is one regression, of points on the curve or of the coefficients. -/
theorem Step.exists_fit (hreg : t.method.isRegression) :
    (∃ step, Transform.statistical m t.method false = [step] ∧
      Step m t (t.name ++ "_highResolutionData") step) ∧
    ∃ step, Transform.statistical m t.method true = [step] ∧
      Step m t (t.name ++ "_params") step := by
  have hfit (params : Bool) :
      Transform.statistical m t.method params = (Transform.fit m t.method params).toList := by
    cases hmethod : t.method <;> first | rfl | simp [hmethod, FitMethod.isRegression] at hreg
  obtain ⟨kind, hkind⟩ : ∃ kind, t.method.regression? = some kind := by
    cases hmethod : t.method <;> simp_all [FitMethod.isRegression, FitMethod.regression?]
  refine ⟨⟨_, ?_, .curve hkind⟩, _, ?_, .params hkind⟩
  · rw [hfit, Transform.fit, hkind]
    rfl
  · rw [hfit, Transform.fit, hkind]
    rfl

theorem value_mem_outputs (m : SeriesMark) (method : FitMethod) :
    Names.trendlineValue ∈ (Transform.statistical m method false).flatMap Transform.outputs := by
  cases method <;> simp [Transform.statistical, Transform.average, Transform.movingAverage,
    Transform.fit, FitMethod.regression?, Transform.outputs]

theorem exists_formula {e? : Option Expr} {name : String} {u : Transform}
    (h : u ∈ (e?.map (Transform.formula · name)).toList) : ∃ e output, u = .formula e output := by
  obtain ⟨e, -, rfl⟩ := Option.map_eq_some_iff.1 (Option.mem_toList.1 h)
  exact ⟨e, name, rfl⟩

/-- How a source of a trendline with another method than a window is put together. -/
theorem sources_limitsFirst (h : t.method.isWindow = false) {s : Source} (hs : s ∈ sources m t) :
    s.origin = .derived Names.filteredTable ∧ ∃ step rest, Step m t s.name step ∧
      (∀ u ∈ rest, ∃ e output, u = .formula e output) ∧
      s.transforms = Transform.limits m.dimension t.dimensionRange ++ step :: rest := by
  by_cases hreg : t.method.isRegression
  · obtain ⟨⟨curve, hcurve, hcurveStep⟩, params, hparams, hparamsStep⟩ :=
      Step.exists_fit (m := m) hreg
    rw [sources, if_pos hreg, hcurve, hparams, Transform.inRange_eq_limits] at hs
    rcases List.mem_cons.1 hs with rfl | hs
    · exact ⟨rfl, curve, _, hcurveStep, fun u hu => exists_formula hu, List.append_assoc _ _ _⟩
    split_ifs at hs
    · simp only [List.mem_cons, List.not_mem_nil, or_false] at hs
      rcases hs with rfl | rfl
      · exact ⟨rfl, params, [], hparamsStep, List.forall_mem_nil _, rfl⟩
      · exact ⟨rfl, _, _, .rows hreg, fun u hu => exists_formula hu, List.append_assoc _ _ _⟩
    · cases hs
  · have hmethod : t.method = .average := by
      cases hmethod : t.method <;> simp_all [FitMethod.isRegression, FitMethod.isWindow]
    rw [sources, hmethod, Transform.inRange_eq_limits] at hs
    obtain rfl := List.mem_singleton.1 hs
    exact ⟨rfl, _, [], .mean hmethod, List.forall_mem_nil _, rfl⟩

theorem sources_limitsLast (h : t.method.isWindow) {s : Source} (hs : s ∈ sources m t) :
    s.origin = .derived Names.filteredTable ∧ ∃ step, Step m t s.name step ∧
      s.transforms = step :: Transform.limits m.dimension t.dimensionRange := by
  obtain ⟨width, hmethod⟩ : ∃ width, t.method = .movingAverage width := by
    cases hmethod : t.method <;> simp_all [FitMethod.isWindow]
  rw [sources, hmethod, Transform.inRange_eq_limits] at hs
  obtain rfl := List.mem_singleton.1 hs
  exact ⟨rfl, _, .window hmethod, rfl⟩

theorem sources_chain (m : SeriesMark) (t : Trendline) : Chain m t (sources m t) where
  names := by
    rw [sources, lineSource]
    cases t.method.isRegression <;> cases t.isInteractive <;> cases t.method.isWindow <;> rfl
  rows hint := by
    rw [sources, hint]
    cases t.method.isRegression <;> cases t.method.isWindow <;> simp [rowSource]
  origin s hs := by
    cases hwindow : t.method.isWindow with
    | true => exact (sources_limitsLast hwindow hs).1
    | false => exact (sources_limitsFirst hwindow hs).1
  filters s hs test := by
    rw [← Transform.filter_mem_limits]
    cases hwindow : t.method.isWindow with
    | true =>
      obtain ⟨-, step, hstep, hs⟩ := sources_limitsLast hwindow hs
      rw [hs, List.mem_cons, or_iff_right hstep.ne_filter.symm]
    | false =>
      obtain ⟨-, step, rest, hstep, hrest, hs⟩ := sources_limitsFirst hwindow hs
      have hformula : .filter test ∉ rest := by
        intro h
        obtain ⟨e, output, h⟩ := hrest _ h
        cases h
      rw [hs, List.mem_append, List.mem_cons, or_iff_right hstep.ne_filter.symm,
        or_iff_left hformula]
  limitsFirst hwindow s hs := (sources_limitsFirst hwindow hs).2
  limitsLast hwindow s hs := (sources_limitsLast hwindow hs).2
  value := by
    obtain ⟨s, hs, hname, hmethod⟩ := lineSource_computed m t
    obtain ⟨u, hu, hvalue⟩ := List.mem_flatMap.1 (value_mem_outputs m t.method)
    exact ⟨s, hs, hname, List.mem_flatMap.2 ⟨u, hmethod hu, hvalue⟩⟩

/-- The sources of trendlines are the blocks of each of them in turn, and behind these the rows of
all that are interactive if there are any. A block depends on the mark and the trendline alone. Of
the trendlines that a mark is given no two sources have the same name. -/
theorem allSources_chained (m : SeriesMark) :
    ∃ block : Trendline → List Source, (∀ t, Chain m t (block t)) ∧
      (∀ ts, allSources m ts = ts.flatMap block ++
        if ts.any isInteractive then
          [{ name := m.name ++ "_allTrendlineData"
             origin := .concatenated ((ts.filter isInteractive).map fun t => t.name ++ "_data") },
           .derive (m.name ++ "Trendline" ++ "_highlightedData") (m.name ++ "_allTrendlineData")
             [.filter (.highlighted (m.name ++ "Trendline")
               (ts.any fun t => hasPopover t.children))]]
        else []) ∧
      ∀ children ts, ofChildren children m.name = .ok ts →
        ((allSources m ts).map Source.name).Nodup := by
  refine ⟨sources m, sources_chain m, fun ts => ?_, fun children ts h => ?_⟩
  · rw [allSources]
    congr 1
    split_ifs with h
    · exact combinedSources_of_interactive m ts (List.any_eq_true.1 h)
    · have hnone : ts.filter isInteractive = [] := by simpa using h
      simp [combinedSources, hnone]
  · exact (allSources_namedFor (m := { m with children }) h).nodup

/-- A fit within a range and with a tooltip, a mean, and a moving average with a popover. -/
theorem allSources_chained_three :
    let m : SeriesMark := { name := "sales" }
    let children : List Child := [
      .trendline [.tooltip []] { dimensionRange := some (some 0, none) },
      .trendline [] { method := some "average" },
      .trendline [.popover none none] { method := some "movingAverage-7" }]
    ∃ ts, ofChildren children m.name = .ok ts ∧ ((allSources m ts).map Source.name).Nodup ∧
      (allSources m ts).map Source.name = [
        "salesTrendline0_highResolutionData", "salesTrendline0_params", "salesTrendline0_data",
        "salesTrendline1_data", "salesTrendline2_data", "sales_allTrendlineData",
        "salesTrendline_highlightedData"] := by
  intro m children
  obtain ⟨block, -, -, hnodup⟩ := allSources_chained m
  have hread : ofChildren children m.name = .ok _ := rfl
  exact ⟨_, hread, hnodup _ _ hread, rfl⟩

end Trendline

end ChartCompiler
