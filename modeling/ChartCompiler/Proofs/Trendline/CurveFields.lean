import ChartCompiler.Proofs.Build.SeriesIds
import ChartCompiler.Proofs.Chart.Facets
import ChartCompiler.Proofs.Trendline.Chains
import ChartCompiler.Proofs.Trendline.FittedCurve

/-! The fields of a regression's points. A regression keeps no field of the rows that it fits, only
those that it groups them by, and puts its two coordinates beside them. All that the line of a
trendline reads is among these, or it is the series id, which is computed anew behind the regression
from what it grouped by. -/

namespace ChartCompiler

def Expr.fieldsRead (e : Expr) : List String := e.parts.filterMap Expr.field?

def ChannelValue.fieldsRead (v : ChannelValue) : List String :=
  v.field.toList ++ v.exprs.flatMap Expr.fieldsRead

def Rule.fieldsRead (r : Rule) : List String := r.values.flatMap ChannelValue.fieldsRead

theorem Rule.fieldsRead_single (v : ChannelValue) : (single v).fieldsRead = v.fieldsRead :=
  List.flatMap_singleton _ v

/-- The fields that a mark reads off its rows: those that part them, those in its channels, and those
in the expressions of its transforms. -/
def Mark.fieldsRead (m : Mark) : List String :=
  m.partition?.toList.flatMap Partition.groupby ++ m.channels.flatMap (·.2.fieldsRead) ++
    (m.transforms.flatMap Transform.exprs).flatMap Expr.fieldsRead

theorem Expr.fieldsRead_foldl (op : Operator) (es : List Expr) (e : Expr) :
    (es.foldl (binary op) e).fieldsRead = e.fieldsRead ++ es.flatMap fieldsRead :=
  filterMap_parts_foldl (fun _ _ => rfl) es e

/-- A series id is computed from the fields of its series. -/
theorem DerivedField.fieldsRead_seriesId {fs : List String} {e : Expr}
    (he : Expr.sum ((fs.map Expr.datum).intersperse (.string " | ")) = some e) :
    e.fieldsRead = fs := by
  cases fs with
  | nil => cases he
  | cons f fs =>
    rw [Expr.intersperse_fields] at he
    obtain rfl := Option.some.inj he
    have hfirst : (Expr.datum f).fieldsRead = [f] := rfl
    have hnext (g : String) : [.string " | ", Expr.datum g].flatMap Expr.fieldsRead = [g] := rfl
    rw [Expr.fieldsRead_foldl, hfirst, List.flatMap_assoc]
    simp only [hnext, List.flatMap_singleton', List.singleton_append]

theorem Encoding.fieldsRead_colorValue {color : Encoding String} {scheme : ColorScheme} {f : String}
    (h : f ∈ (color.colorValue scheme).fieldsRead) : f ∈ color.fields := by
  cases color with
  | field g => exact h
  | dual g g' =>
    have hread : (colorValue scheme (.dual g g')).fieldsRead = [g, g', g] := rfl
    simpa [hread, fields, or_comm] using h
  | fixed c => cases h

namespace Trendline

variable {m : SeriesMark} {t : Trendline} {ts : List Trendline}

/-- A color of its own, or that of the mark. -/
theorem stroke_fieldsRead {f : String}
    (h : f ∈ (((t.color.map Encoding.fixed).getD m.color).colorValue m.scheme).fieldsRead) :
    f ∈ m.facets.all := by
  cases hcolor : t.color with
  | some c =>
    rw [hcolor] at h
    cases h
  | none =>
    rw [hcolor] at h
    exact Facets.mem_all.2 (.inl (Encoding.fieldsRead_colorValue h))

theorem dimensionValue_fieldsRead (m : SeriesMark) :
    (dimensionValue m).fieldsRead = [m.fitDimension] := by
  rw [dimensionValue, SeriesMark.fitDimension]
  split_ifs with htime
  · rfl
  · cases hscale : m.scaleType with
    | time => exact absurd (by rw [SeriesMark.onTimeScale, hscale]; rfl) htime
    | linear => rfl
    | point => rfl
    | band => rfl

theorem lineOpacity_fieldsRead (mark : String) (opacity : Number) (hover : Bool) :
    (lineOpacity mark (.fixed opacity) hover).fieldsRead =
      if hover then [Names.seriesId] else [] := by
  cases hover <;> rfl

theorem line_fieldsRead {f : String} (h : f ∈ (line m t).fieldsRead) :
    f ∈ m.facets.all ∨ f = m.fitDimension ∨ f = t.metric ∨ f = Names.seriesId ∧ t.displayOnHover := by
  have hpartition : (line m t).partition? = none := rfl
  have htransforms : (line m t).transforms = [] := rfl
  rw [Mark.fieldsRead, Mark.channels_of_rules (m := line m t) rfl (by simp) (by simp)] at h
  simp only [hpartition, htransforms, Option.toList_none, List.flatMap_nil, List.nil_append,
    List.append_nil, List.cons_append, List.flatMap_cons, List.mem_append,
    Rule.fieldsRead_single] at h
  rcases h with hy | hstroke | hdash | hwidth | hx | hopacity
  · exact .inr (.inr (.inl (List.mem_singleton.1 hy)))
  · exact .inl (stroke_fieldsRead hstroke)
  · cases hdash
  · cases hwidth
  · rw [dimensionValue_fieldsRead] at hx
    exact .inr (.inl (List.mem_singleton.1 hx))
  · rw [lineOpacity_fieldsRead] at hopacity
    split_ifs at hopacity with hhover
    · exact .inr (.inr (.inr ⟨List.mem_singleton.1 hopacity, hhover⟩))
    · cases hopacity

theorem group_fieldsRead (m : SeriesMark) (t : Trendline) :
    (group m t).fieldsRead = m.facets.all := by
  simp [Mark.fieldsRead, group, Mark.clipped, Mark.parted, Mark.partition?, Mark.channels]

/-- The points of a fit, in each series on their own. -/
theorem exists_fitted_points (m : SeriesMark) {method : FitMethod} (hreg : method.isRegression) :
    ∃ r : Regression, Transform.statistical m method false = [.regression r] ∧ r.params = false ∧
      r.groupby = m.facets.all ∧ r.outputs = some [m.fitDimension, Names.trendlineValue] := by
  cases method with
  | average => cases hreg
  | movingAverage _ => cases hreg
  | linear | quadratic | polynomial _ | exponential | logarithmic | power =>
    exact ⟨_, rfl, rfl, rfl, rfl⟩

/-- A curve ends with its regression and the series id, if there are series. -/
theorem exists_curve_transforms (hreg : t.method.isRegression) :
    ∃ s ∈ sources m t, s.name = t.curveSource ∧ ∃ (before : List Transform) (r : Regression),
      s.transforms = before ++ .regression r :: (DerivedField.seriesId r.groupby).transforms ∧
      r.params = false ∧ r.groupby = m.facets.all ∧
      r.outputs = some [m.fitDimension, Names.trendlineValue] := by
  obtain ⟨r, hpoints, hparams, hgroupby, houtputs⟩ := exists_fitted_points m hreg
  rw [sources, if_pos hreg, hpoints]
  refine ⟨_, List.mem_cons_self, rfl, Transform.inRange m.dimension t.dimensionRange, r, ?_,
    hparams, hgroupby, houtputs⟩
  rw [hgroupby]
  exact List.append_assoc _ _ _

/-- All that the group and the line of a regression read comes from the end of its curve: from the
fields that the regression groups by, its two coordinates, or the series id, which only a line that
is shown on hover reads. Of series the id is computed behind the regression from the fields of the
group; without series there is nothing behind it. -/
theorem curve_carries_fields (h : m.trendlines = .ok ts) (ht : t ∈ ts)
    (hreg : t.method.isRegression) :
    group m t ∈ allMarks m ts ∧ (group m t).marks = [line m t] ∧
    ∃ s ∈ allSources m ts, s.name = t.name ++ "_highResolutionData" ∧
      (group m t).partition?.map Partition.source = some s.name ∧
      ∃ (before : List Transform) (r : Regression) (after : List Transform),
        s.transforms = before ++ .regression r :: after ∧ r.params = false ∧
        r.groupby = m.facets.all ∧ r.outputs = some [m.fitDimension, Names.trendlineValue] ∧
        (∀ f ∈ (group m t).fieldsRead ++ (line m t).fieldsRead,
          f ∈ r.groupby ∨ f = m.fitDimension ∨ f = Names.trendlineValue ∨
            f = Names.seriesId ∧ t.displayOnHover) ∧
        (r.groupby ≠ [] → ∃ e, after = [.formula e Names.seriesId] ∧ e.fieldsRead = r.groupby) ∧
        (r.groupby = [] → after = []) := by
  obtain ⟨s, hs, hname, before, r, htransforms, hparams, hgroupby, houtputs⟩ :=
    exists_curve_transforms (m := m) hreg
  have hsource : (group m t).partition?.map Partition.source = some s.name := by
    rw [hname]
    exact congrArg some (if_pos hreg)
  refine ⟨List.mem_append_left _ (List.mem_map_of_mem ht), rfl, s,
    List.mem_append_left _ (List.mem_flatMap.2 ⟨t, ht, hs⟩), hname, hsource, before, r, _,
    htransforms, hparams, hgroupby, houtputs, ?_, fun hne => ?_, fun hnil => ?_⟩
  · intro f hf
    rw [hgroupby]
    rcases List.mem_append.1 hf with hf | hf
    · exact .inl (group_fieldsRead m t ▸ hf)
    · rw [← metric_of_ofListFrom h t ht]
      exact line_fieldsRead hf
  · obtain ⟨e, he, hsum⟩ := DerivedField.seriesId_transforms hne
    exact ⟨e, he, DerivedField.fieldsRead_seriesId hsum⟩
  · rw [hnil]
    rfl

/-- Lines over time by two fields of color and one of dashes, with a trendline shown on hover. -/
theorem curve_carries_fields_of_three :
    let m : SeriesMark := {
      color := .dual "region" "year", lineType := .field "kind"
      children := [.trendline [] { displayOnHover := some true }] }
    ∃ (ts : List Trendline) (t : Trendline), m.trendlines = .ok ts ∧ t ∈ ts ∧
      (line m t).fieldsRead =
        ["trendlineValue", "region", "year", "region", "datetimeNormalized", "rscSeriesId"] ∧
      ∃ s ∈ allSources m ts, ∃ (before : List Transform) (r : Regression) (e : Expr),
        s.transforms = before ++ [.regression r, .formula e Names.seriesId] ∧
        r.groupby = ["region", "kind", "year"] ∧ e.fieldsRead = r.groupby := by
  intro m
  have hread : m.trendlines = .ok _ := rfl
  obtain ⟨-, -, s, hs, -, -, before, r, after, htransforms, -, hgroupby, -, -, hafter, -⟩ :=
    curve_carries_fields hread List.mem_cons_self rfl
  have hfacets : m.facets.all = ["region", "kind", "year"] := by decide
  obtain ⟨e, rfl, he⟩ := hafter (by rw [hgroupby, hfacets]; decide)
  exact ⟨_, _, hread, List.mem_cons_self, rfl, s, hs, before, r, e, htransforms,
    hgroupby.trans hfacets, he⟩

end Trendline

end ChartCompiler
