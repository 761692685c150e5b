import ChartCompiler.Proofs.Build.Drawn
import ChartCompiler.Proofs.Build.Parts

/-! Which sources hold the fields that a regression puts out: the curves of trendlines and no others.
-/

namespace ChartCompiler

open Trendline

def Transform.fitted : Transform → List String
  | .regression r => r.outputs.getD []
  | _ => []

def Source.fitted (s : Source) : List String := s.transforms.flatMap Transform.fitted

theorem DerivedField.Simple.fitted {f : DerivedField} (h : f.Simple) :
    f.transforms.flatMap Transform.fitted = [] :=
  h.flatMap_transforms (fun _ _ => rfl) fun _ => rfl

namespace Transform

@[simp] theorem inRange_fitted (dimension : String) (range : Option Number × Option Number) :
    (inRange dimension range).flatMap Transform.fitted = [] := by
  rw [inRange]
  cases Expr.all _ <;> rfl

@[simp] theorem params_fitted (m : SeriesMark) (method : FitMethod) :
    (statistical m method true).flatMap Transform.fitted = [] := by
  cases method <;> rfl

theorem statistical_fitted {m : SeriesMark} {method : FitMethod} (h : ¬method.isRegression) :
    (statistical m method false).flatMap Transform.fitted = [] := by
  cases method <;> first | rfl | exact absurd rfl h

@[simp] theorem curveFormula_fitted (method : FitMethod) (dimension : String) :
    (curveFormula method dimension).toList.flatMap Transform.fitted = [] := by
  rw [curveFormula]
  cases curve method dimension <;> rfl

end Transform

/-- Only the curve of a trendline is put out by a regression. -/
theorem Trendline.name_of_fitted {m : SeriesMark} {t : Trendline} {s : Source} (hs : s ∈ sources m t)
    (h : s.fitted ≠ []) : s.name = t.curveSource := by
  have hseries := (DerivedField.simple_seriesId m.facets.all).fitted
  have hlookup : (Transform.lookupParams t.name m.facets.all).fitted = [] := rfl
  rw [sources] at hs
  split_ifs at hs with hreg hint hwindow <;>
    simp only [List.mem_cons, List.not_mem_nil, or_false] at hs
  · rcases hs with rfl | rfl | rfl
    · rfl
    · simp [Source.fitted, Source.derive] at h
    · simp [Source.fitted, Source.derive, hlookup] at h
  · rw [hs]
    rfl
  · rw [hs] at h
    simp [Source.fitted, Source.derive, Transform.statistical_fitted hreg] at h
  · rw [hs] at h
    simp [Source.fitted, Source.derive, Transform.statistical_fitted hreg] at h

theorem Trendline.combinedSources_fitted {m : SeriesMark} {ts : List Trendline} {s : Source}
    (hs : s ∈ combinedSources m ts) : s.fitted = [] := by
  obtain ⟨-, rfl | rfl⟩ := mem_combinedSources hs <;> rfl

theorem SeriesMark.lineSources_fitted {m : SeriesMark} {s : Source} (hs : s ∈ m.lineSources) :
    s.fitted = [] := by
  rcases List.mem_append.1 hs with hs | hs
  · obtain ⟨f, -, rfl⟩ := Option.map_eq_some_iff.1 (Option.mem_toList.1 hs)
    rfl
  · split_ifs at hs
    · rw [List.mem_singleton.1 hs]
      rfl
    · exact absurd hs List.not_mem_nil

theorem ChartMark.curve_of_fitted {m : ChartMark} {ts : List Trendline}
    (hts : m.toSeriesMark.trendlines = .ok ts) {s : Source} (hs : s ∈ m.toCall.additions.sources)
    (h : s.fitted ≠ []) : ∃ t : Trendline, s.name = t.curveSource := by
  rw [additions_of_ok hts, Additions.append_sources, Additions.append_sources, finish_sources,
    List.append_nil, List.mem_append] at hs
  rcases hs with hs | hs
  · cases m with
    | line l => exact absurd (SeriesMark.lineSources_fitted hs) h
    | bar b => exact absurd hs List.not_mem_nil
  · rcases List.mem_append.1 hs with hs | hs
    · obtain ⟨t, -, hs⟩ := List.mem_flatMap.1 hs
      exact ⟨t, name_of_fitted hs h⟩
    · exact absurd (combinedSources_fitted hs) h

end ChartCompiler
