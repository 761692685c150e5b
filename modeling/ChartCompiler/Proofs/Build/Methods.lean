import ChartCompiler.Proofs.Build.Parts

/-! When a chart cannot be built. The marks are added in order, and each reads the methods of the
trendlines right under it in order, so the first text that writes no method is the error of the
chart. All other texts, the children of trendlines among them, are never read. -/

namespace ChartCompiler

def BuildError.method : BuildError → String
  | .badPolynomialOrder s | .badMovingAverageWidth s | .unknownMethod s => s

namespace FitMethod

def error? (s : String) : Option BuildError :=
  match ofText s with
  | .ok _ => none
  | .error e => some e

variable {s : String} {e : BuildError}

theorem error?_eq_none_iff : error? s = none ↔ ∃ k, ofText s = .ok k := by
  rw [error?]
  cases ofText s <;> simp

theorem error?_eq_some_iff : error? s = some e ↔ ofText s = .error e := by
  rw [error?]
  cases ofText s <;> simp

/-- An error holds the whole text. -/
theorem method_of_ofText (h : ofText s = .error e) : e.method = s := by
  have hcount {f : PositiveCount → FitMethod} {bad : String → BuildError} {count : Option PositiveCount}
      (hbad : (bad s).method = s)
      (h : (count.map f).elim (.error (bad s)) .ok = Except.error e) : e.method = s := by
    cases count with
    | none =>
      cases h
      exact hbad
    | some n => cases h
  rw [ofText] at h
  split at h
  · exact hcount rfl h
  · split at h
    · exact hcount rfl h
    · split_ifs at h
      cases h
      rfl

end FitMethod

/-- The method that a trendline names. What hangs under it names none for its mark. -/
def Child.method? : Child → Option String
  | .trendline _ o => o.method
  | _ => none

def SeriesMark.methods (m : SeriesMark) : List String := m.children.filterMap Child.method?

def Chart.methods (c : Chart) : List String := c.marks.flatMap fun m => m.toSeriesMark.methods

namespace Trendline

variable {children : List Child} {o : TrendlineOptions} {mark : String} {index : Nat}

theorem ofOptions_of_none (h : o.method = none) : ∃ t, ofOptions children o mark index = .ok t := by
  rw [ofOptions, h]
  exact ⟨_, rfl⟩

/-- A trendline fails on its own method only. -/
theorem ofOptions_of_some {s : String} (h : o.method = some s) :
    (FitMethod.error? s = none ∧ ∃ t, ofOptions children o mark index = .ok t) ∨
      ∃ e, FitMethod.error? s = some e ∧ ofOptions children o mark index = .error e := by
  rw [ofOptions, h, FitMethod.error?]
  dsimp only
  cases FitMethod.ofText s with
  | ok k => exact .inl ⟨rfl, _, rfl⟩
  | error e => exact .inr ⟨e, rfl, rfl⟩

theorem ofListFrom_error_iff {os : List (List Child × TrendlineOptions)} {e : BuildError} :
    ofListFrom mark index os = .error e ↔
      (os.filterMap fun o => o.2.method).findSome? FitMethod.error? = some e := by
  induction os generalizing index with
  | nil => simp [ofListFrom]
  | cons o os ih =>
    obtain ⟨children, o⟩ := o
    -- behind a trendline that is read, the error is that of the rest
    have hrest {t : Trendline} (ht : ofOptions children o mark index = .ok t) :
        ofListFrom mark index ((children, o) :: os) = .error e ↔
          ofListFrom mark (index + 1) os = .error e := by
      rw [ofListFrom, ht]
      cases ofListFrom mark (index + 1) os <;> simp [bind, Except.bind, pure, Except.pure]
    rw [List.filterMap_cons]
    cases hm : o.method with
    | none =>
      obtain ⟨t, ht⟩ := ofOptions_of_none hm
      exact (hrest ht).trans ih
    | some s =>
      rw [List.findSome?_cons]
      rcases ofOptions_of_some hm with ⟨hs, t, ht⟩ | ⟨e', hs, ht⟩
      · rw [hs]
        exact (hrest ht).trans ih
      · rw [hs, ofListFrom, ht]
        simp [bind, Except.bind]

end Trendline

theorem SeriesMark.error?_eq (m : SeriesMark) : m.error? = m.methods.findSome? FitMethod.error? := by
  have hmethods : m.methods =
      (m.children.filterMap Child.trendline?).filterMap fun o => o.2.method := by
    rw [methods, List.filterMap_filterMap]
    congr 1
    funext c
    cases c <;> rfl
  have herror {e : BuildError} : m.trendlines = .error e ↔
      m.methods.findSome? FitMethod.error? = some e := by
    rw [hmethods]
    exact Trendline.ofListFrom_error_iff
  rw [error?]
  cases h : m.trendlines with
  | ok ts =>
    refine (Option.eq_none_iff_forall_ne_some.2 fun e he => ?_).symm
    rw [herror.2 he] at h
    cases h
  | error e => exact (herror.1 h).symm

/-- Marks are added up to the first one that fails. -/
theorem Document.addMarks_error (scheme : ColorScheme) (width height : Option Number)
    (a : Additions) (ms : List ChartMark) (e : BuildError) :
    (after scheme width height a).addMarks ms = .error e ↔
      (ms.flatMap fun m => m.toSeriesMark.methods).findSome? FitMethod.error? = some e := by
  induction ms generalizing a with
  | nil => simp [addMarks]
  | cons m ms ih =>
    have hcall : (after scheme width height a).addMark m =
        m.toCall.apply (after scheme width height a) := by cases m <;> rfl
    rw [addMarks, hcall, apply_after, ChartMark.mark_toCall, SeriesMark.error?_eq, List.flatMap_cons,
      List.findSome?_append]
    cases m.toSeriesMark.methods.findSome? FitMethod.error? with
    | none => exact ih _
    | some e' => simp

def Child.bare : Child → Child
  | .trendline _ o => .trendline [] o
  | c => c

def ChartMark.withChildren (cs : List Child) : ChartMark → ChartMark
  | .line m => .line { m with children := cs }
  | .bar b => .bar { b with children := cs }

def Chart.bare (c : Chart) : Chart :=
  { c with marks := c.marks.map fun m => m.withChildren (m.toSeriesMark.children.map Child.bare) }

namespace Chart

variable (c : Chart)

theorem methods_bare : c.bare.methods = c.methods := by
  have hmark (m : ChartMark) : (m.withChildren (m.toSeriesMark.children.map Child.bare)).toSeriesMark =
      { m.toSeriesMark with children := m.toSeriesMark.children.map Child.bare } := by
    cases m <;> rfl
  have hchild : Child.method? ∘ Child.bare = Child.method? := by
    funext c
    cases c <;> rfl
  simp only [methods, bare, List.flatMap_map, hmark, SeriesMark.methods, List.filterMap_map, hchild]

theorem build_eq_error_iff (e : BuildError) :
    c.build = .error e ↔ c.methods.findSome? FitMethod.error? = some e := by
  have hmethods (m : ChartMark) : (m.withScheme c.scheme).toSeriesMark.methods =
      m.toSeriesMark.methods := by
    cases m <;> rfl
  rw [build, Document.start_eq, Document.addMarks_error, List.flatMap_map]
  simp only [hmethods, methods]

theorem exists_build_iff :
    (∃ d, c.build = .ok d) ↔ c.methods.findSome? FitMethod.error? = none := by
  rw [Option.eq_none_iff_forall_ne_some]
  simp only [ne_eq, ← build_eq_error_iff]
  cases c.build <;> simp

/-- A chart is built exactly if all methods right under its marks can be read, and else the first
that cannot is its error, with the whole text. Nothing that hangs deeper has a part in it. -/
theorem build_fails_first :
    ((∃ d, c.build = .ok d) ↔ ∀ s ∈ c.methods, ∃ k, FitMethod.ofText s = .ok k) ∧
    (∀ e, c.build = .error e ↔ ∃ before s after, c.methods = before ++ s :: after ∧
      (∀ r ∈ before, ∃ k, FitMethod.ofText r = .ok k) ∧ FitMethod.ofText s = .error e ∧
      e.method = s) ∧
    ∀ e, c.bare.build = .error e ↔ c.build = .error e := by
  refine ⟨?_, fun e => ?_, fun e => ?_⟩
  · rw [exists_build_iff, List.findSome?_eq_none_iff]
    simp only [FitMethod.error?_eq_none_iff]
  · rw [build_eq_error_iff, List.findSome?_eq_some_iff]
    simp only [FitMethod.error?_eq_none_iff, FitMethod.error?_eq_some_iff]
    constructor
    · rintro ⟨before, s, after, hmethods, hs, hbefore⟩
      exact ⟨before, s, after, hmethods, hbefore, hs, FitMethod.method_of_ofText hs⟩
    · rintro ⟨before, s, after, hmethods, hbefore, hs, -⟩
      exact ⟨before, s, after, hmethods, hs, hbefore⟩
  · rw [build_eq_error_iff, build_eq_error_iff, methods_bare]

end Chart

end ChartCompiler
