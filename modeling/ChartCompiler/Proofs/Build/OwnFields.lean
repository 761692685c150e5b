import ChartCompiler.Proofs.Build.Days

/-! Whose fields the table computes. The date and the series id have one name in every chart, so the
first mark that asks for one decides it for all: the first line on a time scale gives its dimension
to the date, and the first mark with fields that split its rows gives these to the series id. A mark
finds its own there exactly if it agrees with that first mark. -/

namespace ChartCompiler

open Trendline

namespace Expr

def summands : Expr → List Expr
  | .binary .add l r => summands l ++ [r]
  | e => [e]

def field? : Expr → Option String
  | .member (.ident "datum") f => some f
  | _ => none

theorem summands_foldl (e : Expr) (es : List Expr) :
    summands (es.foldl (.binary .add) e) = summands e ++ es := by
  induction es generalizing e with
  | nil => rw [List.foldl_nil, List.append_nil]
  | cons e' es ih => rw [List.foldl_cons, ih, summands, List.append_assoc, List.singleton_append]

theorem field?_intersperse (fs : List String) (s : String) :
    ((fs.map datum).intersperse (.string s)).filterMap field? = fs := by
  match fs with
  | [] => rfl
  | [f] => rfl
  | f :: g :: fs =>
    have hfield : field? (datum f) = some f := rfl
    have hbetween : field? (.string s) = none := rfl
    have ih := field?_intersperse (g :: fs) s
    rw [List.map_cons] at ih
    rw [List.map_cons, List.map_cons, List.intersperse_cons_cons, List.filterMap_cons_some hfield,
      List.filterMap_cons_none hbetween, ih]

/-- The fields whose values a sum puts together, whatever stands between them. -/
theorem fields_of_sum {fs : List String} {s : String} {e : Expr}
    (h : sum ((fs.map datum).intersperse (.string s)) = some e) :
    e.summands.filterMap field? = fs := by
  suffices e.summands = (fs.map datum).intersperse (.string s) by rw [this, field?_intersperse]
  match fs with
  | [] => cases h
  | [f] =>
    cases h
    rfl
  | f :: g :: fs =>
    rw [List.map_cons, List.map_cons, List.intersperse_cons_cons] at h ⊢
    obtain rfl := Option.some.inj h
    exact summands_foldl _ _

end Expr

namespace DerivedField

/-- A series id by a formula exists exactly for fields, and the formula tells them. -/
theorem formula_seriesId {fs : List String} {e : Expr}
    (h : .formula e Names.seriesId ∈ (seriesId fs).transforms) : e.summands.filterMap Expr.field? = fs := by
  obtain ⟨e', he', heq⟩ := Option.map_eq_some_iff.1 (Option.mem_toList.1 h)
  cases heq
  exact Expr.fields_of_sum he'

theorem exists_formula_seriesId {fs : List String} (h : fs ≠ []) :
    ∃ e, .formula e Names.seriesId ∈ (seriesId fs).transforms := by
  match fs with
  | [f] => exact ⟨_, List.mem_singleton_self _⟩
  | f :: g :: fs => exact ⟨_, List.mem_singleton_self _⟩

@[simp] theorem writes_date (dimension n : String) :
    writes (date dimension).transforms n = (Names.date == n) := by
  simp [writes, date, Transform.output?]

@[simp] theorem writes_normalized (dimension n : String) :
    writes (normalized dimension).transforms n = (ChartCompiler.normalized dimension == n) := by
  simp [writes, normalized, Transform.output?]

theorem writes_seriesId {fs : List String} (h : fs ≠ []) (n : String) :
    writes (seriesId fs).transforms n = (Names.seriesId == n) := by
  match fs with
  | [f] => simp [writes, seriesId, Transform.output?, Expr.sum, Expr.join]
  | f :: g :: fs => simp [writes, seriesId, Transform.output?, Expr.sum, Expr.join]

end DerivedField

/-- The table has the formula of the first field that writes a name, unless the name is written to
begin with. -/
theorem formula_mem_foldl_addField {fs : List DerivedField} (hfs : ∀ f ∈ fs, f.Simple)
    {ts : List Transform} {e : Expr} {n : String} :
    .formula e n ∈ fs.foldl addField ts ↔
      .formula e n ∈ ts ∨ writes ts n = false ∧
        ∃ f, fs.find? (fun f => writes f.transforms n) = some f ∧ .formula e n ∈ f.transforms := by
  induction fs generalizing ts with
  | nil => simp
  | cons f fs ih =>
    obtain ⟨hf, hfs⟩ := List.forall_mem_cons.1 hfs
    rw [List.foldl_cons, ih hfs, addField, List.find?_cons]
    by_cases hn : writes f.transforms n
    · obtain rfl := hf.writes_eq hn
      cases hw : writes ts f.name <;> simp [hn, hw, writes_append]
    · have hnone : .formula e n ∉ f.transforms := fun h =>
        hn (List.any_eq_true.2 ⟨_, h, by simp [Transform.output?]⟩)
      cases hw : writes ts f.name <;> simp [hn, hnone, writes_append]

def Document.ComputesBy (d : Document) (field : String) (e : Expr) : Prop :=
  ∃ s ∈ d.sources, s.name = Names.table ∧ .formula e field ∈ s.transforms

namespace ChartMark

/-- The dimension of a line on a time scale. Bars are never on one. -/
def timeDimension? : ChartMark → Option String
  | line l => if l.onTimeScale then some l.dimension else none
  | bar _ => none

def splitBy? (m : ChartMark) : Option (List String) :=
  if m.toSeriesMark.facets.all = [] then none else some m.toSeriesMark.facets.all

theorem splitBy?_eq_some {m : ChartMark} {fs : List String} :
    m.splitBy? = some fs ↔ fs ≠ [] ∧ m.toSeriesMark.facets.all = fs := by
  rw [splitBy?, Option.ite_none_left_eq_some, Option.some_inj]
  constructor
  · rintro ⟨hne, rfl⟩
    exact ⟨hne, rfl⟩
  · rintro ⟨hne, rfl⟩
    exact ⟨hne, rfl⟩

theorem base_fields (m : ChartMark) :
    m.base.fields = (m.timeDimension?.map DerivedField.date).toList ++
      [.seriesId m.toSeriesMark.facets.all] := by
  cases m with
  | line l =>
    simp only [base, SeriesMark.lineBase, SeriesMark.lineFields, timeDimension?, toSeriesMark]
    split_ifs <;> rfl
  | bar b => rfl

/-- Trendlines ask for days only. -/
theorem find?_fields {n : String} (hn : ¬"Normalized".toList <:+ n.toList) (m : ChartMark) :
    m.toCall.additions.fields.find? (fun f => writes f.transforms n) =
      m.base.fields.find? fun f => writes f.transforms n := by
  have htrendlines : m.toSeriesMark.trendlineAdditions.fields.find?
      (fun f => writes f.transforms n) = none := by
    refine SeriesMark.trendlineAdditions_induction (P := fun a => a.fields.find? _ = none) rfl ?_
    intro ts
    simp only [Trendline.additions]
    split_ifs
    · simp [normalized_ne hn]
    · rfl
  have hfields : m.toCall.additions.fields =
      m.base.fields ++ m.toSeriesMark.trendlineAdditions.fields := by
    cases m with
    | line l => simp [toCall, Call.additions, base, toSeriesMark]
    | bar b => rfl
  rw [hfields, List.find?_append, htrendlines, Option.or_none]

theorem find?_date (m : ChartMark) :
    m.toCall.additions.fields.find? (fun f => writes f.transforms Names.date) =
      m.timeDimension?.map DerivedField.date := by
  have hseries (fs : List String) : writes (DerivedField.seriesId fs).transforms Names.date = false := by
    cases fs with
    | nil => rfl
    | cons f fs =>
      rw [DerivedField.writes_seriesId (List.cons_ne_nil f fs)]
      decide
  rw [find?_fields (by decide), base_fields, List.find?_append]
  cases m.timeDimension? <;> simp [hseries]

theorem find?_seriesId (m : ChartMark) :
    m.toCall.additions.fields.find? (fun f => writes f.transforms Names.seriesId) =
      m.splitBy?.map DerivedField.seriesId := by
  have hdate : (m.timeDimension?.map DerivedField.date).toList.find?
      (fun f => writes f.transforms Names.seriesId) = none := by
    cases m.timeDimension? <;> simp [Names.date, Names.seriesId]
  rw [find?_fields (by decide), base_fields, List.find?_append, hdate, Option.none_or, splitBy?]
  split_ifs with hnone
  · rw [hnone]
    rfl
  · simp [DerivedField.writes_seriesId hnone]

@[simp] theorem withScheme_timeDimension? (scheme : ColorScheme) (m : ChartMark) :
    (m.withScheme scheme).timeDimension? = m.timeDimension? := by
  cases m <;> rfl

@[simp] theorem withScheme_splitBy? (scheme : ColorScheme) (m : ChartMark) :
    (m.withScheme scheme).splitBy? = m.splitBy? := by
  cases m <;> rfl

end ChartMark

/-- The curve of a regression has the series id of the mark that it is a trendline of. -/
theorem Trendline.exists_curve (m : SeriesMark) {t : Trendline} (hreg : t.method.isRegression) :
    ∃ s ∈ sources m t, s.name = t.curveSource ∧ ∀ e, .formula e Names.seriesId ∈ s.transforms ↔
      .formula e Names.seriesId ∈ (DerivedField.seriesId m.facets.all).transforms := by
  have hrange (e : Expr) :
      .formula e Names.seriesId ∉ Transform.inRange m.dimension t.dimensionRange := by
    simp [Transform.inRange]
  have hfit (e : Expr) : .formula e Names.seriesId ∉ Transform.statistical m t.method false := by
    cases t.method <;> simp [Transform.statistical, Transform.average, Transform.movingAverage,
      Transform.fit]
  rw [sources, if_pos hreg]
  refine ⟨_, List.mem_cons_self, rfl, fun e => ?_⟩
  simp [Source.derive, hrange, hfit]

namespace Chart

variable {c : Chart} {d : Document}

/-- The fields that a mark of the chart reads off the table are computed from what the mark itself
is over: the date from its dimension, and the series id from its facets, as on the curves of its
trendlines. -/
structure OwnFields (c : Chart) (d : Document) (m : ChartMark) : Prop where
  date : ∀ dimension, m.timeDimension? = some dimension →
    ∀ e, d.ComputesBy Names.date e ↔ e = .call "toDate" [.datum dimension]
  series : ∀ fs, m.splitBy? = some fs →
    ∀ e, d.ComputesBy Names.seriesId e ↔ .formula e Names.seriesId ∈ (DerivedField.seriesId fs).transforms
  curves : m.splitBy?.isSome → ∀ ts, m.toSeriesMark.trendlines = .ok ts →
    ∀ t ∈ ts, t.method.isRegression → (∃ s ∈ c.sourcesOf m, s.name = t.curveSource) ∧
      ∀ s ∈ c.sourcesOf m, s.name = t.curveSource →
        ∀ e, .formula e Names.seriesId ∈ s.transforms ↔ d.ComputesBy Names.seriesId e

def timeDimension? (c : Chart) : Option String := c.marks.findSome? ChartMark.timeDimension?

def splitBy? (c : Chart) : Option (List String) := c.marks.findSome? ChartMark.splitBy?

/-- The first field of a name is that of the first mark that asks for one. -/
theorem find?_fields {α : Type} {n : String} {asked : ChartMark → Option α} {field : α → DerivedField}
    (hasked : ∀ m : ChartMark, m.toCall.additions.fields.find? (fun f => writes f.transforms n) =
      (asked m).map field)
    (hscheme : ∀ m : ChartMark, asked (m.withScheme c.scheme) = asked m) :
    c.additions.fields.find? (fun f => writes f.transforms n) =
      (c.marks.findSome? asked).map field := by
  simp only [additions, Additions.flatten, calls, List.flatMap_map, List.find?_flatMap, hasked,
    hscheme, List.map_findSome?, Function.comp_def]

theorem computesBy_iff (h : c.build = .ok d) {n : String} (hn : n ≠ Names.markId) {e : Expr} :
    d.ComputesBy n e ↔ ∃ f, c.additions.fields.find? (fun f => writes f.transforms n) = some f ∧
      .formula e n ∈ f.transforms := by
  have htable : d.ComputesBy n e ↔
      .formula e n ∈ c.additions.fields.foldl addField [.identifier Names.markId] := by
    constructor
    · rintro ⟨s, hs, hname, he⟩
      rwa [table_of_name h hs hname] at he
    · exact fun he => ⟨_, by rw [sources_build h]; exact List.mem_cons_self, rfl, he⟩
  have hstart : writes [.identifier Names.markId] n = false := by
    simpa [writes, Transform.output?] using hn.symm
  rw [htable, formula_mem_foldl_addField additions_fields_simple, or_iff_right (by simp),
    and_iff_right hstart]

theorem computesBy_date (h : c.build = .ok d) {e : Expr} :
    d.ComputesBy Names.date e ↔
      ∃ dimension, c.timeDimension? = some dimension ∧ e = .call "toDate" [.datum dimension] := by
  rw [computesBy_iff h (by decide), find?_fields ChartMark.find?_date (by simp), ← timeDimension?]
  cases c.timeDimension? <;> simp [DerivedField.date]

theorem computesBy_seriesId (h : c.build = .ok d) {e : Expr} :
    d.ComputesBy Names.seriesId e ↔
      ∃ fs, c.splitBy? = some fs ∧ .formula e Names.seriesId ∈ (DerivedField.seriesId fs).transforms := by
  rw [computesBy_iff h (by decide), find?_fields ChartMark.find?_seriesId (by simp), ← splitBy?]
  cases c.splitBy? <;> simp

/-- The source of a curve is the only one of its mark that is called so. -/
theorem curve_of_name (h : c.build = .ok d) {m : ChartMark} (hm : m ∈ c.marks) {ts : List Trendline}
    (hts : m.toSeriesMark.trendlines = .ok ts) {t : Trendline} (ht : t ∈ ts)
    (hreg : t.method.isRegression) : (∃ s ∈ c.sourcesOf m, s.name = t.curveSource) ∧
      ∀ s ∈ c.sourcesOf m, s.name = t.curveSource → ∀ e, .formula e Names.seriesId ∈ s.transforms ↔
        .formula e Names.seriesId ∈ (DerivedField.seriesId m.toSeriesMark.facets.all).transforms := by
  obtain ⟨s, hs, hname, hseries⟩ := exists_curve (m.withScheme c.scheme).toSeriesMark hreg
  have hs : s ∈ c.sourcesOf m := by
    rw [sourcesOf, ChartMark.additions_of_ok (by simpa using hts)]
    have hall : s ∈ allSources (m.withScheme c.scheme).toSeriesMark ts :=
      List.mem_append_left _ (List.mem_flatMap.2 ⟨t, ht, hs⟩)
    simp [Trendline.additions, hall]
  refine ⟨⟨s, hs, hname⟩, fun s' hs' hname' e => ?_⟩
  obtain ⟨rs, hnamed⟩ := sourcesOf_namedFor h hm
  obtain rfl := List.inj_on_of_nodup_map hnamed.nodup hs hs' (hname.trans hname'.symm)
  have hfacets : (m.withScheme c.scheme).toSeriesMark.facets = m.toSeriesMark.facets := by
    cases m <;> rfl
  rw [hseries, hfacets]

/-- A mark reads its own fields exactly if no mark before it has asked for others. -/
theorem ownFields_iff (h : c.build = .ok d) {m : ChartMark} (hm : m ∈ c.marks) :
    c.OwnFields d m ↔
      (∀ dimension, m.timeDimension? = some dimension → c.timeDimension? = some dimension) ∧
        ∀ fs, m.splitBy? = some fs → c.splitBy? = some fs := by
  constructor
  · intro hown
    constructor
    · intro dimension hdim
      obtain ⟨dimension', hfirst, he⟩ := (computesBy_date h).1 ((hown.date dimension hdim _).2 rfl)
      cases he
      exact hfirst
    · intro fs hfs
      obtain ⟨e, he⟩ := DerivedField.exists_formula_seriesId (ChartMark.splitBy?_eq_some.1 hfs).1
      obtain ⟨fs', hfirst, he'⟩ := (computesBy_seriesId h).1 ((hown.series fs hfs e).2 he)
      rw [hfirst, ← DerivedField.formula_seriesId he, ← DerivedField.formula_seriesId he']
  · rintro ⟨hdate, hseries⟩
    refine ⟨fun dimension hdim e => ?_, fun fs hfs e => ?_, fun hsplit ts hts t ht hreg => ?_⟩
    · simp [computesBy_date h, hdate dimension hdim]
    · simp [computesBy_seriesId h, hseries fs hfs]
    · obtain ⟨fs, hfs⟩ := Option.isSome_iff_exists.1 hsplit
      have hcurve := curve_of_name h hm hts ht hreg
      rw [(ChartMark.splitBy?_eq_some.1 hfs).2] at hcurve
      simpa [computesBy_seriesId h, hseries fs hfs] using hcurve

/-- Two lines and a bar with the same series, the lines over the same time. -/
theorem ownFields_of_one_series :
    let c : Chart := { marks := [
      .bar {},
      .line { metric := "sales" },
      .line { name := "line1", children := [.trendline [] { displayOnHover := some true }] }] }
    ∃ d, c.build = .ok d ∧ ∀ m ∈ c.marks, c.OwnFields d m := by
  intro c
  have h : c.build = .ok _ := rfl
  refine ⟨_, h, fun m hm => (ownFields_iff h hm).2 ?_⟩
  have hdate : c.timeDimension? = some "datetime" := rfl
  have hseries : c.splitBy? = some ["series"] := rfl
  rw [hdate, hseries]
  simp only [c, List.mem_cons, List.not_mem_nil, or_false] at hm
  rcases hm with rfl | rfl | rfl
  · exact ⟨nofun, fun _ => id⟩
  · exact ⟨fun _ => id, fun _ => id⟩
  · exact ⟨fun _ => id, fun _ => id⟩

/-- Bars stand in front of a line with other series. The trendline of the line is shown for the series
pointed at by the id of its own, and the table has that of the bars, which read none. -/
theorem not_ownFields_line_after_bars :
    ¬∀ (c : Chart) (d : Document), c.build = .ok d → ∀ m ∈ c.marks, c.OwnFields d m := by
  intro hall
  let m : ChartMark := .line {
    color := .field "region"
    children := [.tooltip [], .trendline [] { displayOnHover := some true }] }
  let c : Chart := { marks := [.bar {}, m] }
  have h : c.build = .ok _ := rfl
  have hown := hall c _ h m (by simp [c])
  obtain ⟨e, he⟩ := DerivedField.exists_formula_seriesId (List.cons_ne_nil "region" [])
  obtain ⟨fs, hfirst, he'⟩ := (computesBy_seriesId h).1 ((hown.series ["region"] rfl e).2 he)
  obtain rfl : ["series"] = fs := Option.some.inj hfirst
  have hsame := (DerivedField.formula_seriesId he).symm.trans (DerivedField.formula_seriesId he')
  exact absurd hsame (by decide)

end Chart

end ChartCompiler
