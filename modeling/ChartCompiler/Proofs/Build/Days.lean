import ChartCompiler.Proofs.Build.Declared
import ChartCompiler.Proofs.Build.Fitted
import ChartCompiler.Proofs.Build.SourceNames

/-! The days of a time dimension, which trendlines on a time scale are laid out over. The scale of
the days and the lines are there for every trendline on a time scale, while the days are computed
only where a regression is fitted over them. So they are there exactly if, for every time dimension
with trendlines, some mark over the same dimension has a regression. -/

namespace ChartCompiler

open Trendline

def Document.Computes (d : Document) (field : String) : Prop :=
  ∃ s ∈ d.sources, s.name = Names.table ∧ ∃ e, .formula e field ∈ s.transforms

def Document.Fits (d : Document) (source field : String) : Prop :=
  ∃ s ∈ d.sources, s.name = source ∧ field ∈ s.fitted

def Mark.LiesOnDays (m : Mark) (field : String) : Prop :=
  ∃ rule, ("x", rule) ∈ m.channels ∧
    ∃ v ∈ rule.values, v.scale = some Names.trendlineScale ∧ v.field = some field

/-- Wherever the scale of the days stands, its field is computed: on the table for the domain of the
scale, and for a mark laid out by it on the table or in the source that the group around the mark
draws from. -/
structure Document.ComputesDays (d : Document) : Prop where
  domain : ∀ s ∈ d.scales, s.name = Names.trendlineScale →
    ∀ dom ∈ s.domain, dom.source = Names.filteredTable → ∀ f ∈ dom.fields, d.Computes f
  marks : ∀ enclosing earlier m, Placed d.marks enclosing earlier m → ∀ f, m.LiesOnDays f →
    d.Computes f ∨ ∃ p ∈ enclosing, d.Fits p.source f

theorem normalized_inj {a b : String} : normalized a = normalized b ↔ a = b :=
  String.append_left_inj _

theorem normalized_ne {a n : String} (hn : ¬"Normalized".toList <:+ n.toList) :
    normalized a ≠ n := by
  rintro rfl
  rw [normalized, String.toList_append] at hn
  exact hn (List.suffix_append _ _)

namespace ChartMark

variable {m : ChartMark} {ts : List Trendline} {f : DerivedField}

/-- The fields of a mark are a date, its series, and the days where they are needed. -/
theorem mem_fields (hts : m.toSeriesMark.trendlines = .ok ts)
    (hf : f ∈ m.toCall.additions.fields) :
    f.name = Names.date ∨ f.name = Names.seriesId ∨
      (f = .normalized m.toSeriesMark.dimension ∧ needsDays m.toSeriesMark ts) := by
  have htrend (hf : f ∈ (Trendline.additions m.toSeriesMark ts).fields) :
      f = .normalized m.toSeriesMark.dimension ∧ needsDays m.toSeriesMark ts := by
    simp only [Trendline.additions] at hf
    split_ifs at hf with hneeds
    · exact ⟨List.mem_singleton.1 hf, hneeds⟩
    · exact absurd hf List.not_mem_nil
  rw [additions_of_ok hts, Additions.append_fields, Additions.append_fields, finish_fields,
    List.append_nil, List.mem_append] at hf
  rcases hf with hf | hf
  · cases m with
    | line l =>
      rcases List.mem_append.1 hf with hf | hf
      · split_ifs at hf
        · rw [List.mem_singleton.1 hf]
          exact .inl rfl
        · exact absurd hf List.not_mem_nil
      · rw [List.mem_singleton.1 hf]
        exact .inr (.inl rfl)
    | bar b =>
      rw [List.mem_singleton.1 hf]
      exact .inr (.inl rfl)
  · exact .inr (.inr (htrend hf))

end ChartMark

namespace Chart

variable {c : Chart} {d : Document}

theorem additions_fields_simple : ∀ f ∈ c.additions.fields, f.Simple := by
  intro f hf
  obtain ⟨m, -, hf⟩ := mem_additions_fields.1 hf
  exact Call.fields_simple _ f hf

def FitsDays (c : Chart) (dimension : String) : Prop :=
  ∃ m ∈ c.marks, m.toSeriesMark.onTimeScale ∧ m.toSeriesMark.dimension = dimension ∧
    m.toSeriesMark.HasTrendline fun t => t.method.isRegression

theorem fitsDays_of_mem_fields (h : c.build = .ok d) {f : DerivedField} (hf : f ∈ c.additions.fields)
    {dimension : String} (hname : f.name = normalized dimension) :
    f = .normalized dimension ∧ c.FitsDays dimension := by
  obtain ⟨m, hm, hf⟩ := mem_additions_fields.1 hf
  obtain ⟨ts, hts⟩ := trendlines_of_build h m hm
  rcases ChartMark.mem_fields (by simpa using hts) hf with hdate | hseries | ⟨hf, hneeds⟩
  · exact absurd (hname.symm.trans hdate) (normalized_ne (by decide))
  · exact absurd (hname.symm.trans hseries) (normalized_ne (by decide))
  · rw [ChartMark.withScheme_dimension] at hf
    have hdimension : m.toSeriesMark.dimension = dimension := by
      rw [hf] at hname
      exact normalized_inj.1 hname
    simp only [needsDays, ChartMark.withScheme_onTimeScale, Bool.and_eq_true,
      List.any_eq_true] at hneeds
    rw [← hdimension]
    exact ⟨hf, m, hm, hneeds.1, rfl, ts, hts, hneeds.2⟩

/-- The days are a field that is asked for wherever a regression is fitted over them. -/
theorem mem_fields_of_fitsDays {dimension : String} (h : c.FitsDays dimension) :
    DerivedField.normalized dimension ∈ c.additions.fields := by
  obtain ⟨m, hm, htime, rfl, ts, hts, hreg⟩ := h
  have hneeds : needsDays (m.withScheme c.scheme).toSeriesMark ts := by
    simpa [needsDays, htime] using hreg
  have hadded : DerivedField.normalized m.toSeriesMark.dimension ∈
      (Trendline.additions (m.withScheme c.scheme).toSeriesMark ts).fields := by
    simp [Trendline.additions, hneeds]
  refine mem_additions_fields.2 ⟨m, hm, ?_⟩
  rw [ChartMark.additions_of_ok (by simpa using hts)]
  exact List.mem_append_left _ (List.mem_append_right _ hadded)

/-- Only the table is called so. -/
theorem table_of_name (h : c.build = .ok d) {s : Source} (hs : s ∈ d.sources)
    (hname : s.name = Names.table) :
    s = .tableOf (c.additions.fields.foldl addField [.identifier Names.markId]) := by
  obtain ⟨i, hi⟩ := List.mem_iff_getElem?.1 hs
  match i with
  | 0 =>
    rw [sources_build h] at hi
    exact (Option.some_inj.1 hi).symm
  | 1 =>
    rw [name_of_lt_two h (by decide) hi] at hname
    exact absurd hname (by decide)
  | i + 2 => exact absurd hname (name_of_two_le h (by omega) hi).1

/-- The days of a dimension are on the table exactly if some regression is fitted over them. -/
theorem computes_normalized_iff (h : c.build = .ok d) {dimension : String} :
    d.Computes (normalized dimension) ↔ c.FitsDays dimension := by
  constructor
  · rintro ⟨s, hs, hname, e, he⟩
    rw [table_of_name h hs hname, Source.tableOf, foldl_addField] at he
    rcases List.mem_append.1 he with he | he
    · simp at he
    · obtain ⟨f, hf, he⟩ := List.mem_flatMap.1 he
      have hf := keptFields_subset _ _ f hf
      exact (fitsDays_of_mem_fields h hf ((additions_fields_simple f hf).formula_output he).symm).2
  · intro hfits
    refine ⟨_, by rw [sources_build h]; exact List.mem_cons_self, rfl, ?_⟩
    have hf := mem_fields_of_fitsDays hfits
    have hformula : ∃ e, .formula e (normalized dimension) ∈
        (DerivedField.normalized dimension).transforms :=
      ⟨_, List.mem_cons_of_mem _ List.mem_cons_self⟩
    have hkept := writes_or_mem_keptFields [.identifier Names.markId] additions_fields_simple _ hf
    rcases hkept with hwritten | ⟨g, hg, hname⟩
    · have hid : Names.markId = (DerivedField.normalized dimension).name := by
        simpa [writes, Transform.output?] using hwritten
      exact absurd hid.symm (normalized_ne (by decide))
    · obtain ⟨rfl, -⟩ := fitsDays_of_mem_fields h (keptFields_subset _ _ g hg) hname
      obtain ⟨e, he⟩ := hformula
      refine ⟨e, ?_⟩
      simp only [Source.tableOf, foldl_addField]
      exact List.mem_append_right _ (List.mem_flatMap.2 ⟨_, hg, he⟩)

end Chart

def Scope.offDays : Scope where
  signal _ := True
  scale n := n ≠ Names.trendlineScale

instance (n : String) : Decidable (Scope.offDays.scale n) :=
  inferInstanceAs (Decidable (n ≠ Names.trendlineScale))

/-- What a mark and the marks inside it lie on by the scale of the days is related to the group
around them. -/
def Mark.DaysRelated (R : Option Partition → String → Prop) : Option Partition → Mark → Prop :=
  fun enclosing m => m.Throughout (fun enclosing x => ∀ f, x.LiesOnDays f → R enclosing f) enclosing

theorem Mark.Throughout.daysRelated {R : Option Partition → String → Prop}
    {enclosing : Option Partition} {m : Mark}
    (h : m.Throughout (fun _ => Mark.Written Scope.offDays.vocabulary) enclosing) :
    m.DaysRelated R enclosing := by
  refine h.imp fun enclosing x hx f hf => ?_
  obtain ⟨rule, hrule, v, hv, hscale, -⟩ := hf
  exact absurd rfl ((hx.channels _ hrule v hv).scale _ hscale)

theorem SeriesMark.served_offDays (m : SeriesMark) : m.Served .offDays where
  datum := trivial
  width := trivial
  height := trivial
  background := trivial
  metric := by decide
  dimension := by cases m.scaleType <;> decide
  color := by cases m.color <;> simp [Scale.ofColor, Scale.ordinal, Scale.ofField, Scope.offDays,
    Names.colorScale, Names.shadesScale, Names.secondaryColorScale, Names.trendlineScale]
  opacity _ _ := by decide

namespace Trendline

variable {m : SeriesMark} {t : Trendline} {ts : List Trendline}

theorem line_channel_x : ("x", .single (Trendline.dimensionValue m)) ∈ (line m t).channels := by
  rw [Mark.channels_of_rules rfl (by simp) (by simp)]
  simp

/-- The line of a trendline lies on the days exactly if its mark is on a time scale. -/
theorem line_liesOnDays {f : String} :
    (line m t).LiesOnDays f ↔ m.onTimeScale ∧ f = normalized m.dimension := by
  have hvalue : (Trendline.dimensionValue m).scale = some Names.trendlineScale ∧
      (Trendline.dimensionValue m).field = some f ↔
      m.onTimeScale ∧ f = normalized m.dimension := by
    rw [Trendline.dimensionValue, SeriesMark.fitDimension]
    split_ifs with htime
    · simp [ChannelValue.scaled, htime, eq_comm]
    · cases hkind : m.scaleType <;>
        simp [ChartCompiler.dimensionValue, ChannelValue.scaled, dimensionScaleName,
          Names.trendlineScale, htime]
  rw [← hvalue]
  constructor
  · rintro ⟨rule, hrule, v, hv, h⟩
    rw [Mark.channels_of_rules (m := line m t) rfl (by simp) (by simp)] at hrule
    obtain rfl : rule = .single (Trendline.dimensionValue m) := by simpa using hrule
    rwa [List.mem_singleton.1 hv] at h
  · exact fun h => ⟨_, line_channel_x, _, List.mem_singleton_self _, h⟩

/-- Among the marks of a mark's trendlines only their lines lie on the days. -/
theorem allMarks_daysRelated {R : Option Partition → String → Prop}
    (hline : ∀ t ∈ ts, m.onTimeScale → R (group m t).partition? (normalized m.dimension)) :
    ∀ x ∈ allMarks m ts, x.DaysRelated R none := by
  intro x hx
  rcases List.mem_append.1 hx with hx | hx
  · obtain ⟨t, ht, rfl⟩ := List.mem_map.1 hx
    refine .intro ?_ (List.forall_mem_singleton.2 (.leaf rfl ?_))
    · rintro f ⟨rule, hrule, -⟩
      simp [Mark.channels, group, Mark.parted, Mark.clipped] at hrule
    · intro f hf
      obtain ⟨htime, rfl⟩ := line_liesOnDays.1 hf
      exact hline t ht htime
  · split_ifs at hx
    · rw [List.mem_singleton.1 hx]
      exact (hoverGroup_written m.served_offDays fun _ => trivial).daysRelated
    · exact absurd hx List.not_mem_nil

end Trendline

theorem ChartMark.marks_daysRelated {m : ChartMark} {ts : List Trendline}
    (hts : m.toSeriesMark.trendlines = .ok ts) {R : Option Partition → String → Prop}
    (hline : ∀ t ∈ ts, m.toSeriesMark.onTimeScale →
      R (group m.toSeriesMark t).partition? (normalized m.toSeriesMark.dimension)) :
    ∀ x ∈ m.toCall.additions.marks, x.DaysRelated R none := by
  intro x hx
  rw [additions_of_ok hts, Additions.append_marks, Additions.append_marks, List.mem_append,
    List.mem_append] at hx
  rcases hx with (hx | hx) | hx
  · cases m with
    | line l =>
      have htype : Scope.offDays.scale Names.lineTypeScale := by decide
      have hwidth : Scope.offDays.scale Names.lineWidthScale := by decide
      exact (SeriesMark.lineMarks_written l.served_offDays (fun _ _ => htype) (fun _ _ => hwidth) x
        hx).daysRelated
    | bar b =>
      rw [List.mem_singleton.1 hx]
      exact (Bar.barMark_written b.toSeriesMark.served_offDays).daysRelated
  · exact allMarks_daysRelated hline x hx
  · cases m with
    | line l =>
      exact (SeriesMark.lineHighlights_written l.served_offDays (fun _ => trivial) x
        hx).daysRelated
    | bar b => exact absurd hx List.not_mem_nil

namespace Chart

variable {c : Chart} {d : Document}

/-- Regressions are put out to curves only. -/
theorem curve_of_fits (h : c.build = .ok d) {source f : String} (hfits : d.Fits source f) :
    ∃ t : Trendline, source = t.curveSource := by
  obtain ⟨s, hs, rfl, hf⟩ := hfits
  have hne : s.fitted ≠ [] := List.ne_nil_of_mem hf
  rw [sources_build h, List.mem_cons, List.mem_cons] at hs
  rcases hs with rfl | rfl | hs
  · refine absurd ?_ hne
    rw [Source.fitted, Source.tableOf, foldl_addField]
    refine List.flatMap_eq_nil_iff.2 fun t ht => ?_
    rcases List.mem_append.1 ht with ht | ht
    · rw [List.mem_singleton.1 ht]
      rfl
    · obtain ⟨k, hk, ht⟩ := List.mem_flatMap.1 ht
      have hsimple := additions_fields_simple k (keptFields_subset _ _ k hk)
      exact List.flatMap_eq_nil_iff.1 hsimple.fitted t ht
  · exact absurd rfl hne
  · obtain ⟨m, hm, hs⟩ := List.mem_flatMap.1 hs
    obtain ⟨ts, hts⟩ := trendlines_of_build h m hm
    exact ChartMark.curve_of_fitted (by simpa using hts) hs hne

/-- The scale of the days has the days of some mark with trendlines for its domain. -/
theorem domain_of_trendlineScale (h : c.build = .ok d) {s : Scale} (hs : s ∈ d.scales)
    (hname : s.name = Names.trendlineScale) :
    ∃ m ∈ c.marks, m.toSeriesMark.onTimeScale ∧ (m.toSeriesMark.HasTrendline fun _ => True) ∧
      s.domain = some { source := Names.filteredTable,
                        fields := [normalized m.toSeriesMark.dimension] } := by
  have hadded : s ∈ c.additions.scales := by
    obtain ⟨-, rfl⟩ := (c.build_ok_iff d).1 h
    exact (Document.mem_extend s hs).resolve_left List.not_mem_nil
  obtain ⟨m, hm, hs⟩ := mem_additions_scales.1 hadded
  obtain ⟨ts, hts⟩ := trendlines_of_build h m hm
  rw [ChartMark.additions_of_ok (by simpa using hts), Additions.append_scales,
    Additions.append_scales, ChartMark.finish_scales, List.append_nil, List.mem_append] at hs
  rcases hs with hs | hs
  · have hown := ChartMark.base_scaleNames _ (List.mem_map_of_mem hs)
    rw [hname] at hown
    exact absurd hown (by decide)
  · simp only [Trendline.additions, allScales] at hs
    split_ifs at hs with hnone
    · exact absurd hs List.not_mem_nil
    · obtain ⟨hne, htime⟩ : ts ≠ [] ∧ m.toSeriesMark.onTimeScale := by simpa using hnone
      obtain ⟨t, ht⟩ := List.exists_mem_of_ne_nil ts hne
      refine ⟨m, hm, htime, ⟨ts, hts, t, ht, trivial⟩, ?_⟩
      rw [List.mem_singleton.1 hs]
      simp [Scale.linearDimension, Scale.ofField, SeriesMark.fitDimension, htime]

/-- The line of a trendline on a time scale asks for a regression over its dimension. -/
theorem fitsDays_of_computesDays (h : c.build = .ok d) (hd : d.ComputesDays) {m : ChartMark}
    (hm : m ∈ c.marks) (htime : m.toSeriesMark.onTimeScale)
    (htrendline : m.toSeriesMark.HasTrendline fun _ => True) :
    c.FitsDays m.toSeriesMark.dimension := by
  obtain ⟨ts, hts, t, ht, -⟩ := htrendline
  have hgroup := (trendlines_subset_build h hm hts).2
    (List.mem_append_left _ (List.mem_map_of_mem ht))
  obtain ⟨earlier, later, hmarks⟩ := List.append_of_mem hgroup
  have hline : Placed d.marks _ [] (line (m.withScheme c.scheme).toSeriesMark t) :=
    .inside (.top hmarks) rfl
  have hdays := hd.marks _ _ _ hline _ (line_liesOnDays.2 ⟨by simpa using htime, rfl⟩)
  rw [ChartMark.withScheme_dimension] at hdays
  rcases hdays with hcomputes | ⟨p, hp, hfits⟩
  · exact (computes_normalized_iff h).1 hcomputes
  · by_cases hreg : t.method.isRegression
    · exact ⟨m, hm, htime, rfl, ts, hts, t, ht, hreg⟩
    · -- the line is drawn from the rows, which no regression is put out to
      obtain rfl := Option.some_inj.1 hp
      obtain ⟨u, hu⟩ := curve_of_fits h hfits
      rw [lineSource, if_neg hreg, rowSource, curveSource,
        append_suffix_inj (by decide) (by decide)] at hu
      exact absurd hu.2 (by decide)

/-- The days of time dimensions are computed wherever trendlines are laid out over them, exactly if
over each time dimension with trendlines some regression is fitted. A trendline that only averages
is laid out over the days too, and they are not computed for it. -/
theorem computesDays_iff (h : c.build = .ok d) :
    d.ComputesDays ↔
      ∀ m ∈ c.marks, m.toSeriesMark.onTimeScale → (m.toSeriesMark.HasTrendline fun _ => True) →
        c.FitsDays m.toSeriesMark.dimension := by
  refine ⟨fun hd m hm htime htrendline => fitsDays_of_computesDays h hd hm htime htrendline, ?_⟩
  intro hfits
  constructor
  · intro s hs hname dom hdom _ f hf
    obtain ⟨m, hm, htime, htrendline, hdomain⟩ := domain_of_trendlineScale h hs hname
    obtain rfl := Option.some_inj.1 (hdomain.symm.trans hdom)
    rw [List.mem_singleton.1 hf]
    exact (computes_normalized_iff h).2 (hfits m hm htime htrendline)
  · intro enclosing earlier x hx
    have hrelated : ∀ y ∈ d.marks, y.DaysRelated
        (fun enclosing f => d.Computes f ∨ ∃ p ∈ enclosing, d.Fits p.source f) none := by
      intro y hy
      obtain ⟨m, hm, hy⟩ := mem_marks_build h hy
      obtain ⟨ts, hts⟩ := trendlines_of_build h m hm
      refine ChartMark.marks_daysRelated (by simpa using hts) (fun t ht htime => .inl ?_) y hy
      rw [ChartMark.withScheme_dimension]
      rw [ChartMark.withScheme_onTimeScale] at htime
      exact (computes_normalized_iff h).2 (hfits m hm htime ⟨ts, hts, t, ht, trivial⟩)
    exact Mark.Throughout.of_placed hrelated hx

/-- One line averages and another one over the same time is fitted. -/
theorem computesDays_average_and_fit :
    let c : Chart := { marks := [
      .line { children := [.trendline [] { method := some "average" }] },
      .line { name := "line1", children := [.trendline [] {}] }] }
    ∃ d, c.build = .ok d ∧ d.ComputesDays := by
  intro c
  have h : c.build = .ok _ := rfl
  refine ⟨_, h, (computesDays_iff h).2 fun m hm _ _ => ?_⟩
  have hfits : c.FitsDays "datetime" :=
    ⟨_, List.mem_cons_of_mem _ List.mem_cons_self, rfl, rfl, _, rfl, _,
      List.mem_singleton_self _, rfl⟩
  simp only [c, List.mem_cons, List.not_mem_nil, or_false] at hm
  rcases hm with rfl | rfl <;> exact hfits

/-- The only trendline of the only line averages. -/
theorem not_computesDays_average :
    ¬∀ (c : Chart) (d : Document), c.build = .ok d → d.ComputesDays := by
  intro hdays
  let m : ChartMark := .line { children := [.trendline [] { method := some "average" }] }
  have h : ({ marks := [m] } : Chart).build = .ok _ := rfl
  have hcomputes := (hdays _ _ h).domain
    (.linearDimension Names.trendlineScale (normalized "datetime"))
    (List.mem_of_getElem? (i := 3) rfl) rfl _ rfl rfl _ (List.mem_singleton_self _)
  obtain ⟨m', hm', -, -, ts, hts, t, ht, hreg⟩ := (computes_normalized_iff h).1 hcomputes
  obtain rfl := List.mem_singleton.1 hm'
  obtain rfl := Except.ok.inj hts
  obtain rfl := List.mem_singleton.1 ht
  exact Bool.false_ne_true hreg

end Chart

end ChartCompiler
