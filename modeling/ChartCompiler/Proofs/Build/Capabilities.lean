import ChartCompiler.Proofs.Build.Methods
import Mathlib.Data.List.Forall2

/-! What counts of the children of a mark: whether a tooltip is among them, whether a popover is, and
for each trendline in turn its options and the same two questions. Two runs on charts that agree in
this are followed side by side, value by value, and come to the same result. -/

namespace ChartCompiler

/-- Tooltips are among both lists of children or among neither, and so are popovers. -/
structure SameInteraction (cs cs' : List Child) : Prop where
  tooltip : hasTooltip cs = hasTooltip cs'
  popover : hasPopover cs = hasPopover cs'

/-- The same interaction, and trendlines that agree one by one in their options and interaction. -/
structure SameCapabilities (cs cs' : List Child) : Prop extends SameInteraction cs cs' where
  trendlines : List.Forall₂ (fun t t' => t.2 = t'.2 ∧ SameInteraction t.1 t'.1)
    (cs.filterMap Child.trendline?) (cs'.filterMap Child.trendline?)

theorem SameInteraction.interactive {cs cs' : List Child} (h : SameInteraction cs cs') :
    hasInteractive cs = hasInteractive cs' := by
  rw [hasInteractive, hasInteractive, h.tooltip, h.popover]

namespace SeriesMark

variable {m : SeriesMark} {cs : List Child} (h : SameInteraction m.children cs)
include h

theorem lineSources_congr : ({ m with children := cs } : SeriesMark).lineSources = m.lineSources := by
  rw [lineSources, lineSources]
  dsimp only
  rw [h.interactive, h.popover]
  rfl

theorem lineSignals_congr : ({ m with children := cs } : SeriesMark).lineSignals = m.lineSignals := by
  rw [lineSignals, lineSignals]
  dsimp only
  rw [h.interactive, h.popover]
  rfl

theorem voronoiCells_congr :
    ({ m with children := cs } : SeriesMark).voronoiCells = m.voronoiCells := by
  have hreactions : ({ m with children := cs } : SeriesMark).cellReactions = m.cellReactions := by
    rw [cellReactions, cellReactions]
    dsimp only
    rw [h.tooltip, h.popover]
  rw [voronoiCells, voronoiCells, hreactions]
  rfl

theorem highlightPoint_congr :
    ({ m with children := cs } : SeriesMark).highlightPoint = m.highlightPoint := by
  have hselected (v : ChannelValue) :
      ({ m with children := cs } : SeriesMark).whereSelected v = m.whereSelected v := by
    rw [whereSelected, whereSelected]
    dsimp only
    rw [h.popover]
  have hfill : ({ m with children := cs } : SeriesMark).highlightFill = m.highlightFill := by
    rw [highlightFill, highlightFill, hselected]
    rfl
  have hstroke : ({ m with children := cs } : SeriesMark).highlightStroke = m.highlightStroke := by
    rw [highlightStroke, highlightStroke, hselected]
    rfl
  rw [highlightPoint, highlightPoint, hfill, hstroke]
  rfl

theorem hoverMarks_congr (source : String) (secondMetric : Option String) :
    ({ m with children := cs } : SeriesMark).hoverMarks source secondMetric =
      m.hoverMarks source secondMetric := by
  rw [hoverMarks, hoverMarks, highlightPoint_congr h, voronoiCells_congr h]
  rfl

theorem lineHighlights_congr :
    ({ m with children := cs } : SeriesMark).lineHighlights = m.lineHighlights := by
  rw [lineHighlights, lineHighlights, hoverMarks_congr h]
  dsimp only
  rw [h.interactive, h.popover]
  rfl

end SeriesMark

namespace Trendline

/-- The same trendline but for its children, which allow the same. -/
def Alike (t t' : Trendline) : Prop :=
  ∃ cs, t' = { t with children := cs } ∧ SameInteraction t.children cs

variable {m : SeriesMark} {cs : List Child} {t t' : Trendline} {ts ts' : List Trendline}

theorem sameInteraction_keepInteractive (cs : List Child) :
    SameInteraction (keepInteractive cs) cs where
  tooltip := by
    rw [hasTooltip, keepInteractive, List.any_filter]
    congr 1
    funext c
    cases c <;> rfl
  popover := by
    rw [hasPopover, keepInteractive, List.any_filter]
    congr 1
    funext c
    cases c <;> rfl

/-- The children of a trendline are put into it as they are, once they are sorted out. -/
theorem ofOptions_children (cs cs' : List Child) (o : TrendlineOptions) (mark : String) (index : Nat) :
    ofOptions cs' o mark index =
      (ofOptions cs o mark index).map fun t => { t with children := keepInteractive cs' } := by
  rw [ofOptions, ofOptions]
  cases o.method with
  | none => rfl
  | some s =>
    dsimp only
    cases FitMethod.ofText s <;> rfl

theorem children_of_ofOptions {o : TrendlineOptions} {mark : String} {index : Nat}
    (h : ofOptions cs o mark index = .ok t) : t.children = keepInteractive cs := by
  have hself := ofOptions_children cs cs o mark index
  rw [h] at hself
  exact congrArg Trendline.children (Except.ok.inj hself)

theorem ofOptions_alike {o : TrendlineOptions} {mark : String} {index : Nat} {cs' : List Child}
    (hcs : SameInteraction cs cs') (h : ofOptions cs o mark index = .ok t) :
    ∃ t', ofOptions cs' o mark index = .ok t' ∧ Alike t t' := by
  refine ⟨_, by rw [ofOptions_children cs, h]; rfl, _, rfl, ?_⟩
  have hkept := sameInteraction_keepInteractive cs
  have hkept' := sameInteraction_keepInteractive cs'
  rw [children_of_ofOptions h]
  exact ⟨hkept.tooltip.trans (hcs.tooltip.trans hkept'.tooltip.symm),
    hkept.popover.trans (hcs.popover.trans hkept'.popover.symm)⟩

/-- Trendlines with the same options and the same interaction fail alike or are read alike. -/
theorem ofListFrom_alike {os os' : List (List Child × TrendlineOptions)}
    (h : List.Forall₂ (fun t t' => t.2 = t'.2 ∧ SameInteraction t.1 t'.1) os os') (mark : String)
    (index : Nat) :
    (∃ e, ofListFrom mark index os = .error e ∧ ofListFrom mark index os' = .error e) ∨
      ∃ ts ts', ofListFrom mark index os = .ok ts ∧ ofListFrom mark index os' = .ok ts' ∧
        List.Forall₂ Alike ts ts' := by
  induction h generalizing index with
  | nil => exact .inr ⟨[], [], rfl, rfl, .nil⟩
  | @cons o o' os os' ho _ ih =>
    obtain ⟨cs, o⟩ := o
    obtain ⟨cs', o'⟩ := o'
    obtain ⟨rfl, hcs⟩ := ho
    rw [ofListFrom, ofListFrom]
    cases hread : ofOptions cs o mark index with
    | error e =>
      have hread' : ofOptions cs' o mark index = .error e := by
        rw [ofOptions_children cs, hread]
        rfl
      rw [hread']
      exact .inl ⟨e, rfl, rfl⟩
    | ok t =>
      obtain ⟨t', hread', ht⟩ := ofOptions_alike hcs hread
      rw [hread']
      rcases ih (index + 1) with ⟨e, hrest, hrest'⟩ | ⟨ts, ts', hrest, hrest', hts⟩
      · exact .inl ⟨e, by simp [hrest, bind, Except.bind], by simp [hrest', bind, Except.bind]⟩
      · refine .inr ⟨t :: ts, t' :: ts', ?_, ?_, .cons ht hts⟩
        · simp [hrest, bind, Except.bind, pure, Except.pure]
        · simp [hrest', bind, Except.bind, pure, Except.pure]

theorem Alike.interactive (h : Alike t t') : t'.isInteractive = t.isInteractive := by
  obtain ⟨cs, rfl, hcs⟩ := h
  exact hcs.interactive.symm

theorem Alike.sources (h : Alike t t') :
    Trendline.sources { m with children := cs } t' = Trendline.sources m t := by
  have hint := h.interactive
  obtain ⟨cs, rfl, -⟩ := h
  rw [Trendline.sources, Trendline.sources, hint]
  rfl

section

variable (h : List.Forall₂ Alike ts ts')
include h

/-- What is computed of each trendline, its children apart, is computed alike. -/
theorem map_congr {α : Type} {f g : Trendline → α} (hf : ∀ t t', Alike t t' → g t' = f t) :
    ts'.map g = ts.map f := by
  induction h with
  | nil => rfl
  | cons ht _ ih => rw [List.map_cons, List.map_cons, hf _ _ ht, ih]

theorem any_congr {p : Trendline → Bool} (hp : ∀ t t', Alike t t' → p t' = p t) :
    ts'.any p = ts.any p := by
  simpa using congrArg (List.any · id) (map_congr h hp)

theorem isEmpty_congr : ts'.isEmpty = ts.isEmpty := by
  cases h <;> rfl

theorem hasTooltip_congr :
    (ts'.any fun t => hasTooltip t.children) = ts.any fun t => hasTooltip t.children :=
  any_congr h fun _ _ ⟨_, ht, hcs⟩ => ht ▸ hcs.tooltip.symm

theorem hasPopover_congr :
    (ts'.any fun t => hasPopover t.children) = ts.any fun t => hasPopover t.children :=
  any_congr h fun _ _ ⟨_, ht, hcs⟩ => ht ▸ hcs.popover.symm

theorem combinedSources_congr :
    combinedSources { m with children := cs } ts' = combinedSources m ts := by
  have hnames : (ts'.filter isInteractive).map rowSource = (ts.filter isInteractive).map rowSource := by
    induction h with
    | nil => rfl
    | @cons t t' ts ts' ht _ ih =>
      rw [List.filter_cons, List.filter_cons, ht.interactive]
      obtain ⟨cs, rfl, -⟩ := ht
      split_ifs
      · rw [List.map_cons, List.map_cons, ih]
        rfl
      · exact ih
  have hempty : (ts'.filter isInteractive).isEmpty = (ts.filter isInteractive).isEmpty := by
    rw [← List.isEmpty_map (f := rowSource), hnames, List.isEmpty_map]
  rw [combinedSources, combinedSources]
  dsimp only
  rw [hempty, hnames, hasPopover_congr h]

theorem allSources_congr : allSources { m with children := cs } ts' = allSources m ts := by
  have hsources := map_congr h (f := sources m) (g := sources { m with children := cs })
    fun _ _ ht => ht.sources
  rw [allSources, allSources, List.flatMap_def, List.flatMap_def, hsources, combinedSources_congr h]

theorem appendSources_congr (ss : List Source) :
    appendSources { m with children := cs } ts' ss = appendSources m ts ss := by
  have hreg : (ts'.any fun t => t.method.isRegression) = ts.any fun t => t.method.isRegression :=
    any_congr h fun _ _ ⟨_, ht, _⟩ => ht ▸ rfl
  rw [appendSources, appendSources, allSources_congr h, needsDays, needsDays, hreg]
  rfl

theorem hoverGroup_congr : hoverGroup { m with children := cs } ts' = hoverGroup m ts := by
  have hraw : ts'.any Trendline.highlightRawPoint = ts.any Trendline.highlightRawPoint :=
    any_congr h fun _ _ ⟨_, ht, _⟩ => ht ▸ rfl
  have hchildren : SameInteraction (hoverMark m ts).children (ts'.flatMap Trendline.children) := by
    constructor
    · simpa [hoverMark, hasTooltip, List.any_flatMap] using (hasTooltip_congr h).symm
    · simpa [hoverMark, hasPopover, List.any_flatMap] using (hasPopover_congr h).symm
  rw [hoverGroup, hoverGroup, hraw]
  dsimp only
  rw [← SeriesMark.hoverMarks_congr hchildren]
  rfl

theorem allMarks_congr : allMarks { m with children := cs } ts' = allMarks m ts := by
  have hgroups := map_congr h (f := group m) (g := group { m with children := cs })
    fun _ _ ⟨_, ht, _⟩ => ht ▸ rfl
  rw [allMarks, allMarks, hgroups, hasTooltip_congr h, hoverGroup_congr h]

theorem allScales_congr : allScales { m with children := cs } ts' = allScales m ts := by
  rw [allScales, allScales, isEmpty_congr h]
  rfl

theorem allSignals_congr : allSignals { m with children := cs } ts' = allSignals m ts := by
  have hhover : ts'.any Trendline.displayOnHover = ts.any Trendline.displayOnHover :=
    any_congr h fun _ _ ⟨_, ht, _⟩ => ht ▸ rfl
  rw [allSignals, allSignals, hasTooltip_congr h, hasPopover_congr h, hhover]

end

end Trendline

namespace Document

theorem addTrendlines_congr {m : SeriesMark} {cs : List Child} {ts ts' : List Trendline}
    (h : List.Forall₂ Trendline.Alike ts ts') (d : Document) :
    d.addTrendlines { m with children := cs } ts' = d.addTrendlines m ts := by
  rw [addTrendlines, addTrendlines, Trendline.isEmpty_congr h, Trendline.appendSources_congr h,
    Trendline.allMarks_congr h, Trendline.allScales_congr h, Trendline.allSignals_congr h]

theorem withTrendlines_congr {m : SeriesMark} {cs : List Child} (h : SameCapabilities m.children cs)
    (last : Document → Document) (d : Document) :
    d.withTrendlines { m with children := cs } last = d.withTrendlines m last := by
  have hread := Trendline.ofListFrom_alike h.trendlines m.name 0
  rw [withTrendlines, withTrendlines, SeriesMark.trendlines, SeriesMark.trendlines,
    Trendline.ofChildren, Trendline.ofChildren]
  rcases hread with ⟨e, hm, hcs⟩ | ⟨ts, ts', hm, hcs, hts⟩
  · rw [hm, hcs]
  · rw [hm, hcs]
    exact congrArg (fun d => ({ document := last d } : Built)) (addTrendlines_congr hts d)

theorem addLine_congr {m : SeriesMark} {cs : List Child} (h : SameCapabilities m.children cs)
    (d : Document) : d.addLine { m with children := cs } = d.addLine m := by
  have hbase := h.toSameInteraction
  rw [addLine, addLine, withTrendlines_congr h, SeriesMark.lineSources_congr hbase,
    SeriesMark.lineHighlights_congr hbase, SeriesMark.lineSignals_congr hbase]
  rfl

theorem addBar_congr {b : Bar} {cs : List Child} (h : SameCapabilities b.children cs)
    (d : Document) : d.addBar { b with children := cs } = d.addBar b :=
  withTrendlines_congr (m := b.toSeriesMark) h id _

end Document

namespace ChartMark

def Alike (m m' : ChartMark) : Prop :=
  ∃ cs, m' = m.withChildren cs ∧ SameCapabilities m.toSeriesMark.children cs

variable {m m' : ChartMark}

theorem Alike.withScheme (h : m.Alike m') (scheme : ColorScheme) :
    (m.withScheme scheme).Alike (m'.withScheme scheme) := by
  obtain ⟨cs, rfl, hcs⟩ := h
  refine ⟨cs, by cases m <;> rfl, ?_⟩
  cases m <;> exact hcs

theorem Alike.addMark (h : m.Alike m') (d : Document) : d.addMark m' = d.addMark m := by
  obtain ⟨cs, rfl, hcs⟩ := h
  cases m with
  | line l => exact Document.addLine_congr hcs d
  | bar b => exact Document.addBar_congr hcs d

theorem Alike.addMarks {ms ms' : List ChartMark} (h : List.Forall₂ Alike ms ms') (d : Document) :
    d.addMarks ms' = d.addMarks ms := by
  induction h generalizing d with
  | nil => rfl
  | cons hm _ ih =>
    rw [Document.addMarks, Document.addMarks, hm.addMark]
    simp only [ih]

end ChartMark

/-- The least children that allow the same: a bare tooltip and a bare popover at most. -/
def Child.interaction (cs : List Child) : List Child :=
  (if hasTooltip cs then [.tooltip []] else []) ++ if hasPopover cs then [.popover none none] else []

def Child.capabilities (cs : List Child) : List Child :=
  interaction cs ++ (cs.filterMap trendline?).map fun t => .trendline (interaction t.1) t.2

def Chart.reduced (c : Chart) : Chart :=
  { c with marks := c.marks.map fun m => m.withChildren (Child.capabilities m.toSeriesMark.children) }

theorem sameInteraction_interaction (cs : List Child) : SameInteraction cs (Child.interaction cs) where
  tooltip := by
    rw [Child.interaction]
    cases hasTooltip cs <;> cases hasPopover cs <;> rfl
  popover := by
    rw [Child.interaction]
    cases hasTooltip cs <;> cases hasPopover cs <;> rfl

theorem trendlines_capabilities (cs : List Child) :
    (Child.capabilities cs).filterMap Child.trendline? =
      (cs.filterMap Child.trendline?).map fun t => (Child.interaction t.1, t.2) := by
  have hnone : (Child.interaction cs).filterMap Child.trendline? = [] := by
    rw [Child.interaction]
    cases hasTooltip cs <;> cases hasPopover cs <;> rfl
  rw [Child.capabilities, List.filterMap_append, hnone, List.nil_append, List.filterMap_map]
  exact congrFun List.filterMap_eq_map' _

/-- Of the capabilities only the tooltip and the popover are no trendlines. -/
theorem any_capabilities {p : Child → Bool} (hp : ∀ cs o, p (.trendline cs o) = false)
    (cs : List Child) : (Child.capabilities cs).any p = (Child.interaction cs).any p := by
  have hnone (ts : List (List Child × TrendlineOptions)) :
      (ts.map fun t => Child.trendline (Child.interaction t.1) t.2).any p = false := by
    simp [Function.comp_def, hp]
  rw [Child.capabilities, List.any_append, hnone, Bool.or_false]

theorem sameCapabilities_capabilities (cs : List Child) :
    SameCapabilities cs (Child.capabilities cs) where
  tooltip := (sameInteraction_interaction cs).tooltip.trans (any_capabilities (fun _ _ => rfl) cs).symm
  popover := (sameInteraction_interaction cs).popover.trans (any_capabilities (fun _ _ => rfl) cs).symm
  trendlines := by
    rw [trendlines_capabilities, List.forall₂_map_right_iff, List.forall₂_same]
    exact fun t _ => ⟨rfl, sameInteraction_interaction t.1⟩

namespace Chart

/-- Charts whose marks differ in children of the same capabilities only come to the same document or
the same error. So it is as if a chart had nothing of its children but their capabilities. -/
theorem build_congr (c : Chart) :
    (∀ ms, List.Forall₂ ChartMark.Alike c.marks ms →
      ({ c with marks := ms } : Chart).build = c.build) ∧ c.reduced.build = c.build := by
  have hbuild (ms : List ChartMark) (h : List.Forall₂ ChartMark.Alike c.marks ms) :
      ({ c with marks := ms } : Chart).build = c.build := by
    refine ChartMark.Alike.addMarks ?_ _
    rw [List.forall₂_map_left_iff, List.forall₂_map_right_iff]
    exact h.imp fun _ _ hm => hm.withScheme c.scheme
  refine ⟨hbuild, hbuild _ ?_⟩
  rw [List.forall₂_map_right_iff, List.forall₂_same]
  exact fun m _ => ⟨_, rfl, sameCapabilities_capabilities _⟩

/-- A metric range, a second tooltip, a trendline below a trendline and the sizes of a popover, in
another order. -/
theorem build_congr_line_and_bar :
    let c : Chart := { marks := [
      .line { children := [
        .tooltip ["series"], .trendline [.popover (some 100) none] { method := some "average" },
        .metricRange none none false, .tooltip []] },
      .bar { children := [.trendline [.tooltip [], .trendline [] { method := some "none" }] {}] }] }
    let ms : List ChartMark := [
      .line { children := [
        .trendline [.popover none none, .popover none none] { method := some "average" },
        .tooltip []] },
      .bar { children := [.trendline [.tooltip ["value"]] {}, .metricRange none none true] }]
    List.Forall₂ ChartMark.Alike c.marks ms ∧
      ∃ d, ({ c with marks := ms } : Chart).build = .ok d ∧ c.build = .ok d := by
  intro c ms
  have hline : ChartMark.Alike c.marks[0] ms[0] :=
    ⟨_, rfl, ⟨rfl, rfl⟩, .cons ⟨rfl, rfl, rfl⟩ .nil⟩
  have hbar : ChartMark.Alike c.marks[1] ms[1] :=
    ⟨_, rfl, ⟨rfl, rfl⟩, .cons ⟨rfl, rfl, rfl⟩ .nil⟩
  have hms : List.Forall₂ ChartMark.Alike c.marks ms := .cons hline (.cons hbar .nil)
  have hbuild : c.build = .ok _ := rfl
  exact ⟨hms, _, ((build_congr c).1 ms hms).trans hbuild, hbuild⟩

end Chart

end ChartCompiler
