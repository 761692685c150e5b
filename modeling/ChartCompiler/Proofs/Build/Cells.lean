import ChartCompiler.Proofs.Build.Declared
import ChartCompiler.Proofs.Build.Roles
import ChartCompiler.Proofs.Document.Lookup

/-! Who fires the events that signals follow. A signal that holds what is pointed at follows the
cells of a mark, and cells are drawn for a line that takes part in events and for trendlines with a
tooltip. A trendline that is shown on hover makes a signal follow the cells of its mark too, whether
or not these are drawn. -/

namespace ChartCompiler

open Trendline

def SignalUpdate.Follows (u : SignalUpdate) (mark : String) : Prop :=
  u.events = "@" ++ mark ++ ":mouseover" ∨ u.events = "@" ++ mark ++ ":mouseout"

/-- Every mark that a signal follows is there. -/
def Document.FiresEvents (d : Document) : Prop :=
  ∀ s ∈ d.signals, ∀ u ∈ s.updates, ∀ mark, u.Follows mark → ∃ x, d.mark? mark = some x

/-- A suffix of a name among several suffixes of one name. -/
theorem append_mem_map_append {a b s : String} {ss : List String} (hs : IsSuffix s)
    (hss : ∀ t ∈ ss, IsSuffix t) : a ++ s ∈ ss.map (b ++ ·) ↔ a = b ∧ s ∈ ss := by
  rw [List.mem_map]
  constructor
  · rintro ⟨t, ht, h⟩
    obtain ⟨rfl, rfl⟩ := (append_suffix_inj (hss t ht) hs).1 h
    exact ⟨rfl, ht⟩
  · rintro ⟨rfl, hs⟩
    exact ⟨s, hs, rfl⟩

namespace Signal

def FollowsCells (s : Signal) (name : String) : Prop :=
  s = hoveredId name true (name ++ "_voronoi") ∨ s = hoveredSeries name true (name ++ "_voronoi")

/-- The signal is set from outside. -/
def IsPicked (s : Signal) : Prop := ∃ name, s = selectedId name ∨ s = selectedSeries name

variable {s : Signal} {a : String}

theorem mouseover_ne_mouseout (b : String) : a ++ ":mouseover" ≠ b ++ ":mouseout" := by
  intro h
  have hlast := congrArg (fun s => s.toList.getLast?) h
  simp [String.toList_append, List.getLast?_append] at hlast

theorem follows_mouseover {mark : String} {e : Expr} :
    (SignalUpdate.mk ("@" ++ a ++ ":mouseover") e).Follows mark ↔ mark = a := by
  rw [SignalUpdate.Follows, or_iff_left (mouseover_ne_mouseout _), String.append_left_inj,
    String.append_right_inj, eq_comm]

theorem follows_mouseout {mark : String} {e : Expr} :
    (SignalUpdate.mk ("@" ++ a ++ ":mouseout") e).Follows mark ↔ mark = a := by
  rw [SignalUpdate.Follows, or_iff_right (mouseover_ne_mouseout _).symm, String.append_left_inj,
    String.append_right_inj, eq_comm]

theorem follows_hover {name field mark : String} {nested : Bool} {u : SignalUpdate}
    (hu : u ∈ (hover name field nested a).updates) : u.Follows mark ↔ mark = a := by
  simp only [hover, List.mem_cons, List.not_mem_nil, or_false] at hu
  rcases hu with rfl | rfl
  · exact follows_mouseover
  · exact follows_mouseout

theorem FollowsCells.follows_iff (h : s.FollowsCells a) {u : SignalUpdate} (hu : u ∈ s.updates)
    {mark : String} : u.Follows mark ↔ mark = a ++ "_voronoi" := by
  rcases h with rfl | rfl <;> exact follows_hover hu

theorem IsPicked.updates (h : s.IsPicked) : s.updates = [] := by
  obtain ⟨name, rfl | rfl⟩ := h <;> rfl

theorem IsPicked.name_ne (h : s.IsPicked) : s.name ≠ a ++ "_hoveredSeries" := by
  intro hname
  obtain ⟨b, rfl | rfl⟩ := h <;>
    exact absurd ((append_suffix_inj (by decide) (by decide)).1 hname).2 (by decide)

/-- The name of such a signal tells whose cells it follows. -/
theorem FollowsCells.of_name {b : String} (h : s.FollowsCells b)
    (hname : s.name = a ++ "_hoveredSeries") : s.FollowsCells a := by
  have hb : b = a := by
    rcases h with rfl | rfl <;>
      exact ((append_suffix_inj (by decide) (by decide)).1 hname).1
  exact hb ▸ h

end Signal

/-! The names of the marks that are built for a mark of the chart. -/

namespace SeriesMark

variable {m : SeriesMark} {a : String}

theorem namesIn_hoverMarks (source : String) (secondMetric : Option String) :
    Mark.namesIn (m.hoverMarks source secondMetric) =
      (["_hoverRule", "_pointBackground", "_point"] ++
        (secondMetric.map fun _ => "_secondaryPoint").toList ++
        ["_pointsForVoronoi", "_voronoi"]).map (m.name ++ ·) := by
  cases secondMetric <;> simp [hoverMarks, Mark.still, Mark.drawn, hoverRule, highlightBackground,
    highlightPoint, secondaryPoint, voronoiPoints, voronoiCells, cellPoints, cells]

theorem cells_mem_hoverMarks (source : String) (secondMetric : Option String) :
    a ++ "_voronoi" ∈ Mark.namesIn (m.hoverMarks source secondMetric) ↔ a = m.name := by
  have hall : ∀ t ∈ ["_hoverRule", "_pointBackground", "_point", "_secondaryPoint",
      "_pointsForVoronoi", "_voronoi"], IsSuffix t := by decide
  rw [namesIn_hoverMarks, append_mem_map_append (by decide)]
  · simp
  · intro t ht
    refine hall t ?_
    cases secondMetric <;> simp at ht ⊢ <;> grind

theorem cells_mem_lineMarks :
    a ++ "_voronoi" ∈ Mark.namesIn m.lineMarks ↔ m.name = a ++ "_voronoi" := by
  have hother {s : String} (hs : IsSuffix s) (hne : "_voronoi" ≠ s) :
      a ++ "_voronoi" ≠ m.name ++ s :=
    fun h => hne ((append_suffix_inj (by decide) hs).1 h).2
  have hgroup := hother (s := "_group") (by decide) (by decide)
  have hstatic := hother (s := "_staticPoints") (by decide) (by decide)
  rw [lineMarks]
  split_ifs <;>
    simp [lineGroup, staticPoints, Mark.parted, Mark.still, Mark.drawn, hgroup, hstatic, eq_comm]

theorem cells_mem_lineHighlights :
    a ++ "_voronoi" ∈ Mark.namesIn m.lineHighlights ↔ hasInteractive m.children ∧ a = m.name := by
  have hring : a ++ "_voronoi" ≠ m.name ++ "_pointSelectRing" := fun h =>
    absurd ((append_suffix_inj (by decide) (by decide)).1 h).2 (by decide)
  rw [lineHighlights]
  split_ifs with hint hpop
  · simp [hint, cells_mem_hoverMarks, selectRing, Mark.still, Mark.drawn, hring]
  · simp [hint, cells_mem_hoverMarks]
  · simp [hint]

end SeriesMark

namespace Trendline

variable {m : SeriesMark} {ts : List Trendline} {a : String}

/-- A name that ends in no digit is not that of a trendline. -/
theorem append_ne_numbered {b s : String} {i : Nat} {c : Char} (hs : s.toList.getLast? = some c)
    (hc : ¬c.isDigit) : a ++ s ≠ sharedName b ++ i.repr := by
  intro h
  have hlast := congrArg (fun s => s.toList.getLast?) h
  have hdigits : i.repr.toList = Nat.toDigits 10 i := by simp
  simp only [String.toList_append, List.getLast?_append, hs, Option.some_or] at hlast
  rw [hdigits, List.getLast?_eq_some_getLast Nat.toDigits_ne_nil, Option.some_or] at hlast
  exact hc (toDigits_isDigit i c (Option.some.inj hlast ▸ List.getLast_mem _))

theorem cells_not_mem_group {t : Trendline} {index : Nat}
    (h : t.name = sharedName m.name ++ index.repr) :
    a ++ "_voronoi" ∉ Mark.namesIn [group m t] := by
  have hgroup : a ++ "_voronoi" ≠ t.name ++ "_group" := fun h =>
    absurd ((append_suffix_inj (by decide) (by decide)).1 h).2 (by decide)
  have hline : a ++ "_voronoi" ≠ t.name := h ▸ append_ne_numbered rfl (by decide)
  simp [group, line, Mark.clipped, Mark.parted, Mark.still, Mark.drawn, hgroup, hline]

theorem cells_not_mem_groups {index : Nat} (h : Numbered m.name index ts) :
    a ++ "_voronoi" ∉ Mark.namesIn (ts.map (group m)) := by
  induction ts generalizing index with
  | nil => exact List.not_mem_nil
  | cons t ts ih =>
    rw [List.map_cons, ← List.singleton_append, Mark.namesIn_append, List.mem_append]
    exact not_or.2 ⟨cells_not_mem_group h.1, ih h.2⟩

theorem cells_mem_allMarks (h : m.trendlines = .ok ts) :
    a ++ "_voronoi" ∈ Mark.namesIn (allMarks m ts) ↔
      (ts.any fun t => hasTooltip t.children) ∧ a = sharedName m.name := by
  have hgroup : a ++ "_voronoi" ≠ sharedName m.name ++ "_hoverGroup" := fun h =>
    absurd ((append_suffix_inj (by decide) (by decide)).1 h).2 (by decide)
  have hhover (second : Option String) : a ++ "_voronoi" ∈
      Mark.namesIn ((hoverMark m ts).hoverMarks (combinedSource m.name) second) ↔
        a = sharedName m.name := SeriesMark.cells_mem_hoverMarks _ _
  rw [allMarks, Mark.namesIn_append, List.mem_append,
    or_iff_right (cells_not_mem_groups (numbered_of_ok h))]
  split_ifs with htip
  · simp [htip, hoverGroup, Mark.clipped, hgroup, hhover]
  · simp [htip]

end Trendline

namespace ChartMark

/-- The mark draws cells of a name: its own, or those over all its trendlines. -/
def DrawsCells (m : ChartMark) (name : String) : Prop :=
  (∃ l, m = .line l ∧ hasInteractive l.children ∧ name = l.name) ∨
    (m.toSeriesMark.HasTrendline fun t => hasTooltip t.children) ∧
      name = sharedName m.toSeriesMark.name

variable {m : ChartMark} {ts : List Trendline}

theorem cells_mem_additions (hts : m.toSeriesMark.trendlines = .ok ts) {a : String} :
    a ++ "_voronoi" ∈ Mark.namesIn m.toCall.additions.marks ↔
      m.toSeriesMark.name = a ++ "_voronoi" ∨ m.DrawsCells a := by
  rw [additions_of_ok hts, Additions.append_marks, Additions.append_marks, Mark.namesIn_append,
    Mark.namesIn_append, List.mem_append, List.mem_append, Trendline.additions,
    cells_mem_allMarks hts, DrawsCells, SeriesMark.hasTrendline_of_ok hts, List.any_eq_true]
  cases m with
  | line l =>
    simp only [base, finish, SeriesMark.lineBase, SeriesMark.cells_mem_lineMarks,
      SeriesMark.cells_mem_lineHighlights, toSeriesMark, line.injEq, exists_eq_left']
    exact or_assoc.trans (or_congr_right or_comm)
  | bar b =>
    simp [base, finish, Bar.barBase, Bar.barMark, Mark.drawn, toSeriesMark, Bar.toSeriesMark,
      eq_comm (a := a ++ "_voronoi")]

/-- What the signals of a mark follow: cells that it draws, or its own for trendlines that are shown
on hover. -/
theorem followsCells_of_mem (hts : m.toSeriesMark.trendlines = .ok ts) {s : Signal}
    (hs : s ∈ m.toCall.additions.signals) : s.IsPicked ∨ ∃ a, s.FollowsCells a ∧
      (m.DrawsCells a ∨
        m.toSeriesMark.HasTrendline (·.displayOnHover) ∧ a = m.toSeriesMark.name) := by
  have hpart {b : Bool} {ss : List Signal} (h : s ∈ if b then ss else []) : b ∧ s ∈ ss := by
    cases b
    · exact absurd h List.not_mem_nil
    · exact ⟨rfl, h⟩
  have htrendlines (h : s ∈ allSignals m.toSeriesMark ts) : s.IsPicked ∨ ∃ a, s.FollowsCells a ∧
      (m.DrawsCells a ∨
        m.toSeriesMark.HasTrendline (·.displayOnHover) ∧ a = m.toSeriesMark.name) := by
    rw [SeriesMark.hasTrendline_of_ok hts]
    rcases List.mem_append.1 h with h | h
    · rcases List.mem_append.1 h with h | h
      · obtain ⟨htip, h⟩ := hpart h
        have hcells : m.DrawsCells (sharedName m.toSeriesMark.name) :=
          .inr ⟨(SeriesMark.hasTrendline_of_ok hts).2 (List.any_eq_true.1 htip), rfl⟩
        exact .inr ⟨_, by simpa [Signal.FollowsCells] using h, .inl hcells⟩
      · obtain ⟨hshown, h⟩ := hpart h
        exact .inr ⟨_, .inr (List.mem_singleton.1 h), .inr ⟨List.any_eq_true.1 hshown, rfl⟩⟩
    · obtain ⟨-, h⟩ := hpart h
      simp only [List.mem_cons, List.not_mem_nil, or_false] at h
      exact .inl ⟨_, h⟩
  rw [additions_of_ok hts, Additions.append_signals, Additions.append_signals, base_signals,
    List.nil_append, Trendline.additions] at hs
  rcases List.mem_append.1 hs with hs | hs
  · exact htrendlines hs
  · cases m with
    | line l =>
      obtain ⟨hint, hs⟩ := hpart hs
      rcases List.mem_cons.1 hs with rfl | hs
      · exact .inr ⟨_, .inl rfl, .inl (.inl ⟨l, rfl, hint, rfl⟩)⟩
      · obtain ⟨-, hs⟩ := hpart hs
        simp only [List.mem_cons, List.not_mem_nil, or_false] at hs
        exact .inl ⟨_, hs⟩
    | bar b => exact absurd hs List.not_mem_nil

/-- A trendline that is shown on hover makes the series pointed at follow the cells of its mark. -/
theorem hoveredSeries_mem (hts : m.toSeriesMark.trendlines = .ok ts)
    (hshown : m.toSeriesMark.HasTrendline (·.displayOnHover)) :
    .hoveredSeries m.toSeriesMark.name true (m.toSeriesMark.name ++ "_voronoi") ∈
      m.toCall.additions.signals := by
  rw [SeriesMark.hasTrendline_of_ok hts, ← List.any_eq_true] at hshown
  rw [additions_of_ok hts, Additions.append_signals, Additions.append_signals, Trendline.additions,
    allSignals, if_pos hshown]
  simp

theorem withScheme_drawsCells (scheme : ColorScheme) {name : String} :
    (m.withScheme scheme).DrawsCells name ↔ m.DrawsCells name := by
  rw [DrawsCells, DrawsCells, withScheme_hasTrendline, withScheme_name]
  cases m <;> simp [withScheme]

end ChartMark

namespace Chart

variable {c : Chart} {d : Document}

/-- Some mark draws cells of a name, or the author gave their name to a mark. -/
def HasCells (c : Chart) (name : String) : Prop :=
  ∃ m ∈ c.marks, m.toSeriesMark.name = name ++ "_voronoi" ∨ m.DrawsCells name

theorem finds_cells_iff (h : c.build = .ok d) {name : String} :
    (∃ x, d.mark? (name ++ "_voronoi") = some x) ↔ c.HasCells name := by
  have hmarks :
      d.marks = c.marks.flatMap fun m => (m.withScheme c.scheme).toCall.additions.marks := by
    obtain ⟨-, rfl⟩ := (c.build_ok_iff d).1 h
    simp only [Document.after, additions, Additions.flatten, calls, List.map_map, List.flatMap_map]
    rfl
  rw [Document.mark?, Mark.exists_findIn?_iff, hmarks, Mark.mem_namesIn_flatMap, HasCells]
  refine exists_congr fun m => and_congr_right fun hm => ?_
  obtain ⟨ts, hts⟩ := trendlines_of_build h m hm
  have hts : (m.withScheme c.scheme).toSeriesMark.trendlines = .ok ts := by simpa using hts
  rw [ChartMark.cells_mem_additions hts, ChartMark.withScheme_name, ChartMark.withScheme_drawsCells]

/-- What a signal of the document follows. -/
theorem followsCells_of_mem (h : c.build = .ok d) {s : Signal} (hs : s ∈ d.signals) :
    s.name = Names.backgroundColor ∧ s.updates = [] ∨ s.IsPicked ∨
      ∃ m ∈ c.marks, ∃ a, s.FollowsCells a ∧ (m.DrawsCells a ∨
        m.toSeriesMark.HasTrendline (·.displayOnHover) ∧ a = m.toSeriesMark.name) := by
  have hadded :
      s ∈ (Document.start c.scheme c.width c.height).signals ∨ s ∈ c.additions.signals := by
    obtain ⟨-, rfl⟩ := (c.build_ok_iff d).1 h
    exact Document.mem_extend _ hs
  rcases hadded with hs | hs
  · rw [List.mem_singleton.1 hs]
    exact .inl ⟨rfl, rfl⟩
  · obtain ⟨m, hm, hs⟩ := mem_additions_signals.1 hs
    obtain ⟨ts, hts⟩ := trendlines_of_build h m hm
    have hts : (m.withScheme c.scheme).toSeriesMark.trendlines = .ok ts := by simpa using hts
    refine .inr ((ChartMark.followsCells_of_mem hts hs).imp_right fun ⟨a, ha, hcells⟩ => ?_)
    rw [ChartMark.withScheme_drawsCells, ChartMark.withScheme_hasTrendline,
      ChartMark.withScheme_name] at hcells
    exact ⟨m, hm, a, ha, hcells⟩

/-- All that signals follow is there, exactly if cells are drawn for every mark with a trendline
that is shown on hover. Cells are drawn for lines with a tooltip or popover and for trendlines with
a tooltip, and never for bars. -/
theorem firesEvents_iff (h : c.build = .ok d) :
    d.FiresEvents ↔ ∀ m ∈ c.marks,
      (m.toSeriesMark.HasTrendline fun t => t.displayOnHover) → c.HasCells m.toSeriesMark.name := by
  constructor
  · intro hfires m hm hshown
    obtain ⟨ts, hts⟩ := trendlines_of_build h m hm
    have hadded := ChartMark.hoveredSeries_mem (m := m.withScheme c.scheme) (by simpa using hts)
      (by simpa using hshown)
    rw [ChartMark.withScheme_name] at hadded
    -- another mark may have declared the signal first, which then follows the same cells
    obtain ⟨s, hs, hname⟩ := List.mem_map.1
      ((mem_signalNames h).2 (.inr ⟨m, hm, List.mem_map_of_mem hadded⟩))
    have hfollows : s.FollowsCells m.toSeriesMark.name := by
      rcases followsCells_of_mem h hs with ⟨hback, -⟩ | hpicked | ⟨-, -, a, ha, -⟩
      · exact absurd (hname.symm.trans hback) (append_suffix_ne (by decide) (by decide))
      · exact absurd hname hpicked.name_ne
      · exact ha.of_name hname
    have hupdate : ∃ u, u ∈ s.updates := by
      rcases hfollows with rfl | rfl <;> exact ⟨_, List.mem_cons_self⟩
    obtain ⟨u, hu⟩ := hupdate
    exact (finds_cells_iff h).1 (hfires s hs u hu _ ((hfollows.follows_iff hu).2 rfl))
  · intro hcells s hs u hu mark hfollows
    rcases followsCells_of_mem h hs with ⟨-, hnone⟩ | hpicked | ⟨m, hm, a, ha, hdrawn⟩
    · rw [hnone] at hu
      exact absurd hu List.not_mem_nil
    · rw [hpicked.updates] at hu
      exact absurd hu List.not_mem_nil
    · rw [(ha.follows_iff hu).1 hfollows]
      refine (finds_cells_iff h).2 ?_
      rcases hdrawn with hdrawn | ⟨hshown, rfl⟩
      · exact ⟨m, hm, .inr hdrawn⟩
      · exact hcells m hm hshown

/-- A tooltip on the line draws the cells that its trendline waits for. -/
theorem firesEvents_with_tooltip :
    let c : Chart := { marks := [
      .bar { children := [.trendline [.tooltip []] {}] },
      .line { children := [.tooltip [], .trendline [] { displayOnHover := some true }] }] }
    ∃ d, c.build = .ok d ∧ d.FiresEvents := by
  intro c
  have h : c.build = .ok _ := rfl
  refine ⟨_, h, (firesEvents_iff h).2 fun m hm hshown => ?_⟩
  simp only [c, List.mem_cons, List.not_mem_nil, or_false] at hm
  rcases hm with rfl | rfl
  · obtain ⟨ts, hts, t, ht, hshown⟩ := hshown
    cases hts
    obtain rfl := List.mem_singleton.1 ht
    exact absurd hshown (by decide)
  · exact ⟨_, List.mem_cons_of_mem _ (List.mem_singleton_self _), .inr (.inl ⟨_, rfl, rfl, rfl⟩)⟩

/-- Bars have no cells, and a trendline over them that is shown on hover waits for some. -/
theorem not_firesEvents_bar :
    ¬∀ (c : Chart) (d : Document), c.build = .ok d → d.FiresEvents := by
  intro hfires
  let b : Bar := { children := [.trendline [] { displayOnHover := some true }] }
  let c : Chart := { marks := [.bar b] }
  have h : c.build = .ok _ := rfl
  obtain ⟨m, hm, hcells⟩ :=
    (firesEvents_iff h).1 (hfires c _ h) (.bar b) (List.mem_singleton_self _)
    ⟨_, rfl, _, List.mem_singleton_self _, rfl⟩
  obtain rfl := List.mem_singleton.1 hm
  rcases hcells with hname | ⟨l, hline, -⟩ | ⟨⟨ts, hts, t, ht, htip⟩, -⟩
  · exact absurd hname (by decide)
  · cases hline
  · cases hts
    obtain rfl := List.mem_singleton.1 ht
    exact absurd htip (by decide)

end Chart

end ChartCompiler
