import ChartCompiler.Proofs.Build.Closed
import ChartCompiler.Proofs.Document.Placed

/-! Every mark draws from something that is there. The sources and the marks of a call are put
together apart, from the same children and methods, and agree on what there is: each mark that is
drawn finds the source it names, and each trendline one that was computed by its method. -/

namespace ChartCompiler

open Mark

namespace SeriesMark

variable {known : List String} {enclosing : Option Partition} (m : SeriesMark)

/-- The cells around the points stand behind these. -/
theorem hoverMarks_drawable {source : String} (secondMetric : Option String)
    (hhighlighted : m.highlightedSource ∈ known) (hsource : source ∈ known)
    (earlier : List String) :
    AllDrawable known enclosing earlier (m.hoverMarks source secondMetric) := by
  have hpoint {x : Mark} {before : List String}
      (hi : x.input = some { source := some m.highlightedSource }) (hm : x.marks = []) :
      x.Drawable known enclosing before := drawable_leaf hi hm (.inl hhighlighted)
  have hlast (before : List String) : AllDrawable known enclosing before
      [m.voronoiPoints source, m.voronoiCells] := by
    refine ⟨drawable_leaf rfl rfl (.inl hsource), drawable_leaf rfl rfl (.inr (.inr ?_)), trivial⟩
    exact List.mem_append_right _ (List.mem_singleton.2 rfl)
  rw [hoverMarks, allDrawable_append, allDrawable_append]
  refine ⟨⟨⟨hpoint rfl rfl, hpoint rfl rfl, hpoint rfl rfl, trivial⟩, ?_⟩, hlast _⟩
  cases secondMetric with
  | none => trivial
  | some metric => exact ⟨hpoint rfl rfl, trivial⟩

theorem lineMarks_drawable (htable : Names.filteredTable ∈ known)
    (hsources : m.lineSources.map Source.name ⊆ known) (earlier : List String) :
    AllDrawable known none earlier m.lineMarks := by
  refine ⟨drawable_group rfl htable ⟨drawable_leaf rfl rfl (.inr (.inl rfl)), trivial⟩, ?_⟩
  cases h : m.staticPoint with
  | none => trivial
  | some f =>
    have hstatic : m.staticPointSource ∈ known := hsources (by simp [lineSources, h])
    exact ⟨drawable_leaf rfl rfl (.inl hstatic), trivial⟩

theorem lineHighlights_drawable (htable : Names.filteredTable ∈ known)
    (hsources : m.lineSources.map Source.name ⊆ known) (earlier : List String) :
    AllDrawable known none earlier m.lineHighlights := by
  rw [lineHighlights]
  split_ifs with hint hpop
  · have hhighlighted : m.highlightedSource ∈ known := hsources (by simp [lineSources, hint])
    rw [allDrawable_append]
    exact ⟨m.hoverMarks_drawable none hhighlighted htable earlier,
      drawable_leaf rfl rfl (.inl hhighlighted), trivial⟩
  · have hhighlighted : m.highlightedSource ∈ known := hsources (by simp [lineSources, hint])
    rw [List.append_nil]
    exact m.hoverMarks_drawable none hhighlighted htable earlier
  · trivial

end SeriesMark

namespace Trendline

variable {known : List String} (m : SeriesMark) (ts : List Trendline)

theorem hasInteractive_of_hasTooltip {cs : List Child} (h : hasTooltip cs) : hasInteractive cs := by
  rw [hasInteractive, h, Bool.true_or]

theorem hasInteractive_of_hasPopover {cs : List Child} (h : hasPopover cs) : hasInteractive cs := by
  rw [hasInteractive, h, Bool.or_true]

theorem combinedSources_of_interactive (h : ∃ t ∈ ts, t.isInteractive) :
    combinedSources m ts =
      [{ name := combinedSource m.name
         origin := .concatenated ((ts.filter isInteractive).map rowSource) },
       .derive (sharedName m.name ++ "_highlightedData") (combinedSource m.name)
         [.filter (.highlighted (sharedName m.name) (ts.any fun t => hasPopover t.children))]] := by
  obtain ⟨t, ht, hint⟩ := h
  have hmem : t ∈ ts.filter isInteractive := List.mem_filter.2 ⟨ht, hint⟩
  rw [combinedSources, if_neg]
  rw [List.isEmpty_iff]
  exact List.ne_nil_of_mem hmem

theorem mem_combinedSources {m : SeriesMark} {ts : List Trendline} {s : Source}
    (hs : s ∈ combinedSources m ts) :
    (∃ t ∈ ts, t.isInteractive) ∧
      (s = { name := combinedSource m.name
             origin := .concatenated ((ts.filter isInteractive).map rowSource) } ∨
        s = .derive (sharedName m.name ++ "_highlightedData") (combinedSource m.name)
          [.filter (.highlighted (sharedName m.name) (ts.any fun t => hasPopover t.children))]) := by
  by_cases h : ∃ t ∈ ts, t.isInteractive
  · rw [combinedSources_of_interactive m ts h] at hs
    exact ⟨h, by simpa using hs⟩
  · have hnone : ts.filter isInteractive = [] := by simpa using h
    simp [combinedSources, hnone] at hs

/-- With a tooltip there are both the rows of all trendlines and those to be highlighted. -/
theorem combinedSources_name (h : ts.any fun t => hasTooltip t.children) :
    (combinedSources m ts).map Source.name =
      [combinedSource m.name, (hoverMark m ts).highlightedSource] := by
  obtain ⟨t, ht, htip⟩ := List.any_eq_true.1 h
  rw [combinedSources_of_interactive m ts ⟨t, ht, hasInteractive_of_hasTooltip htip⟩]
  rfl

theorem allMarks_drawable (hsources : (allSources m ts).map Source.name ⊆ known)
    (earlier : List String) : AllDrawable known none earlier (allMarks m ts) := by
  rw [allMarks, allDrawable_append]
  constructor
  · rw [List.map_eq_flatMap]
    refine allDrawable_flatMap fun t ht earlier => ⟨drawable_group rfl ?_ ?_, trivial⟩
    · refine hsources ?_
      rw [allSources, List.map_append, List.map_flatMap]
      exact List.mem_append_left _ (List.mem_flatMap.2 ⟨t, ht, lineSource_mem m t⟩)
    · exact ⟨drawable_leaf rfl rfl (.inr (.inl rfl)), trivial⟩
  · split_ifs with htip
    · have hcombined : [combinedSource m.name, (hoverMark m ts).highlightedSource] ⊆ known := by
        rw [← combinedSources_name m ts htip]
        refine List.Subset.trans ?_ hsources
        rw [allSources, List.map_append]
        exact List.subset_append_right _ _
      refine ⟨(drawable_iff _).2 ⟨?_, ?_⟩, trivial⟩
      · intro i hi
        cases hi
      · exact (hoverMark m ts).hoverMarks_drawable _ (hcombined (by simp)) (hcombined (by simp)) []
    · trivial

/-- A line is drawn from the source that its method computes. -/
theorem lineSource_computed (t : Trendline) :
    ∃ s ∈ sources m t, s.name = t.lineSource ∧
      Transform.statistical m t.method false ⊆ s.transforms := by
  rw [sources, lineSource]
  split_ifs <;> refine ⟨_, List.mem_cons_self, rfl, ?_⟩ <;> simp [Source.derive]

end Trendline

namespace Call

/-- The marks of a call draw from the filtered table and from what the call adds. -/
theorem marks_drawable {known : List String} (c : Call) (htable : Names.filteredTable ∈ known)
    (hsources : c.additions.sources.map Source.name ⊆ known) (earlier : List String) :
    AllDrawable known none earlier c.additions.marks := by
  have htrendlines {m : SeriesMark} (earlier : List String) :
      m.trendlineAdditions.sources.map Source.name ⊆ known →
        AllDrawable known none earlier m.trendlineAdditions.marks :=
    SeriesMark.trendlineAdditions_induction
      (P := fun a => a.sources.map Source.name ⊆ known → AllDrawable known none earlier a.marks)
      (fun _ => trivial) fun ts h => Trendline.allMarks_drawable m ts h earlier
  cases c with
  | line m =>
    simp only [additions, Additions.append_sources, Additions.append_marks, List.map_append,
      List.append_subset, allDrawable_append] at hsources ⊢
    obtain ⟨⟨hline, htrend⟩, -⟩ := hsources
    refine ⟨⟨m.lineMarks_drawable htable hline earlier, htrendlines _ htrend⟩, ?_⟩
    exact SeriesMark.lineFinish_induction (P := fun a => AllDrawable known none _ a.marks) trivial
      (m.lineHighlights_drawable htable hline _)
  | bar b =>
    simp only [additions, Additions.append_marks, allDrawable_append]
    exact ⟨⟨drawable_leaf rfl rfl (.inl htable), trivial⟩, htrendlines _ hsources⟩
  | trendlines m => exact htrendlines earlier hsources

end Call

/-- The trendlines of a mark are in a document, each drawn from a source that its method computes.
With a tooltip on one of them there are the rows of all that are interactive and the one of them to
be highlighted. Then the highlights are drawn from the one, the points that the cells lie around
from the others, and the cells from these points before them. -/
structure Document.DrawsTrendlines (d : Document) (m : SeriesMark) (ts : List Trendline) :
    Prop where
  lines : ∀ t ∈ ts, Trendline.group m t ∈ d.marks ∧
    ∃ s ∈ Trendline.sources m t, s ∈ d.sources ∧ (Trendline.group m t).source? = some s.name ∧
      Transform.statistical m t.method false ⊆ s.transforms
  highlights : (ts.any fun t => hasTooltip t.children) →
    Trendline.hoverGroup m ts ∈ d.marks ∧
    ∃ all highlighted, Trendline.combinedSources m ts = [all, highlighted] ∧
      all ∈ d.sources ∧ highlighted ∈ d.sources ∧
      (Trendline.hoverGroup m ts).marks.map (fun x => (x.name, x.shape, x.source?)) =
        [(Trendline.sharedName m.name ++ "_hoverRule", .rule, some highlighted.name),
         (Trendline.sharedName m.name ++ "_pointBackground", .symbol, some highlighted.name),
         (Trendline.sharedName m.name ++ "_point", .symbol, some highlighted.name)] ++
        (if ts.any Trendline.highlightRawPoint then
          [(Trendline.sharedName m.name ++ "_secondaryPoint", .symbol, some highlighted.name)]
        else []) ++
        [(Trendline.sharedName m.name ++ "_pointsForVoronoi", .symbol, some all.name),
         (Trendline.sharedName m.name ++ "_voronoi", .path,
           some (Trendline.sharedName m.name ++ "_pointsForVoronoi"))]

namespace Document

theorem drawsTrendlines_of_subset {d : Document} {m : SeriesMark} {ts : List Trendline}
    (hsources : Trendline.allSources m ts ⊆ d.sources)
    (hmarks : Trendline.allMarks m ts ⊆ d.marks) : d.DrawsTrendlines m ts where
  lines t ht := by
    obtain ⟨s, hs, hname, hmethod⟩ := Trendline.lineSource_computed m t
    refine ⟨hmarks ?_, s, hs, hsources ?_, ?_, hmethod⟩
    · exact List.mem_append_left _ (List.mem_map.2 ⟨t, ht, rfl⟩)
    · exact List.mem_append_left _ (List.mem_flatMap.2 ⟨t, ht, hs⟩)
    · rw [hname]
      rfl
  highlights htip := by
    have hnames := Trendline.combinedSources_name m ts htip
    obtain ⟨all, rest, hall, hallname, hrest⟩ := List.map_eq_cons_iff.1 hnames
    obtain ⟨highlighted, _, rfl, hname, hnil⟩ := List.map_eq_cons_iff.1 hrest
    obtain rfl := List.map_eq_nil_iff.1 hnil
    have hmem : ∀ s ∈ [all, highlighted], s ∈ d.sources := fun s hs =>
      hsources (List.mem_append_right _ (hall ▸ hs))
    refine ⟨hmarks ?_, all, highlighted, hall, hmem _ (by simp), hmem _ (by simp), ?_⟩
    · rw [Trendline.allMarks, if_pos htip]
      exact List.mem_append_right _ List.mem_cons_self
    · rw [hallname, hname]
      simp only [Trendline.hoverGroup, clipped, SeriesMark.hoverMarks, List.map_append]
      cases ts.any Trendline.highlightRawPoint <;> rfl

variable (scheme : ColorScheme) (width height : Option Number)

/-- In every document that calls reach from that of an empty chart, marks at every depth find what
they draw from, and the trendlines find the sources that were computed for them. -/
theorem run_drawn (cs : List Call) :
    let d := run cs (start scheme width height)
    (∀ enclosing earlier m, Placed d.marks enclosing earlier m → ∀ i, m.input = some i →
      i.Found (d.sources.map Source.name) enclosing (earlier.map Mark.name)) ∧
    ∀ c ∈ cs, ∀ ts, c.mark.trendlines = .ok ts → d.DrawsTrendlines c.mark ts := by
  intro d
  constructor
  · have htable : Names.filteredTable ∈ d.sources.map Source.name := by
      simp [d, sources_run, Source.filtered]
    have hall : AllDrawable (d.sources.map Source.name) none [] d.marks := by
      simp only [d, marks_run]
      exact allDrawable_flatMap fun c hc => c.marks_drawable htable
        (List.map_subset _ (sources_subset_run hc))
    exact fun enclosing earlier m hm => hall.found hm
  · intro c hc ts hts
    obtain ⟨hs, hm⟩ := c.trendlineAdditions_subset
    rw [SeriesMark.trendlineAdditions_of_ok hts] at hs hm
    exact drawsTrendlines_of_subset (List.Subset.trans hs (sources_subset_run hc))
      (List.Subset.trans hm (marks_subset_run hc))

/-- Behind a line whose second trendline fails, another one is drawn with its highlights. -/
theorem run_drawn_after_error :
    let failed : SeriesMark :=
      { children := [.trendline [] {}, .trendline [] { method := some "" }] }
    let m : SeriesMark := { children := [.trendline [.tooltip []] {}] }
    let d := run [.line failed, .line m] (start .light none none)
    failed.error? ≠ none ∧ ∃ ts, m.trendlines = .ok ts ∧ (ts.any fun t => hasTooltip t.children) ∧
      d.DrawsTrendlines m ts := by
  intro failed m d
  have hm : Call.line m ∈ [Call.line failed, .line m] := by simp
  exact ⟨nofun, _, rfl, rfl, (run_drawn _ _ _ _).2 (.line m) hm _ rfl⟩

end Document

end ChartCompiler
