import ChartCompiler.Build.Marks

/-! What the building of a chart takes from its trendlines. A default that an author writes out is
as good as one left out, and a trendline inside a trendline is not looked at. So a chart can be
settled, its trendlines written out in full and their children sorted out, without a change to its
document. -/

namespace ChartCompiler

/-- The options with every default written out. A trendline without a color keeps none. -/
def TrendlineOptions.settled (o : TrendlineOptions) : TrendlineOptions where
  color := o.color
  dimensionRange := some (o.dimensionRange.getD (none, none))
  displayOnHover := some (o.displayOnHover.getD false)
  highlightRawPoint := some (o.highlightRawPoint.getD false)
  lineType := some (o.lineType.getD (.named .dashed))
  lineWidth := some (o.lineWidth.getD (.named .medium))
  method := some (o.method.getD "linear")
  opacity := some (o.opacity.getD 1)

namespace Child

def settled : Child → Child
  | .trendline cs o => .trendline (Trendline.keepInteractive cs) o.settled
  | c => c

@[simp] theorem settled_isTooltip (c : Child) : c.settled.isTooltip = c.isTooltip := by
  cases c <;> rfl

@[simp] theorem settled_isPopover (c : Child) : c.settled.isPopover = c.isPopover := by
  cases c <;> rfl

@[simp] theorem settled_isInteractive (c : Child) : c.settled.isInteractive = c.isInteractive := by
  simp [isInteractive]

theorem settled_of_interactive {c : Child} (h : c.isInteractive) : c.settled = c := by
  cases c with
  | trendline => cases h
  | tooltip | popover | metricRange => rfl

end Child

@[simp] theorem hasTooltip_settled (cs : List Child) :
    hasTooltip (cs.map Child.settled) = hasTooltip cs := by
  simp [hasTooltip, Function.comp_def]

@[simp] theorem hasPopover_settled (cs : List Child) :
    hasPopover (cs.map Child.settled) = hasPopover cs := by
  simp [hasPopover, Function.comp_def]

@[simp] theorem hasInteractive_settled (cs : List Child) :
    hasInteractive (cs.map Child.settled) = hasInteractive cs := by
  simp [hasInteractive]

namespace Trendline

/-- The children that a trendline keeps are settled as they are. -/
theorem keepInteractive_settled (cs : List Child) :
    keepInteractive (cs.map Child.settled) = keepInteractive cs := by
  have hid : (cs.filter Child.isInteractive).map Child.settled = cs.filter Child.isInteractive := by
    refine (List.map_congr_left fun c hc => ?_).trans (List.map_id _)
    exact Child.settled_of_interactive (List.mem_filter.1 hc).2
  simpa [keepInteractive, List.filter_map, Function.comp_def] using hid

theorem ofOptions_settled (cs : List Child) (o : TrendlineOptions) (mark : String) (index : Nat) :
    ofOptions (keepInteractive cs) o.settled mark index = ofOptions cs o mark index := by
  have hlinear : FitMethod.ofText "linear" = .ok .linear := rfl
  have hkeep : keepInteractive (keepInteractive cs) = keepInteractive cs := by
    simp [keepInteractive]
  cases hm : o.method with
  | none => simp [ofOptions, TrendlineOptions.settled, hm, hkeep, hlinear]
  | some s => simp [ofOptions, TrendlineOptions.settled, hm, hkeep]

theorem ofChildren_settled (cs : List Child) (mark : String) :
    ofChildren (cs.map Child.settled) mark = ofChildren cs mark := by
  unfold ofChildren
  generalize 0 = index
  induction cs generalizing index with
  | nil => rfl
  | cons c cs ih =>
    cases c with
    | tooltip | popover | metricRange => exact ih index
    | trendline inner o =>
      simp only [List.map_cons, Child.settled, List.filterMap_cons, Child.trendline?, ofListFrom,
        ofOptions_settled, ih]

end Trendline

def SeriesMark.settled (m : SeriesMark) : SeriesMark :=
  { m with children := m.children.map Child.settled }

def Bar.settled (b : Bar) : Bar := { b with children := b.children.map Child.settled }

def ChartMark.settled : ChartMark → ChartMark
  | .line m => .line m.settled
  | .bar b => .bar b.settled

def Chart.settled (c : Chart) : Chart := { c with marks := c.marks.map ChartMark.settled }

theorem SeriesMark.trendlines_settled (m : SeriesMark) : m.settled.trendlines = m.trendlines :=
  Trendline.ofChildren_settled m.children m.name

namespace SeriesMark

theorem lineSources_settled (m : SeriesMark) : m.settled.lineSources = m.lineSources := by
  simp [lineSources, settled, staticPointSource, highlightedSource]

theorem lineSignals_settled (m : SeriesMark) : m.settled.lineSignals = m.lineSignals := by
  simp [lineSignals, settled, cells]

theorem whereSelected_settled (m : SeriesMark) (v : ChannelValue) :
    m.settled.whereSelected v = m.whereSelected v := by
  simp [whereSelected, settled]

theorem highlightPoint_settled (m : SeriesMark) : m.settled.highlightPoint = m.highlightPoint := by
  have hfill : m.settled.highlightFill = m.highlightFill := by
    unfold highlightFill
    rw [whereSelected_settled]
    rfl
  have hstroke : m.settled.highlightStroke = m.highlightStroke := by
    unfold highlightStroke
    rw [whereSelected_settled]
    rfl
  unfold highlightPoint
  rw [hfill, hstroke]
  rfl

/-- The highlights ask only whether there is a tooltip or a popover. -/
theorem lineHighlights_settled (m : SeriesMark) : m.settled.lineHighlights = m.lineHighlights := by
  have hcells : m.settled.voronoiCells = m.voronoiCells := by
    simp [voronoiCells, cellReactions, settled, cells, cellPoints]
  have hinteractive : hasInteractive m.settled.children = hasInteractive m.children :=
    hasInteractive_settled m.children
  have hpopover : hasPopover m.settled.children = hasPopover m.children :=
    hasPopover_settled m.children
  unfold lineHighlights hoverMarks
  rw [hinteractive, hpopover, hcells, highlightPoint_settled]
  rfl

end SeriesMark

namespace Document

theorem addLine_settled (m : SeriesMark) (d : Document) : d.addLine m.settled = d.addLine m := by
  unfold addLine withTrendlines
  rw [m.lineSources_settled, m.lineSignals_settled, m.lineHighlights_settled, m.trendlines_settled]
  rfl

theorem addBar_settled (b : Bar) (d : Document) : d.addBar b.settled = d.addBar b := by
  unfold addBar addTrendlinesOf withTrendlines
  have ht : b.settled.toSeriesMark.trendlines = b.toSeriesMark.trendlines :=
    b.toSeriesMark.trendlines_settled
  rw [ht]
  rfl

theorem addMarks_settled (scheme : ColorScheme) (ms : List ChartMark) (d : Document) :
    addMarks ((ms.map ChartMark.settled).map (ChartMark.withScheme scheme)) d =
      addMarks (ms.map (ChartMark.withScheme scheme)) d := by
  induction ms generalizing d with
  | nil => rfl
  | cons m ms ih =>
    have hm : d.addMark (m.settled.withScheme scheme) = d.addMark (m.withScheme scheme) := by
      cases m with
      | line l => exact addLine_settled { l with scheme } d
      | bar b => exact addBar_settled { b with scheme } d
    simp only [List.map_cons, addMarks, hm, ih]

end Document

theorem Chart.build_settled (c : Chart) : c.settled.build = c.build :=
  Document.addMarks_settled c.scheme c.marks _

end ChartCompiler
