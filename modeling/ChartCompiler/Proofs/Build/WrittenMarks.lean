import ChartCompiler.Proofs.Build.Calls
import ChartCompiler.Proofs.Document.Written

/-! What marks are written with, part by part. A mark is put together from a few values (its
dimension, its metric, its color, what holds in the highlighted row), so it is written in every
vocabulary that serves these. -/

namespace ChartCompiler

open Mark

structure Scope.Common (σ : Scope) : Prop where
  datum : σ.signal "datum"
  width : σ.signal "width"
  height : σ.signal "height"
  background : σ.signal Names.backgroundColor
  metric : σ.scale Names.metricScale

/-- A scope serves the points of a mark. What can be picked on the mark is left open, since a bar
that holds a popover takes no part in it. -/
structure SeriesMark.Served (σ : Scope) (m : SeriesMark) : Prop extends Scope.Common σ where
  dimension : σ.scale (dimensionScaleName m.scaleType)
  color : ∀ s ∈ Scale.ofColor m.scheme m.color, σ.scale s.name
  opacity : ∀ f ∈ m.opacity.primary?, σ.scale Names.opacityScale

variable {V : Vocabulary}

theorem Scope.Common.backgroundValue (h : V.Common) : ChannelValue.background.Written V :=
  ChannelValue.written_ofSignal.2 (.signal h.background)

namespace Expr

theorem written_flagged (f : String) : (flagged f).Written V :=
  .binary (.datum f) (.binary (.datum f) (.bool true))

theorem written_selected {mark : String} (hid : V.signal (mark ++ "_selectedId")) :
    (selected mark).Written V :=
  .binary (.signal hid) (.binary (.signal hid) (.datum _))

theorem written_highlighted {mark : String} {selectable : Bool}
    (hhovered : V.signal (mark ++ "_hoveredId"))
    (hselected : selectable → V.signal (mark ++ "_selectedId")) :
    (highlighted mark selectable).Written V := by
  have hpointed : (hovered mark).Written V := .binary (.signal hhovered) (.datum _)
  rw [highlighted]
  split_ifs with hs
  · have hid := hselected hs
    exact .binary (.binary (.signal hid) (.datum _)) (.binary (.not (.signal hid)) hpointed)
  · exact hpointed

end Expr

namespace Encoding

theorem scaledOr_written {α : Type} {fixed : α → ChannelValue} {scale : String} {e : Encoding α}
    (hscale : ∀ f ∈ e.primary?, V.scale scale) (hfixed : ∀ a, (fixed a).Written V) :
    (e.scaledOr scale fixed).Written V := by
  cases e with
  | field f => simpa [scaledOr, primary?] using hscale
  | dual f g => simpa [scaledOr, primary?] using hscale
  | fixed a => exact hfixed a

theorem colorValue_written {scheme : ColorScheme} {color : Encoding String}
    (hcolor : ∀ s ∈ Scale.ofColor scheme color, V.scale s.name) :
    (color.colorValue scheme).Written V := by
  cases color with
  | field f => simpa [colorValue, Scale.ofColor, Scale.ordinal, Scale.ofField] using hcolor
  | fixed c => exact ChannelValue.written_ofText _
  | dual f g =>
    obtain ⟨-, hshades, hsecondary⟩ : V.scale Names.colorScale ∧ V.scale Names.shadesScale ∧
        V.scale Names.secondaryColorScale := by
      simpa [Scale.ofColor, Scale.ordinal, Scale.ofField] using hcolor
    have hshade : (Expr.call "scale" [.string Names.shadesScale, .datum f]).Written V :=
      .scale (by decide) hshades (List.forall_mem_singleton.2 (.datum f))
    have hdomain : (Expr.call "domain" [.string Names.secondaryColorScale]).Written V :=
      .scale (by decide) hsecondary (List.forall_mem_nil _)
    refine ChannelValue.written_ofSignal.2 (.index hshade (.binary ?_ ?_))
    · exact .function₂ (by decide) hdomain (.datum g)
    · exact .function (by decide) hshade

end Encoding

theorem ChannelValue.Written.faded {v : ChannelValue} (h : v.Written V) : v.faded.Written V := by
  rw [ChannelValue.faded]
  cases hs : v.signal with
  | some e =>
    have he : e.Written V := h.exprs e (by simp [ChannelValue.exprs, hs])
    exact ChannelValue.written_ofSignal.2 (.binary he (.nat (by decide)))
  | none => exact written_float _

theorem dimensionValue_written {kind : DimensionScale} (h : V.scale (dimensionScaleName kind))
    (dimension : String) : (dimensionValue kind dimension).Written V := by
  cases kind with
  | band =>
    refine ⟨nofun, fun n hn => ?_⟩
    cases hn
    exact h
  | time | linear | point => exact ChannelValue.written_scaled.2 h

theorem metricValue_written (h : V.scale Names.metricScale) (metric : String) :
    (metricValue metric).Written V :=
  ChannelValue.written_scaled.2 h

namespace SeriesMark

variable {m : SeriesMark}

theorem whereStatic_written {v : ChannelValue} (hv : v.Written V) :
    ∀ w ∈ m.whereStatic v, w.Written V := by
  intro w hw
  obtain ⟨f, -, rfl⟩ := Option.map_eq_some_iff.1 (Option.mem_toList.1 hw)
  exact hv.guarded (Expr.written_flagged f)

theorem whereSelected_written (hid : hasPopover m.children → V.signal (m.name ++ "_selectedId"))
    {v : ChannelValue} (hv : v.Written V) : ∀ w ∈ m.whereSelected v, w.Written V := by
  intro w hw
  rw [whereSelected] at hw
  split_ifs at hw with hpop
  · rw [List.mem_singleton.1 hw]
    exact hv.guarded (Expr.written_selected (hid hpop))
  · exact absurd hw List.not_mem_nil

@[simp] theorem highlightSize_written (m : SeriesMark) :
    (Rule.firstOf m.highlightSize).Written V :=
  List.forall_mem_append.2 ⟨whereStatic_written (by simp), by simp⟩

@[simp] theorem highlightStrokeWidth_written (m : SeriesMark) :
    (Rule.firstOf m.highlightStrokeWidth).Written V :=
  List.forall_mem_append.2 ⟨whereStatic_written (by simp), by simp⟩

namespace Served

variable (h : m.Served V.toScope)
include h

theorem x : m.x.2.Written V := by
  simpa [SeriesMark.x] using dimensionValue_written h.dimension m.dimension

theorem y : m.y.2.Written V := by
  simpa [SeriesMark.y] using metricValue_written h.metric m.metric

theorem colorValue : m.colorValue.Written V := Encoding.colorValue_written h.color

theorem opacityValue : m.opacity.opacityValue.Written V :=
  Encoding.scaledOr_written h.opacity ChannelValue.written_float

theorem highlightFill (hid : hasPopover m.children → V.signal (m.name ++ "_selectedId")) :
    (Rule.firstOf m.highlightFill).Written V := by
  simp only [Rule.written_firstOf, SeriesMark.highlightFill, List.forall_mem_append,
    List.forall_mem_singleton]
  exact ⟨⟨whereStatic_written h.colorValue, whereSelected_written hid h.colorValue⟩,
    h.backgroundValue⟩

theorem highlightStroke (hid : hasPopover m.children → V.signal (m.name ++ "_selectedId")) :
    (Rule.firstOf m.highlightStroke).Written V := by
  simp only [Rule.written_firstOf, SeriesMark.highlightStroke, List.forall_mem_append,
    List.forall_mem_singleton]
  exact ⟨⟨whereStatic_written h.colorValue, whereSelected_written hid h.backgroundValue⟩,
    h.colorValue⟩

theorem highlightStrokeOpacity : (Rule.firstOf m.highlightStrokeOpacity).Written V := by
  simp only [Rule.written_firstOf, SeriesMark.highlightStrokeOpacity, List.forall_mem_append,
    List.forall_mem_singleton]
  exact ⟨whereStatic_written h.opacityValue.faded, h.opacityValue⟩

end Served

variable {enclosing : Option Partition}

theorem voronoiCells_written (h : V.Common) : m.voronoiCells.Written V := by
  have hencode : m.voronoiCells.encode = some { enter := .ofList _, update := .ofList [] } := rfl
  have hreactions : ∀ c ∈ m.cellReactions, c.2.Written V := by
    rw [cellReactions]
    split_ifs <;> simp
  refine written_of_rules hencode ?_ ?_
  · simpa [ChannelValue.transparent] using hreactions
  · simp [voronoiCells, drawn, Transform.Written, Transform.exprs, ChannelValue.exprs,
      ChannelValue.ofSignal, h.width, h.height]

/-- A mark of no more than its channels. -/
theorem throughout_of_rules {x : Mark} {enter update : List (String × Rule)}
    (hmarks : x.marks = []) (htransforms : x.transforms = [])
    (hencode : x.encode = some { enter := .ofList enter, update := .ofList update })
    (hrules : ∀ c ∈ enter ++ update, c.2.Written V) :
    x.Throughout (fun _ => Mark.Written V) enclosing :=
  .leaf hmarks (written_of_rules hencode hrules (by simp [htransforms]))

theorem hoverMarks_written (h : m.Served V.toScope)
    (hid : hasPopover m.children → V.signal (m.name ++ "_selectedId")) (source : String)
    (secondMetric : Option String) :
    ∀ x ∈ m.hoverMarks source secondMetric,
      x.Throughout (fun _ => Mark.Written V) enclosing := by
  intro x hx
  simp only [hoverMarks, List.mem_append, List.mem_cons, List.not_mem_nil, or_false,
    Option.mem_toList, Option.map_eq_some_iff] at hx
  rcases hx with ((rfl | rfl | rfl) | ⟨metric, -, rfl⟩) | rfl | rfl
  · refine throughout_of_rules rfl rfl rfl ?_
    simp [h.x, h.height]
  · refine throughout_of_rules rfl rfl rfl ?_
    simp [h.x, h.y, h.backgroundValue]
  · refine throughout_of_rules rfl rfl rfl ?_
    simp [h.x, h.y, h.colorValue, h.highlightFill hid, h.highlightStroke hid,
      h.highlightStrokeOpacity]
  · refine throughout_of_rules rfl rfl rfl ?_
    simp [h.x, h.colorValue, h.backgroundValue, metricValue_written h.metric]
  · refine throughout_of_rules rfl rfl rfl ?_
    simp [h.x, h.y, ChannelValue.transparent]
  · exact .leaf rfl (voronoiCells_written h.toCommon)

theorem selectRing_written (h : m.Served V.toScope) (hid : V.signal (m.name ++ "_selectedId")) :
    m.selectRing.Throughout (fun _ => Mark.Written V) enclosing := by
  refine throughout_of_rules rfl rfl rfl ?_
  have hselected := Expr.written_selected hid
  have hwhen (v : ChannelValue) (hv : v.Written V) :
      (Rule.firstOf [v.guarded (.selected m.name), .literal (.int 0)]).Written V := by
    simp [Rule.written_firstOf, hv.guarded hselected]
  simp [h.x, h.y, h.backgroundValue, hwhen]

/-- A group sets no channels of its own. -/
theorem throughout_of_group {x : Mark} (hencode : x.encode = none) (htransforms : x.transforms = [])
    (hin : ∀ n ∈ x.marks, n.Throughout (fun _ => Mark.Written V) x.partition?) :
    x.Throughout (fun _ => Mark.Written V) enclosing :=
  .intro ⟨by simp [channels, hencode], by simp [htransforms]⟩ hin

theorem lineMarks_written (h : m.Served V.toScope)
    (htype : ∀ f ∈ m.lineType.primary?, V.scale Names.lineTypeScale)
    (hwidth : ∀ f ∈ m.lineWidth.primary?, V.scale Names.lineWidthScale) :
    ∀ x ∈ m.lineMarks, x.Throughout (fun _ => Mark.Written V) none := by
  have hline : m.lineGroup.Throughout (fun _ => Mark.Written V) none := by
    refine throughout_of_group rfl rfl (List.forall_mem_singleton.2 ?_)
    refine throughout_of_rules rfl rfl rfl ?_
    have hdash : m.lineType.dashValue.Written V :=
      Encoding.scaledOr_written htype fun _ => ChannelValue.written_literal _
    have hstroke : m.lineWidth.widthValue.Written V :=
      Encoding.scaledOr_written hwidth fun _ => ChannelValue.written_float _
    simp [h.x, h.y, h.colorValue, hdash, hstroke, lineOpacity, h.opacityValue]
  have hpoints : m.staticPoints.Throughout (fun _ => Mark.Written V) none := by
    refine throughout_of_rules rfl rfl rfl ?_
    simp [h.x, h.y, h.colorValue, h.backgroundValue]
  rw [lineMarks]
  split_ifs <;> simp [hline, hpoints]

theorem lineHighlights_written (h : m.Served V.toScope)
    (hid : hasPopover m.children → V.signal (m.name ++ "_selectedId")) :
    ∀ x ∈ m.lineHighlights, x.Throughout (fun _ => Mark.Written V) none := by
  intro x hx
  rw [lineHighlights] at hx
  split_ifs at hx with hint hpop
  · rcases List.mem_append.1 hx with hx | hx
    · exact hoverMarks_written h hid _ _ x hx
    · rw [List.mem_singleton.1 hx]
      exact selectRing_written h (hid hpop)
  · rw [List.append_nil] at hx
    exact hoverMarks_written h hid _ _ x hx
  · exact absurd hx List.not_mem_nil

end SeriesMark

theorem Bar.barMark_written {b : Bar} (h : b.toSeriesMark.Served V.toScope) :
    b.barMark.Throughout (fun _ => Mark.Written V) none := by
  refine SeriesMark.throughout_of_rules rfl rfl rfl ?_
  have hcolor : (b.color.colorValue b.scheme).Written V := h.colorValue
  have hdimension : V.scale (dimensionScaleName .band) := h.dimension
  -- the width and the zero line are values of a scale alone
  have hscale (v : ChannelValue) (hexprs : v.exprs = []) (hv : ∀ n ∈ v.scale, V.scale n) :
      v.Written V := ⟨by simp [hexprs], hv⟩
  simp only [List.forall_mem_append, List.forall_mem_cons, Rule.written_single, List.not_mem_nil,
    false_implies, implies_true, and_true]
  refine ⟨hcolor, ?_, hscale _ rfl (by simpa using hdimension), ?_, hscale _ rfl ?_⟩
  · exact ChannelValue.written_scaled.2 hdimension
  · exact metricValue_written h.metric b.metric
  · simpa using h.metric

namespace Trendline

variable {m : SeriesMark} {ts : List Trendline} {t : Trendline} {enclosing : Option Partition}

theorem dimensionValue_written (h : m.Served V.toScope)
    (hdays : m.onTimeScale → V.scale Names.trendlineScale) :
    (Trendline.dimensionValue m).Written V := by
  rw [Trendline.dimensionValue]
  split_ifs with htime
  · exact ChannelValue.written_scaled.2 (hdays htime)
  · exact ChartCompiler.dimensionValue_written h.dimension _

theorem line_written (h : m.Served V.toScope) (hdays : m.onTimeScale → V.scale Names.trendlineScale)
    (hhovered : t.displayOnHover → V.signal (m.name ++ "_hoveredSeries")) :
    (line m t).Throughout (fun _ => Mark.Written V) enclosing := by
  have hcolor : (((t.color.map Encoding.fixed).getD m.color).colorValue m.scheme).Written V := by
    cases t.color with
    | none => exact h.colorValue
    | some c => exact ChannelValue.written_ofText _
  have hopacity : (lineOpacity m.name (.fixed t.opacity) t.displayOnHover).Written V := by
    have hvalue : (Encoding.opacityValue (.fixed t.opacity)).Written V :=
      ChannelValue.written_float _
    rw [lineOpacity]
    split_ifs with hhover
    · have htest : (Expr.strictEq (.signal (m.name ++ "_hoveredSeries"))
          (.datum Names.seriesId)).Written V := .binary (.signal (hhovered hhover)) (.datum _)
      simp [Rule.written_firstOf, hvalue.guarded htest]
    · simpa using hvalue
  refine SeriesMark.throughout_of_rules rfl rfl rfl ?_
  simp [hcolor, hopacity, metricValue_written h.metric, dimensionValue_written h hdays,
    Encoding.dashValue, Encoding.widthValue, Encoding.scaledOr]

theorem hoverMark_served (h : m.Served V.toScope) : (hoverMark m ts).Served V.toScope :=
  { h.toCommon with dimension := h.dimension, color := h.color, opacity := h.opacity }

theorem hasPopover_flatMap : hasPopover (ts.flatMap Trendline.children) =
    ts.any fun t => hasPopover t.children :=
  List.any_flatMap

theorem hoverGroup_written (h : m.Served V.toScope)
    (hid : (ts.any fun t => hasPopover t.children) → V.signal (sharedName m.name ++ "_selectedId")) :
    (hoverGroup m ts).Throughout (fun _ => Mark.Written V) enclosing := by
  refine SeriesMark.throughout_of_group rfl rfl ?_
  refine SeriesMark.hoverMarks_written (hoverMark_served h) ?_ _ _
  rw [hoverMark, hasPopover_flatMap]
  exact hid

theorem allMarks_written (h : m.Served V.toScope)
    (hdays : ts ≠ [] → m.onTimeScale → V.scale Names.trendlineScale)
    (hhovered : ∀ t ∈ ts, t.displayOnHover → V.signal (m.name ++ "_hoveredSeries"))
    (hid : (ts.any fun t => hasPopover t.children) → V.signal (sharedName m.name ++ "_selectedId")) :
    ∀ x ∈ allMarks m ts, x.Throughout (fun _ => Mark.Written V) none := by
  intro x hx
  rcases List.mem_append.1 hx with hx | hx
  · obtain ⟨t, ht, rfl⟩ := List.mem_map.1 hx
    refine SeriesMark.throughout_of_group rfl rfl (List.forall_mem_singleton.2 ?_)
    exact line_written h (hdays (List.ne_nil_of_mem ht)) (hhovered t ht)
  · split_ifs at hx
    · rw [List.mem_singleton.1 hx]
      exact hoverGroup_written h hid
    · exact absurd hx List.not_mem_nil

end Trendline

end ChartCompiler
