import ChartCompiler.Proofs.Build.Covered
import ChartCompiler.Proofs.Build.Methods
import ChartCompiler.Proofs.Document.Recolored

/-! One chart in two color schemes. The scheme of the chart is handed to every mark, and each of
them takes nothing from it but the values of colors, so the two documents differ in their colors
only. -/

namespace ChartCompiler

/-- The colors that the parts of a document have of their own. All of them but one have values in
the palette. -/
def Palette.own : List String :=
  ["gray-50", "gray-300", "static-blue", "transparent"] ++ categorical

example : ∀ color ∈ Palette.own, color ≠ "transparent" → (Palette.named.lookup color).isSome := by
  decide

/-- The colors that the document of a chart can have: its own, and those that the marks and their
trendlines name. -/
inductive Chart.HasColor (c : Chart) (color : String) : Prop
  | own (h : color ∈ Palette.own)
  | mark {m : ChartMark} (hm : m ∈ c.marks) (h : m.toSeriesMark.color = .fixed color)
  | trendline {m : ChartMark} (hm : m ∈ c.marks)
    (h : m.toSeriesMark.HasTrendline (·.color = some color))

structure SeriesMark.ColoredBy (names : String → Prop) (m : SeriesMark) : Prop where
  own : ∀ color ∈ Palette.own, names color
  mark : ∀ color, m.color = .fixed color → names color

variable {names : String → Prop} {a b : ColorScheme}

namespace ChannelValue

theorem recolored_ofText {color : String} (h : names color) :
    (ofText (Palette.resolve a color)).Recolored names a b (ofText (Palette.resolve b color)) :=
  .literal h rfl

theorem recolored_background : background.Recolored names a b background := .same rfl

/-- The palette has no transparent color, so this text stands for itself. -/
theorem recolored_transparent (h : names "transparent") :
    transparent.Recolored names a b transparent := by
  have hself (scheme : ColorScheme) :
      transparent = ofText (Palette.resolve scheme "transparent") := by cases scheme <;> rfl
  have hcolor := recolored_ofText (a := a) (b := b) h
  rwa [← hself, ← hself] at hcolor

theorem Recolored.guarded {v v' : ChannelValue} (h : v.Recolored names a b v') (test : Expr) :
    (v.guarded test).Recolored names a b (v'.guarded test) := by
  cases h with
  | same h => exact .same h
  | literal hcolor h => exact .literal hcolor h

end ChannelValue

theorem Encoding.colorValue_recolored {color : Encoding String}
    (h : ∀ name, color = .fixed name → names name) :
    (color.colorValue a).Recolored names a b (color.colorValue b) := by
  cases color with
  | field f => exact .same rfl
  | dual f g => exact .same rfl
  | fixed name => exact ChannelValue.recolored_ofText (h name rfl)

namespace SeriesMark

open Channels ChannelValue

def inScheme (scheme : ColorScheme) (m : SeriesMark) : SeriesMark := { m with scheme }

variable (m : SeriesMark)

@[simp] theorem x_fst : m.x.1 = "x" := rfl

theorem whereStatic_recolored {v v' : ChannelValue} (h : v.Recolored names a b v') :
    List.Forall₂ (ChannelValue.Recolored names a b) (m.whereStatic v) (m.whereStatic v') := by
  rw [whereStatic, whereStatic]
  cases m.staticPoint with
  | none => exact .nil
  | some f => exact .cons (h.guarded _) .nil

theorem whereSelected_recolored {v v' : ChannelValue} (h : v.Recolored names a b v') :
    List.Forall₂ (ChannelValue.Recolored names a b) (m.whereSelected v) (m.whereSelected v') :=
  forall₂_ite (.cons (h.guarded _) .nil)

theorem highlightBackground_recolored :
    (m.inScheme a).highlightBackground.Recolored names a b (m.inScheme b).highlightBackground :=
  .filled rfl rfl (by decide) (.single recolored_background) (.single recolored_background)
    (by simp [forColors])

namespace ColoredBy

variable {m} (h : m.ColoredBy names)

include h

theorem colorValue_recolored :
    (m.inScheme a).colorValue.Recolored names a b (m.inScheme b).colorValue :=
  Encoding.colorValue_recolored h.mark

theorem transparent_recolored :
    (Rule.single transparent).Recolored names a b (.single transparent) :=
  .single (recolored_transparent (h.own _ (by decide)))

theorem highlightFill_recolored : List.Forall₂ (ChannelValue.Recolored names a b)
    (m.inScheme a).highlightFill (m.inScheme b).highlightFill := by
  have hcolor := h.colorValue_recolored (a := a) (b := b)
  exact List.rel_append
    (List.rel_append (m.whereStatic_recolored hcolor) (m.whereSelected_recolored hcolor))
    (.cons recolored_background .nil)

theorem highlightStroke_recolored : List.Forall₂ (ChannelValue.Recolored names a b)
    (m.inScheme a).highlightStroke (m.inScheme b).highlightStroke := by
  have hcolor := h.colorValue_recolored (a := a) (b := b)
  exact List.rel_append
    (List.rel_append (m.whereStatic_recolored hcolor)
      (m.whereSelected_recolored recolored_background))
    (.cons hcolor .nil)

theorem staticPoints_recolored :
    (m.inScheme a).staticPoints.Recolored names a b (m.inScheme b).staticPoints :=
  .filled rfl rfl (by decide) (.single h.colorValue_recolored) (.single recolored_background)
    (by simp [forColors])

theorem highlightPoint_recolored :
    (m.inScheme a).highlightPoint.Recolored names a b (m.inScheme b).highlightPoint := by
  refine .leaf rfl rfl (.cons (.same (by decide) _) (.cons ?stroke .nil))
    (.cons ?fill (.cons (.same (by decide) _) (.cons ?edge (uncolored (by simp [forColors])))))
  case stroke => exact .color (by decide) (.single h.colorValue_recolored)
  case fill => exact .color (by decide) (.firstOf h.highlightFill_recolored)
  case edge => exact .color (by decide) (.firstOf h.highlightStroke_recolored)

theorem secondaryPoint_recolored (metric : String) :
    ((m.inScheme a).secondaryPoint metric).Recolored names a b
      ((m.inScheme b).secondaryPoint metric) :=
  .filled rfl rfl (by decide) (.single recolored_background) (.single h.colorValue_recolored)
    (by simp [forColors])

theorem selectRing_recolored :
    (m.inScheme a).selectRing.Recolored names a b (m.inScheme b).selectRing :=
  .filled rfl rfl (by decide) (.single recolored_background)
    (.single (recolored_ofText (h.own "static-blue" (by decide)))) (by simp [forColors])

theorem hoverRule_recolored :
    (m.inScheme a).hoverRule.Recolored names a b (m.inScheme b).hoverRule := by
  refine .leaf rfl rfl (.cons (.same (by decide) _) (.cons (.same (by decide) _)
    (.cons (.same (by decide) _) (.cons ?_ .nil)))) (uncolored (by simp [forColors]))
  exact .color (by decide) (.single (recolored_ofText (h.own "gray-300" (by decide))))

theorem voronoiPoints_recolored (source : String) :
    ((m.inScheme a).voronoiPoints source).Recolored names a b
      ((m.inScheme b).voronoiPoints source) :=
  .filled rfl rfl (by decide) h.transparent_recolored h.transparent_recolored (by simp [forColors])

theorem voronoiCells_recolored :
    (m.inScheme a).voronoiCells.Recolored names a b (m.inScheme b).voronoiCells := by
  have hreactions : List.Forall₂ (Channels.Recolored names a b) m.cellReactions m.cellReactions :=
    List.rel_append (forall₂_ite (uncolored (by simp [forColors])))
      (forall₂_ite (uncolored (by simp [forColors])))
  refine .leaf rfl rfl (.cons ?_ (.cons ?_ (.cons (.same (by decide) _) hreactions))) .nil
  · exact .color (by decide) h.transparent_recolored
  · exact .color (by decide) h.transparent_recolored

theorem hoverMarks_recolored (source : String) (secondMetric : Option String) :
    List.Forall₂ (Mark.Recolored names a b) ((m.inScheme a).hoverMarks source secondMetric)
      ((m.inScheme b).hoverMarks source secondMetric) := by
  refine List.rel_append (List.rel_append ?_ ?_) ?_
  · exact .cons h.hoverRule_recolored
      (.cons m.highlightBackground_recolored (.cons h.highlightPoint_recolored .nil))
  · cases secondMetric with
    | none => exact .nil
    | some metric => exact .cons (h.secondaryPoint_recolored metric) .nil
  · exact .cons (h.voronoiPoints_recolored source) (.cons h.voronoiCells_recolored .nil)

theorem lineMarks_recolored :
    List.Forall₂ (Mark.Recolored names a b) (m.inScheme a).lineMarks (m.inScheme b).lineMarks := by
  have hgroup : (m.inScheme a).lineGroup.Recolored names a b (m.inScheme b).lineGroup := by
    refine .of _ .none (.cons (.leaf rfl rfl ?_ ?_) .nil)
    · exact .cons (.same (by decide) _) (.cons (.color (by decide) (.single h.colorValue_recolored))
        (uncolored (by simp [forColors])))
    · exact uncolored (by simp [forColors])
  exact .cons hgroup (forall₂_ite (.cons h.staticPoints_recolored .nil))

theorem lineHighlights_recolored : List.Forall₂ (Mark.Recolored names a b)
    (m.inScheme a).lineHighlights (m.inScheme b).lineHighlights :=
  forall₂_ite (List.rel_append (h.hoverMarks_recolored _ _)
    (forall₂_ite (.cons h.selectRing_recolored .nil)))

end ColoredBy

end SeriesMark

theorem Bar.barMark_recolored {bar : Bar} (h : bar.toSeriesMark.ColoredBy names) :
    ({ bar with scheme := a } : Bar).barMark.Recolored names a b
      ({ bar with scheme := b } : Bar).barMark := by
  refine .leaf rfl rfl (.cons ?_ .nil) (Channels.uncolored (by simp [Channels.forColors]))
  exact .color (by decide) (.single (Encoding.colorValue_recolored h.mark))

namespace Trendline

variable {m : SeriesMark}

theorem line_recolored (h : m.ColoredBy names) {t : Trendline}
    (ht : ∀ color, t.color = some color → names color) :
    (line (m.inScheme a) t).Recolored names a b (line (m.inScheme b) t) := by
  refine .leaf rfl rfl (.cons (.same (by decide) _) (.cons ?_ (Channels.uncolored
    (by simp [Channels.forColors])))) (Channels.uncolored (by simp [Channels.forColors]))
  refine .color (by decide) (.single (Encoding.colorValue_recolored fun color hcolor => ?_))
  cases hown : t.color with
  | none =>
    rw [hown] at hcolor
    exact h.mark color hcolor
  | some own =>
    rw [hown] at hcolor
    exact ht color (hown.trans (congrArg some (Encoding.fixed.inj hcolor)))

theorem allMarks_recolored (h : m.ColoredBy names) {ts : List Trendline}
    (hts : ∀ t ∈ ts, ∀ color, t.color = some color → names color) :
    List.Forall₂ (Mark.Recolored names a b) (allMarks (m.inScheme a) ts)
      (allMarks (m.inScheme b) ts) := by
  refine List.rel_append ?_ (forall₂_ite (.cons ?_ .nil))
  · rw [List.forall₂_map_left_iff, List.forall₂_map_right_iff, List.forall₂_same]
    exact fun t ht => .of _ .none (.cons (line_recolored h (hts t ht)) .nil)
  · have hhover : (hoverMark m ts).ColoredBy names := ⟨h.own, h.mark⟩
    exact .of _ .none (hhover.hoverMarks_recolored _ _)

end Trendline

namespace Scale

theorem ofDimension_recolored (kind : DimensionScale) (dimension : String) :
    (ofDimension kind dimension).Recolored names a b (ofDimension kind dimension) := by
  refine .same ?_
  rw [name_ofDimension]
  cases kind <;> decide

theorem ofMetric_recolored (metric : String) :
    (ofMetric metric).Recolored names a b (ofMetric metric) := by
  refine .same ?_
  rw [name_ofMetric]
  decide

theorem ordinal_recolored {name : String} (h : name ∈ forColors) (field : String)
    {vs vs' : List Json} (hvs : List.Forall₂ (Json.Recolored names a b) vs vs') :
    (ordinal name field vs).Recolored names a b (ordinal name field vs') :=
  .color h rfl rfl hvs

/-- Colors by their names, as a list of values in two schemes. -/
theorem colors_recolored {colors : List String} (h : ∀ color ∈ colors, names color) :
    List.Forall₂ (Json.Recolored names a b) ((colors.map (Palette.resolve a)).map .text)
      ((colors.map (Palette.resolve b)).map .text) := by
  simp only [List.map_map, List.forall₂_map_left_iff, List.forall₂_map_right_iff, List.forall₂_same]
  exact fun color hcolor => .color (h color hcolor)

theorem rotate_map {α β : Type} (f : α → β) (xs : List α) (n : Nat) :
    rotate (xs.map f) n = (rotate xs n).map f := by
  rw [rotate, rotate, List.map_append, List.map_drop, List.map_take]

theorem mem_of_mem_rotate {α : Type} {x : α} {xs : List α} {n : Nat} (h : x ∈ rotate xs n) :
    x ∈ xs :=
  (List.mem_append.1 h).elim List.mem_of_mem_drop List.mem_of_mem_take

theorem ofColor_recolored (hown : ∀ color ∈ Palette.own, names color) (color : Encoding String) :
    List.Forall₂ (Scale.Recolored names a b) (ofColor a color) (ofColor b color) := by
  have hcategorical : ∀ color ∈ Palette.categorical, names color :=
    fun color h => hown color (List.mem_append_right _ h)
  have hpalette := colors_recolored (a := a) (b := b) hcategorical
  cases color with
  | field f => exact .cons (ordinal_recolored (by decide) f hpalette) .nil
  | dual f g =>
    refine .cons (ordinal_recolored (by decide) f hpalette)
      (.cons (ordinal_recolored (by decide) f ?_)
        (.cons (ordinal_recolored (by decide) g hpalette) .nil))
    rw [List.length_map, List.length_map, List.forall₂_map_left_iff, List.forall₂_map_right_iff,
      List.forall₂_same]
    intro n _
    rw [rotate_map, rotate_map]
    exact .list (colors_recolored fun color h => hcategorical color (mem_of_mem_rotate h))
  | fixed c => exact .nil

/-- The scales of a line do not differ but in the colors of its color scales. -/
theorem ofLineType_recolored (lineType : Encoding LineType) :
    List.Forall₂ (Scale.Recolored names a b) (ofLineType lineType).toList
      (ofLineType lineType).toList := by
  rw [ofLineType]
  cases lineType.primary? with
  | none => exact .nil
  | some f => exact .cons (.same (show Names.lineTypeScale ∉ forColors by decide)) .nil

end Scale

theorem Trendline.allScales_recolored (m : SeriesMark) (ts : List Trendline) :
    List.Forall₂ (Scale.Recolored names a b) (allScales (m.inScheme a) ts)
      (allScales (m.inScheme b) ts) := by
  change List.Forall₂ _ (allScales m ts) (allScales m ts)
  rw [allScales]
  split_ifs
  · exact .nil
  · exact .cons (.same (show Names.trendlineScale ∉ Scale.forColors by decide)) .nil

structure Additions.Recolored (names : String → Prop) (a b : ColorScheme) (x y : Additions) :
    Prop where
  fields : y.fields = x.fields
  sources : y.sources = x.sources
  scales : List.Forall₂ (Scale.Recolored names a b) x.scales y.scales
  signals : y.signals = x.signals
  marks : List.Forall₂ (Mark.Recolored names a b) x.marks y.marks

namespace Additions

variable {x x' y y' : Additions}

theorem Recolored.nothing : ({} : Additions).Recolored names a b {} := ⟨rfl, rfl, .nil, rfl, .nil⟩

theorem Recolored.append (hx : x.Recolored names a b x') (hy : y.Recolored names a b y') :
    (x ++ y).Recolored names a b (x' ++ y') where
  fields := by rw [append_fields, append_fields, hx.fields, hy.fields]
  sources := by rw [append_sources, append_sources, hx.sources, hy.sources]
  scales := List.rel_append hx.scales hy.scales
  signals := by rw [append_signals, append_signals, hx.signals, hy.signals]
  marks := List.rel_append hx.marks hy.marks

theorem recolored_flatten {xs ys : List Additions} (h : List.Forall₂ (Recolored names a b) xs ys) :
    (flatten xs).Recolored names a b (flatten ys) := by
  induction h with
  | nil => exact .nothing
  | cons hx _ ih =>
    rw [flatten_cons, flatten_cons]
    exact hx.append ih

/-- The document after additions. The signal for the color behind the chart stands first, so no
other signal of its name is there. -/
theorem Recolored.after (hgray : names "gray-50") (h : x.Recolored names a b y)
    (width height : Option Number) :
    (Document.after a width height x).Recolored names a b (Document.after b width height y) where
  width := rfl
  height := rfl
  sources := by
    rw [Document.after, Document.after, h.fields, h.sources]
  scales := Document.forall₂_extend (by rintro _ _ (_ | _) <;> rfl) .nil h.scales
  signals := by
    have hsignals (scheme : ColorScheme) :
        Document.extend Signal.name (Document.start scheme width height).signals x.signals =
          (Document.start scheme width height).signals ++
            (Document.firstPerName Signal.name x.signals).filter
              (!Names.backgroundColor == ·.name) := by
      simp only [Document.extend_eq, Document.start, List.any_cons, List.any_nil, Bool.or_false]
    have hbackground : List.Forall₂ (Signal.Recolored names a b)
        (Document.start a width height).signals (Document.start b width height).signals :=
      .cons (.background rfl hgray rfl) .nil
    rw [Document.after, Document.after, h.signals, hsignals, hsignals]
    refine List.rel_append hbackground (List.forall₂_same.2 fun s hs => .same ?_)
    have hother := (List.mem_filter.1 hs).2
    exact Ne.symm (by simpa using hother)
  marks := h.marks

end Additions

namespace ChartMark

variable (m : ChartMark)

theorem withScheme_withScheme (first second : ColorScheme) :
    (m.withScheme first).withScheme second = m.withScheme second := by
  cases m <;> rfl

theorem toSeriesMark_withScheme (scheme : ColorScheme) :
    (m.withScheme scheme).toSeriesMark = m.toSeriesMark.inScheme scheme := by
  cases m <;> rfl

variable {m}

theorem base_recolored (h : m.toSeriesMark.ColoredBy names) :
    (m.withScheme a).base.Recolored names a b (m.withScheme b).base := by
  cases m with
  | line l =>
    refine ⟨rfl, rfl, ?_, rfl, h.lineMarks_recolored⟩
    refine List.rel_append (List.rel_append ?_ (Scale.ofColor_recolored h.own l.color))
      (Scale.ofLineType_recolored l.lineType)
    exact .cons (Scale.ofDimension_recolored _ _) (.cons (Scale.ofMetric_recolored _) .nil)
  | bar bar =>
    refine ⟨rfl, rfl, ?_, rfl, .cons (Bar.barMark_recolored h) .nil⟩
    refine List.rel_append ?_ (Scale.ofColor_recolored h.own bar.color)
    exact .cons (Scale.ofDimension_recolored _ _) (.cons (Scale.ofMetric_recolored _) .nil)

theorem finish_recolored (h : m.toSeriesMark.ColoredBy names) :
    (m.withScheme a).finish.Recolored names a b (m.withScheme b).finish := by
  cases m with
  | line l => exact ⟨rfl, rfl, .nil, rfl, h.lineHighlights_recolored⟩
  | bar bar => exact .nothing

theorem additions_recolored (h : m.toSeriesMark.ColoredBy names) {ts : List Trendline}
    (hread : m.toSeriesMark.trendlines = .ok ts)
    (hts : ∀ t ∈ ts, ∀ color, t.color = some color → names color) :
    (m.withScheme a).toCall.additions.Recolored names a b (m.withScheme b).toCall.additions := by
  have hread (scheme : ColorScheme) : (m.withScheme scheme).toSeriesMark.trendlines = .ok ts := by
    rw [withScheme_trendlines, hread]
  have htrendlines : (Trendline.additions (m.toSeriesMark.inScheme a) ts).Recolored names a b
      (Trendline.additions (m.toSeriesMark.inScheme b) ts) :=
    ⟨rfl, rfl, Trendline.allScales_recolored _ ts, rfl, Trendline.allMarks_recolored h hts⟩
  rw [additions_of_ok (hread a), additions_of_ok (hread b), toSeriesMark_withScheme,
    toSeriesMark_withScheme]
  exact ((base_recolored h).append htrendlines).append (finish_recolored h)

end ChartMark

namespace Chart

/-- The scheme that a chart hands to its marks replaces the ones they name. -/
theorem map_withScheme_eq {ms ms' : List ChartMark} (scheme : ColorScheme)
    (h : List.Forall₂ (fun m m' => ∃ named, m' = m.withScheme named) ms ms') :
    ms'.map (ChartMark.withScheme scheme) = ms.map (ChartMark.withScheme scheme) := by
  induction h with
  | nil => rfl
  | cons hm _ ih =>
    obtain ⟨named, rfl⟩ := hm
    rw [List.map_cons, List.map_cons, ChartMark.withScheme_withScheme, ih]

/-- A chart in two color schemes comes to the same error, or to documents that differ in their
colors only, and each of these is a color of the chart. The schemes that its marks name do not
matter. -/
theorem build_recolored (c : Chart) (a b : ColorScheme) :
    ((∃ e, { c with scheme := a }.build = .error e ∧ { c with scheme := b }.build = .error e) ∨
      ∃ d d', { c with scheme := a }.build = .ok d ∧ { c with scheme := b }.build = .ok d' ∧
        d.Recolored c.HasColor a b d') ∧
    ∀ ms, List.Forall₂ (fun m m' => ∃ scheme, m' = m.withScheme scheme) c.marks ms →
      { c with marks := ms }.build = c.build := by
  constructor
  · cases herror : c.methods.findSome? FitMethod.error? with
    | some e =>
      exact .inl ⟨e, (build_eq_error_iff { c with scheme := a } e).2 herror,
        (build_eq_error_iff { c with scheme := b } e).2 herror⟩
    | none =>
      obtain ⟨d, hd⟩ := (exists_build_iff { c with scheme := a }).2 herror
      obtain ⟨d', hd'⟩ := (exists_build_iff { c with scheme := b }).2 herror
      refine .inr ⟨d, d', hd, hd', ?_⟩
      have hadditions : ({ c with scheme := a } : Chart).additions.Recolored c.HasColor a b
          ({ c with scheme := b } : Chart).additions := by
        refine Additions.recolored_flatten ?_
        simp only [calls, List.map_map, List.forall₂_map_left_iff, List.forall₂_map_right_iff,
          List.forall₂_same]
        intro m hm
        obtain ⟨ts, hts⟩ := trendlines_of_build hd m hm
        exact ChartMark.additions_recolored ⟨fun _ => .own, fun _ => .mark hm⟩ hts
          fun t ht color hcolor => .trendline hm ⟨ts, hts, t, ht, hcolor⟩
      rw [((build_ok_iff _ d).1 hd).2, ((build_ok_iff _ d').1 hd').2]
      exact hadditions.after (.own (by decide)) c.width c.height
  · intro ms h
    rw [build, build, map_withScheme_eq c.scheme h]

/-- A line with a popover and a fixed color and bars in many colors, with marks that name either
scheme. -/
theorem build_recolored_line_and_bar :
    let line : SeriesMark := { color := .fixed "gray-900", children := [.popover none none] }
    let bar : Bar := { color := .dual "series" "period" }
    let c : Chart := { marks := [.line line, .bar bar] }
    let ms : List ChartMark := [.line { line with scheme := .dark }, .bar bar]
    List.Forall₂ (fun m m' => ∃ scheme, m' = m.withScheme scheme) c.marks ms ∧
      ∃ d d', { c with marks := ms }.build = .ok d ∧ { c with scheme := .dark }.build = .ok d' ∧
        d.Recolored c.HasColor .light .dark d' ∧ d.signals.head?.map Signal.initial =
          some (.text "rgb(255, 255, 255)") ∧
        d'.signals.head?.map Signal.initial = some (.text "rgb(29, 29, 29)") := by
  intro line bar c ms
  have hms : List.Forall₂ (fun m m' => ∃ scheme, m' = m.withScheme scheme) c.marks ms :=
    .cons ⟨.dark, rfl⟩ (.cons ⟨.light, rfl⟩ .nil)
  obtain ⟨hschemes, hmarks⟩ := build_recolored c .light .dark
  have hbuild : c.build = .ok _ := rfl
  have hdark : { c with scheme := .dark }.build = .ok _ := rfl
  rcases hschemes with ⟨e, he, -⟩ | ⟨d, d', hd, hd', hrecolored⟩
  · cases he
  · cases hd
    cases hd'
    exact ⟨hms, _, _, (hmarks ms hms).trans hbuild, hdark, hrecolored, rfl, rfl⟩

end Chart

end ChartCompiler
