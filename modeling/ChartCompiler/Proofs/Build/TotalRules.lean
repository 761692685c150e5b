import ChartCompiler.Axis.Labels
import ChartCompiler.Proofs.Build.Parts
import ChartCompiler.Proofs.Document.FirstTrue

/-! Every channel has a value in every row. The values that encodings stand for are not tested. A
test comes in where a value is to hold in some rows only (those of static points, the picked one,
the series pointed at), and there one without a test is put behind. This is followed through the
marks of a chart at every depth, and through the channels of axis labels. -/

namespace ChartCompiler

open Mark

namespace ChannelValue

@[simp] theorem test_literal (j : Json) : (literal j).test = none := rfl

@[simp] theorem test_ofText (s : String) : (ofText s).test = none := rfl

@[simp] theorem test_ofSignal (e : Expr) : (ofSignal e).test = none := rfl

@[simp] theorem test_scaled (scale field : String) : (scaled scale field).test = none := rfl

@[simp] theorem test_background : background.test = none := rfl

@[simp] theorem test_transparent : transparent.test = none := rfl

end ChannelValue

namespace Encoding

theorem test_scaledOr {α : Type} {fixed : α → ChannelValue}
    (hfixed : ∀ a, (fixed a).test = none) (scale : String) (e : Encoding α) :
    (e.scaledOr scale fixed).test = none := by
  cases e with
  | field f => rfl
  | dual f g => rfl
  | fixed a => exact hfixed a

@[simp] theorem test_colorValue (scheme : ColorScheme) (color : Encoding String) :
    (color.colorValue scheme).test = none := by
  cases color <;> rfl

@[simp] theorem test_dashValue (e : Encoding LineType) : e.dashValue.test = none := by
  apply test_scaledOr
  exact fun _ => rfl

@[simp] theorem test_widthValue (e : Encoding LineWidth) : e.widthValue.test = none := by
  apply test_scaledOr
  exact fun _ => rfl

@[simp] theorem test_opacityValue (e : Encoding Number) : e.opacityValue.test = none := by
  apply test_scaledOr
  exact fun _ => rfl

end Encoding

@[simp] theorem test_dimensionValue (kind : DimensionScale) (dimension : String) :
    (dimensionValue kind dimension).test = none := by
  cases kind <;> rfl

@[simp] theorem test_metricValue (metric : String) : (metricValue metric).test = none := rfl

def Mark.IsComplete (m : Mark) : Prop := ∀ c ∈ m.channels, c.2.Complete

/-- A mark without marks inside is complete if the rules are that its channels are set to. -/
theorem Mark.throughout_complete_of_rules {m : Mark} {enclosing : Option Partition}
    {enter update : List (String × Rule)} (hmarks : m.marks = [])
    (hencode : m.encode = some { enter := .ofList enter, update := .ofList update })
    (hrules : ∀ c ∈ enter ++ update, c.2.Complete) :
    m.Throughout (fun _ => IsComplete) enclosing :=
  .leaf hmarks fun c hc => hrules c (mem_channels_of_rules hencode hc)

/-- A group sets no channels of its own. -/
theorem Mark.throughout_complete_of_group {m : Mark} {enclosing : Option Partition}
    (hencode : m.encode = none)
    (hin : ∀ n ∈ m.marks, n.Throughout (fun _ => IsComplete) m.partition?) :
    m.Throughout (fun _ => IsComplete) enclosing :=
  .intro (by simp [IsComplete, channels, hencode]) hin

namespace SeriesMark

variable (m : SeriesMark) {enclosing : Option Partition}

@[simp] theorem x_complete : m.x.2.Complete := by simp [x]

@[simp] theorem y_complete : m.y.2.Complete := by simp [y]

@[simp] theorem test_colorValue : m.colorValue.test = none := Encoding.test_colorValue _ _

/-- Where points may be static, a value for them comes in front of the one for all others. -/
theorem whereStatic_tested (v : ChannelValue) : ∀ w ∈ m.whereStatic v, w.test.isSome := by
  intro w hw
  obtain ⟨f, -, rfl⟩ := Option.map_eq_some_iff.1 (Option.mem_toList.1 hw)
  rfl

theorem whereSelected_tested (v : ChannelValue) : ∀ w ∈ m.whereSelected v, w.test.isSome := by
  intro w hw
  unfold whereSelected at hw
  split_ifs at hw with hpop
  · rw [List.mem_singleton.1 hw]
    rfl
  · cases hw

@[simp] theorem highlightFill_complete : (Rule.firstOf m.highlightFill).Complete :=
  .firstOf (List.forall_mem_append.2 ⟨m.whereStatic_tested _, m.whereSelected_tested _⟩) rfl

@[simp] theorem highlightStroke_complete : (Rule.firstOf m.highlightStroke).Complete :=
  .firstOf (List.forall_mem_append.2 ⟨m.whereStatic_tested _, m.whereSelected_tested _⟩) (by simp)

@[simp] theorem highlightStrokeOpacity_complete :
    (Rule.firstOf m.highlightStrokeOpacity).Complete :=
  .firstOf (m.whereStatic_tested _) (by simp)

@[simp] theorem highlightSize_complete : (Rule.firstOf m.highlightSize).Complete :=
  .firstOf (m.whereStatic_tested _) rfl

@[simp] theorem highlightStrokeWidth_complete : (Rule.firstOf m.highlightStrokeWidth).Complete :=
  .firstOf (m.whereStatic_tested _) rfl

theorem hoverMarks_complete (source : String) (secondMetric : Option String) :
    ∀ n ∈ m.hoverMarks source secondMetric, n.Throughout (fun _ => IsComplete) enclosing := by
  intro n hn
  simp only [hoverMarks, List.mem_append, List.mem_cons, List.not_mem_nil, or_false,
    Option.mem_toList, Option.map_eq_some_iff] at hn
  rcases hn with ((rfl | rfl | rfl) | ⟨metric, -, rfl⟩) | rfl | rfl
  · exact throughout_complete_of_rules rfl rfl (by simp)
  · exact throughout_complete_of_rules rfl rfl (by simp)
  · exact throughout_complete_of_rules rfl rfl (by simp)
  · exact throughout_complete_of_rules rfl rfl (by simp)
  · exact throughout_complete_of_rules rfl rfl (by simp)
  · have hencode : m.voronoiCells.encode = some { enter := .ofList _, update := .ofList [] } := rfl
    have hreactions : ∀ c ∈ m.cellReactions, c.2.Complete := by
      unfold cellReactions
      split_ifs <;> simp
    exact throughout_complete_of_rules rfl hencode (by simpa using hreactions)

theorem selectRing_complete : m.selectRing.Throughout (fun _ => IsComplete) enclosing := by
  have hselected (v : ChannelValue) :
      (Rule.firstOf [v.guarded (.selected m.name), .literal (.int 0)]).Complete :=
    Rule.complete_guarded_or rfl
  exact throughout_complete_of_rules rfl rfl (by simp [hselected])

theorem lineMarks_complete : ∀ n ∈ m.lineMarks, n.Throughout (fun _ => IsComplete) none := by
  have hline : m.lineGroup.Throughout (fun _ => IsComplete) none := by
    refine throughout_complete_of_group rfl (List.forall_mem_singleton.2 ?_)
    exact throughout_complete_of_rules rfl rfl (by simp [lineOpacity])
  have hpoints : m.staticPoints.Throughout (fun _ => IsComplete) none :=
    throughout_complete_of_rules rfl rfl (by simp)
  unfold lineMarks
  split_ifs <;> simp [hline, hpoints]

theorem lineHighlights_complete :
    ∀ n ∈ m.lineHighlights, n.Throughout (fun _ => IsComplete) none := by
  intro n hn
  unfold lineHighlights at hn
  split_ifs at hn with hint hpop
  · rcases List.mem_append.1 hn with hn | hn
    · exact m.hoverMarks_complete _ _ n hn
    · rw [List.mem_singleton.1 hn]
      exact m.selectRing_complete
  · rw [List.append_nil] at hn
    exact m.hoverMarks_complete _ _ n hn
  · cases hn

end SeriesMark

theorem Bar.barMark_complete (b : Bar) : b.barMark.Throughout (fun _ => IsComplete) none :=
  throughout_complete_of_rules rfl rfl (by simp)

namespace Trendline

variable (m : SeriesMark) (ts : List Trendline) (t : Trendline)

theorem lineOpacity_complete (mark : String) (opacity : Encoding Number) (hover : Bool) :
    (lineOpacity mark opacity hover).Complete := by
  unfold lineOpacity
  split_ifs with hhover
  · exact Rule.complete_guarded_or rfl
  · simp

theorem test_dimensionValue : (Trendline.dimensionValue m).test = none := by
  unfold Trendline.dimensionValue
  split_ifs <;> simp

theorem allMarks_complete : ∀ n ∈ allMarks m ts, n.Throughout (fun _ => IsComplete) none := by
  intro n hn
  rcases List.mem_append.1 hn with hn | hn
  · obtain ⟨t, -, rfl⟩ := List.mem_map.1 hn
    refine throughout_complete_of_group rfl (List.forall_mem_singleton.2 ?_)
    exact throughout_complete_of_rules rfl rfl
      (by simp [lineOpacity_complete, test_dimensionValue])
  · split_ifs at hn with htip
    · rw [List.mem_singleton.1 hn]
      exact throughout_complete_of_group rfl ((hoverMark m ts).hoverMarks_complete _ _)
    · cases hn

end Trendline

/-- All that a call adds is complete, also where it fails behind what it has added. -/
theorem Call.marks_complete (c : Call) :
    ∀ n ∈ c.additions.marks, n.Throughout (fun _ => IsComplete) none := by
  have htrendlines (m : SeriesMark) :
      ∀ n ∈ m.trendlineAdditions.marks, n.Throughout (fun _ => IsComplete) none :=
    SeriesMark.trendlineAdditions_induction
      (P := fun a => ∀ n ∈ a.marks, n.Throughout (fun _ => IsComplete) none)
      (List.forall_mem_nil _) (Trendline.allMarks_complete m)
  cases c with
  | line m =>
    have hfinish : ∀ n ∈ m.lineFinish.marks, n.Throughout (fun _ => IsComplete) none :=
      SeriesMark.lineFinish_induction
        (P := fun a => ∀ n ∈ a.marks, n.Throughout (fun _ => IsComplete) none)
        (List.forall_mem_nil _) m.lineHighlights_complete
    simp only [additions, Additions.append_marks, List.forall_mem_append]
    exact ⟨⟨m.lineMarks_complete, htrendlines m⟩, hfinish⟩
  | bar b =>
    simp only [additions, Additions.append_marks, List.forall_mem_append]
    exact ⟨List.forall_mem_singleton.2 b.barMark_complete, htrendlines _⟩
  | trendlines m => exact htrendlines _

theorem Chart.complete_of_build {c : Chart} {d : Document} (h : c.build = .ok d)
    {enclosing : Option Partition} {earlier : List Mark} {m : Mark}
    (hm : Placed d.marks enclosing earlier m) : m.IsComplete := by
  apply Throughout.of_placed (P := fun _ => IsComplete) ?_ hm
  intro n hn
  obtain ⟨mark, -, hn⟩ := mem_marks_build h hn
  exact Call.marks_complete _ n hn

namespace Axis

theorem format_complete (f : Option LabelFormat) : (Rule.firstOf (format f)).Complete := by
  unfold format
  split_ifs with hpercentage
  · exact Rule.complete_guarded_or rfl
  · exact Rule.complete_guarded_or rfl

theorem customOr_complete (labels property : String) (default : Json) :
    (customOr labels property default).Complete :=
  Rule.complete_guarded_or rfl

theorem customSetting_complete (position : Position) (labels : String) (default : LabelAlign) :
    ∀ c ∈ customSetting position labels default, c.2.Complete :=
  List.forall_mem_singleton.2 (customOr_complete _ _ _)

/-- The channels of axis labels are complete. -/
theorem labelsEncode_complete (label : LabelAlign) (weight : FontWeight) (key : LabelKey)
    (position : Position) (labels : String) :
    let e := labelsEncode label weight key position labels
    ∀ c ∈ e.enter ++ e.update, c.2.Complete := by
  intro e c hc
  have hset := Channels.ofList_subset _ hc
  simp only [List.mem_append, List.mem_cons, List.not_mem_nil, or_false] at hset
  rcases hset with (rfl | rfl) | hsetting
  · exact Rule.complete_guarded_or rfl
  · exact customOr_complete _ _ _
  · exact customSetting_complete _ _ _ c hsetting

end Axis

/-- A rule of a built document, at whatever depth its mark stands, is total, and so are the rules of
axis labels. -/
theorem rules_total :
    (∀ (c : Chart) (d : Document), c.build = .ok d →
      ∀ (enclosing : Option Partition) (earlier : List Mark) (m : Mark),
        Placed d.marks enclosing earlier m → ∀ channel ∈ m.channels, channel.2.Total) ∧
    (∀ f : Option Axis.LabelFormat, (Rule.firstOf (Axis.format f)).Total) ∧
    ∀ (label : Axis.LabelAlign) (weight : Axis.FontWeight) (key : Axis.LabelKey)
      (position : Axis.Position) (labels : String),
      let e := Axis.labelsEncode label weight key position labels
      ∀ channel ∈ e.enter ++ e.update, channel.2.Total := by
  refine ⟨?_, fun f => (Axis.format_complete f).total, ?_⟩
  · intro c d h enclosing earlier m hm channel hchannel
    exact (Chart.complete_of_build h hm channel hchannel).total
  · intro label weight key position labels e channel hchannel
    exact (Axis.labelsEncode_complete _ _ _ _ _ channel hchannel).total

/-- The fill of a highlighted point, where points may be static and one of them may be picked. -/
theorem rules_total_of_highlight :
    let m : SeriesMark := { staticPoint := some "isKey", children := [.popover none none] }
    let c : Chart := { marks := [.line m] }
    let rule := Rule.firstOf m.highlightFill
    ∃ d, c.build = .ok d ∧ m.highlightPoint ∈ d.marks ∧
      ("fill", rule) ∈ m.highlightPoint.channels ∧ m.highlightFill.length = 3 ∧ rule.Total := by
  intro m c rule
  obtain ⟨d, hbuild⟩ : ∃ d, c.build = .ok d := ⟨_, rfl⟩
  have hmark : m.highlightPoint ∈ d.marks := by
    apply Chart.marks_subset_build hbuild (List.mem_singleton_self _)
    exact List.mem_of_getElem? (i := 4) rfl
  have hchannel : ("fill", rule) ∈ m.highlightPoint.channels :=
    List.mem_of_getElem? (i := 2) rfl
  obtain ⟨earlier, later, hsplit⟩ := List.append_of_mem hmark
  exact ⟨d, hbuild, hmark, hchannel, rfl,
    rules_total.1 c d hbuild none earlier _ (.top hsplit) _ hchannel⟩

end ChartCompiler
