import ChartCompiler.Proofs.Input.Tags
import ChartCompiler.Proofs.Input.Texts
import Mathlib.Logic.Relation

/-! Changes that say nothing new leave the document as it is. One change of a value makes no
difference to the reader of its part, whatever the part; by induction on where the change is made,
neither does it to the reader of the chart; and then any number of changes makes none to the
document. -/

namespace ChartCompiler.Input

/-! ### The parts -/

section Facet

variable {α : Type} (r : Reader α) {ms : List (String × Json)} {j j' : Json}

theorem encoding_single (h : withName "value" ms = [("value", j)]) :
    encoding r (.object ms) = (r j).map .fixed := by
  rw [withName] at h
  simp only [encoding, h]

theorem encoding_error (h : (withName "value" ms).length ≠ 1) :
    encoding r (.object ms) = .error .wrongShape := by
  rw [withName] at h
  simp only [encoding]
  split
  · next heq => simp [heq] at h
  · rfl

/-- A pair of fields holds nothing but texts. -/
theorem encoding_array_error {js : List Json} (hj : j ∈ js) (htext : ∀ s, j ≠ .text s) :
    encoding r (.array js) = .error .wrongShape := by
  unfold encoding
  split
  · next heq => cases heq
  · next f g heq =>
    cases heq
    simp only [List.mem_cons, List.not_mem_nil, or_false] at hj
    exact (hj.elim (htext f) (htext g)).elim
  · next heq => cases heq
  · rfl

theorem Change.plain_not_text (h : Change .plain j j') (s : String) :
    j ≠ .text s ∧ j' ≠ .text s := by
  cases h <;> simp

theorem facet_sense (h : Record Sensed .facet j j') : Sense .facet j j' := by
  intro α r hr
  cases h with
  | @object ms ms' h =>
    cases h "value" List.mem_cons_self with
    | repeated hm hm' => rw [encoding_error r (by omega), encoding_error r (by omega)]
    | single o o' ho ho' hP =>
      cases hP with
      | same o =>
        cases o with
        | none => rw [encoding_error r (by simp [ho]), encoding_error r (by simp [ho'])]
        | some j => rw [encoding_single r ho, encoding_single r ho']
      | changed hQ => rw [encoding_single r ho, encoding_single r ho', hr _ _ hQ.1]
      | added hd => cases hd
  | @array before after i i' h =>
    have hitem : ∀ j k, Part.facet.item j k = .plain := by
      rintro j (_ | k) <;> rfl
    have hplain : Change .plain i i' := hitem _ _ ▸ h.1
    rw [encoding_array_error r (by simp) fun s => (hplain.plain_not_text s).1,
      encoding_array_error r (j := i') (by simp) fun s => (hplain.plain_not_text s).2]

end Facet

/-- A change seen field by field makes no difference to the reader of the part. -/
theorem sense_of_record {p : Part} {j j' : Json} (h : Record Sensed p j j') : Sense p j j' := by
  cases p with
  | chart =>
    cases h with
    | object h => exact chart_alike (fields_object h)
    | array h => exact chart_alike (fields_items (by decide) h)
  | marks =>
    cases h with
    | object => exact .error _
    | array h => exact list_alike h.2 _ _
  | mark =>
    refine (tagged_alike mark_tagged h).bind ?_
    rintro ⟨kind, content⟩ ⟨kind', content'⟩ ⟨hkind, hcontent⟩
    dsimp only at hkind hcontent
    subst hkind
    cases kind with
    | line => exact (line_alike hcontent).map fun m m' hm => congrArg ChartMark.line hm
    | bar => exact (bar_alike hcontent).map fun b b' hb => congrArg ChartMark.bar hb
  | facet => exact facet_sense h
  | children =>
    rw [Sense, children_eq_list, children_eq_list]
    cases h with
    | object => exact .error _
    | array h => exact list_alike h.2 _ _
  | child =>
    rw [Sense, child_eq, child_eq]
    refine (tagged_alike child_tagged h).bind ?_
    rintro ⟨kind, content⟩ ⟨kind', content'⟩ ⟨hkind, hcontent⟩
    dsimp only at hkind hcontent
    subst hkind
    cases kind with
    | tooltip => exact (tooltip_alike hcontent).mono fun c c' hc => congrArg Child.settled hc
    | popover => exact (popover_alike hcontent).mono fun c c' hc => congrArg Child.settled hc
    | metricRange =>
      exact (metricRange_alike hcontent).mono fun c c' hc => congrArg Child.settled hc
    | trendline => exact trendlineChild_alike hcontent
  | plain => trivial

/-- The induction is on the place of the change. -/
theorem Change.sense {p : Part} {j j' : Json} (h : Change p j j') : Sense p j j' := by
  induction h with
  | reorder h => exact sense_of_record (.object fun n _ => atName_reorder h n)
  | @unknown p ms name j hopen h =>
    refine sense_of_record (.object fun n hn => atName_added ?_)
    rintro rfl
    exact absurd hn h
  | default hmissing h =>
    exact sense_of_record (.object fun n _ => atName_added fun _ => ⟨hmissing, h⟩)
  | member h ih => exact sense_of_record (.object fun n _ => atName_member ⟨h, ih⟩ n)
  | item h ih => exact sense_of_record (.array ⟨h, ih⟩)

/-! ### The document -/

/-- What reading a description comes to: the document of its chart, or the error in building it;
nothing if the description is refused. -/
def outcome (c : Except Refusal Chart) : Option (Except BuildError Document) :=
  c.toOption.map Chart.build

theorem Change.outcome_eq {j j' : Json} (h : Change .chart j j') :
    outcome (chart j) = outcome (chart j') := by
  have hsense : Alike (EqUnder Chart.settled) (chart j) (chart j') := h.sense
  generalize chart j = x, chart j' = x' at hsense
  cases hsense with
  | error e => rfl
  | @ok c c' h =>
    have hbuild : c.build = c'.build := by
      rw [← Chart.build_settled, h, Chart.build_settled]
    exact congrArg some hbuild

/-- Descriptions that can be changed into each other come to the same. The changes may be any
number, made anywhere and also taken back: members in another order, members that nobody knows, and
fields that hold their default. This is so for values, and for texts that have such values. -/
theorem outcome_eq_of_changes {j j' : Json} (h : Relation.EqvGen (Change .chart) j j') :
    outcome (chart j) = outcome (chart j') ∧
      ∀ t t', Json.parse t = .ok j → Json.parse t' = .ok j' →
        outcome (chartOfText t) = outcome (chartOfText t') := by
  have hvalues : outcome (chart j) = outcome (chart j') := by
    induction h with
    | rel _ _ h => exact h.outcome_eq
    | refl => rfl
    | symm _ _ _ ih => exact ih.symm
    | trans _ _ _ _ _ ih ih' => exact ih.trans ih'
  refine ⟨hvalues, fun t t' ht ht' => ?_⟩
  simpa only [outcome, chartOfText_toOption ht, chartOfText_toOption ht'] using hvalues

open Json in
set_option maxRecDepth 4000 in
/-- A line with an empty list of children, in a chart with a note, is a line. -/
theorem outcome_eq_of_noted_line :
    outcome (chartOfText "\x7b\"marks\":[\x7b\"type\":\"Line\"\x7d]\x7d") =
      outcome (chartOfText
        "\x7b\"note\":[],\"marks\":[\x7b\"children\":[],\"type\":\"Line\"\x7d]\x7d") := by
  have hchildren : Change .mark (.object [("type", .text "Line")])
      (.object [("children", .array []), ("type", .text "Line")]) :=
    .default (by decide)
      (List.mem_of_getElem? (show (Kind.defaults MarkKind.line)[10]? = some _ from rfl))
  have hmarks : Change .chart (.object [("marks", .array [.object [("type", .text "Line")]])])
      (.object [("marks", .array [.object [("children", .array []), ("type", .text "Line")]])]) :=
    @Change.member .chart [] [] "marks" _ _ (@Change.item .marks [] [] _ _ hchildren)
  have hnote : Change .chart
      (.object [("marks", .array [.object [("children", .array []), ("type", .text "Line")]])])
      (.object [("note", .array []),
        ("marks", .array [.object [("children", .array []), ("type", .text "Line")]])]) :=
    .unknown rfl (by decide)
  have htexts := (outcome_eq_of_changes (.trans _ _ _ (.rel _ _ hmarks) (.rel _ _ hnote))).2
  refine htexts _ _ ?_ ?_
  all_goals
    simp [Json.parse, Draft.scan, scanValue, scanMembers, scanItems, scanText, pieces, joinPieces,
      skipBlanks, isBlank, maxDepth, Draft.read, Draft.readMembers, Draft.readItems,
      Draft.readName, Ending.close, endsHere]
    rfl

end ChartCompiler.Input
