import ChartCompiler.Build.Table
import ChartCompiler.Trendline.Sources
import Mathlib.Tactic.SplitIfs

/-! The transforms of the table. Fields are computed one after the other, each unless it is written
already, so a list of fields comes to appending the transforms of those that are kept. Appending the
same transforms to a table that holds more leaves out what it has. -/

namespace ChartCompiler

/-- How the fields of marks are computed: by one formula, with an aggregate right before it or
alone, or by nothing. -/
inductive DerivedField.Simple (f : DerivedField) : Prop
  | nothing (h : f.transforms = [])
  | formula (e : Expr) (h : f.transforms = [.formula e f.name])
  | aggregated (j : JoinAggregate) (e : Expr)
    (h : f.transforms = [.joinAggregate j, .formula e f.name])

namespace DerivedField

theorem simple_date (dimension : String) : (date dimension).Simple := .formula _ rfl

theorem simple_normalized (dimension : String) : (normalized dimension).Simple :=
  .aggregated _ _ rfl

theorem simple_seriesId (facets : List String) : (seriesId facets).Simple := by
  cases h : Expr.sum ((facets.map Expr.datum).intersperse (.string " | ")) with
  | none => exact .nothing (by rw [seriesId, h]; rfl)
  | some e => exact .formula e (by rw [seriesId, h]; rfl)

end DerivedField

theorem writes_append (ts us : List Transform) (n : String) :
    writes (ts ++ us) n = (writes ts n || writes us n) :=
  List.any_append

/-- A field's transforms write that field only. -/
theorem DerivedField.Simple.writes_eq {f : DerivedField} (h : f.Simple) {n : String}
    (hn : writes f.transforms n) : n = f.name := by
  cases h with
  | nothing h => simp [h, writes] at hn
  | formula e h =>
    rw [h] at hn
    simpa [writes, Transform.output?, eq_comm (a := n)] using hn
  | aggregated j e h =>
    rw [h] at hn
    simpa [writes, Transform.output?, eq_comm (a := n)] using hn

/-- What formulas and aggregates have nothing of, fields have nothing of. -/
theorem DerivedField.Simple.flatMap_transforms {α : Type} {g : Transform → List α} {f : DerivedField}
    (h : f.Simple) (hformula : ∀ e o, g (.formula e o) = [])
    (haggregate : ∀ j, g (.joinAggregate j) = []) : f.transforms.flatMap g = [] := by
  cases h with
  | nothing h => rw [h, List.flatMap_nil]
  | formula e h => rw [h, List.flatMap_singleton, hformula]
  | aggregated j e h =>
    rw [h, List.flatMap_cons, haggregate, List.nil_append, List.flatMap_singleton, hformula]

theorem DerivedField.Simple.formula_output {f : DerivedField} (h : f.Simple) {e : Expr} {o : String}
    (ho : .formula e o ∈ f.transforms) : o = f.name := by
  refine h.writes_eq (List.any_eq_true.2 ⟨_, ho, ?_⟩)
  simp [Transform.output?]

def keptFields (ts : List Transform) : List DerivedField → List DerivedField
  | [] => []
  | f :: fs =>
    if writes ts f.name then keptFields ts fs else f :: keptFields (ts ++ f.transforms) fs

theorem keptFields_subset (ts : List Transform) (fs : List DerivedField) :
    ∀ f ∈ keptFields ts fs, f ∈ fs := by
  induction fs generalizing ts with
  | nil => simp [keptFields]
  | cons f fs ih =>
    intro g hg
    rw [keptFields] at hg
    split_ifs at hg with h
    · exact List.mem_cons_of_mem _ (ih ts g hg)
    · rcases List.mem_cons.1 hg with rfl | hg
      · exact List.mem_cons_self
      · exact List.mem_cons_of_mem _ (ih _ g hg)

/-- A field that is asked for is written by then, or one of its name is kept. -/
theorem writes_or_mem_keptFields (ts : List Transform) {fs : List DerivedField}
    (hfs : ∀ f ∈ fs, f.Simple) :
    ∀ f ∈ fs, writes ts f.name ∨ ∃ g ∈ keptFields ts fs, g.name = f.name := by
  induction fs generalizing ts with
  | nil => exact nofun
  | cons g fs ih =>
    obtain ⟨hg, hfs⟩ := List.forall_mem_cons.1 hfs
    intro f hf
    rw [keptFields]
    split_ifs with hw
    · rcases List.mem_cons.1 hf with rfl | hf
      · exact .inl hw
      · exact ih ts hfs f hf
    · rcases List.mem_cons.1 hf with rfl | hf
      · exact .inr ⟨f, List.mem_cons_self, rfl⟩
      · rcases ih _ hfs f hf with hwritten | ⟨k, hk, hname⟩
        · rw [writes_append, Bool.or_eq_true] at hwritten
          rcases hwritten with hwritten | hwritten
          · exact .inl hwritten
          · exact .inr ⟨g, List.mem_cons_self, (hg.writes_eq hwritten).symm⟩
        · exact .inr ⟨k, List.mem_cons_of_mem _ hk, hname⟩

theorem foldl_addField (ts : List Transform) (fs : List DerivedField) :
    fs.foldl addField ts = ts ++ (keptFields ts fs).flatMap DerivedField.transforms := by
  induction fs generalizing ts with
  | nil => simp [keptFields]
  | cons f fs ih =>
    rw [List.foldl_cons, ih, addField, keptFields]
    split_ifs with h
    · rfl
    · rw [List.append_assoc, List.flatMap_cons]

def Covers (ts us : List Transform) : Prop := ∀ n, writes us n → writes ts n

theorem Covers.refl (ts : List Transform) : Covers ts ts := fun _ h => h

theorem Covers.trans {ts us vs : List Transform} (h : Covers ts us) (h' : Covers us vs) :
    Covers ts vs := fun n hn => h n (h' n hn)

theorem covers_append (ts us : List Transform) : Covers (ts ++ us) ts := fun n hn => by
  rw [writes_append, hn, Bool.true_or]

theorem covers_foldl (ts : List Transform) (fs : List DerivedField) :
    Covers (fs.foldl addField ts) ts := by
  rw [foldl_addField]
  exact covers_append ts _

theorem Covers.addField {ts us : List Transform} (h : Covers ts us) {f : DerivedField}
    (hf : f.Simple) : Covers (addField ts f) (us ++ f.transforms) := by
  intro n hn
  rw [writes_append, Bool.or_eq_true] at hn
  rw [ChartCompiler.addField]
  split_ifs with hw
  · rcases hn with hn | hn
    · exact h n hn
    · rwa [hf.writes_eq hn]
  · rw [writes_append, Bool.or_eq_true]
    exact hn.imp (h n) id

/-- Fields that one table has kept stand for all of them on a table that writes as much. -/
theorem foldl_keptFields {ts us : List Transform} (h : Covers ts us) {fs : List DerivedField}
    (hfs : ∀ f ∈ fs, f.Simple) : (keptFields us fs).foldl addField ts = fs.foldl addField ts := by
  induction fs generalizing ts us with
  | nil => rfl
  | cons f fs ih =>
    obtain ⟨hf, hfs⟩ := List.forall_mem_cons.1 hfs
    rw [keptFields, List.foldl_cons]
    split_ifs with hw
    · rw [addField, if_pos (h _ hw), ih h hfs]
    · rw [List.foldl_cons, ih (h.addField hf) hfs]

/-- Appends transforms to those that are there. A formula for a field that is written is left out,
and a join aggregate is left out exactly with the formula right behind it. -/
def appendNew (ts : List Transform) : List Transform → List Transform
  | [] => ts
  | .joinAggregate j :: .formula e o :: us =>
    appendNew (if writes ts o then ts else ts ++ [.joinAggregate j, .formula e o]) us
  | .formula e o :: us => appendNew (if writes ts o then ts else ts ++ [.formula e o]) us
  | u :: us => appendNew (ts ++ [u]) us

theorem appendNew_transforms {f : DerivedField} (h : f.Simple) (ts us : List Transform) :
    appendNew ts (f.transforms ++ us) = appendNew (addField ts f) us := by
  rw [addField]
  cases h with
  | nothing h => simp [h]
  | formula e h => rw [h, List.singleton_append, appendNew]
  | aggregated j e h => rw [h, List.cons_append, List.singleton_append, appendNew]

theorem appendNew_flatMap {fs : List DerivedField} (hfs : ∀ f ∈ fs, f.Simple)
    (ts us : List Transform) :
    appendNew ts (fs.flatMap DerivedField.transforms ++ us) =
      appendNew (fs.foldl addField ts) us := by
  induction fs generalizing ts with
  | nil => rfl
  | cons f fs ih =>
    obtain ⟨hf, hfs⟩ := List.forall_mem_cons.1 hfs
    rw [List.flatMap_cons, List.append_assoc, appendNew_transforms hf, ih hfs, List.foldl_cons]

/-- Appending what lists of fields come to on a table of their own is computing all the fields. -/
theorem appendNew_kept {us : List Transform} {fss : List (List DerivedField)}
    (hfs : ∀ fs ∈ fss, ∀ f ∈ fs, f.Simple) {ts : List Transform} (h : Covers ts us) :
    appendNew ts (fss.flatMap fun fs => (keptFields us fs).flatMap DerivedField.transforms) =
      fss.flatten.foldl addField ts := by
  induction fss generalizing ts with
  | nil => rfl
  | cons fs fss ih =>
    obtain ⟨hf, hfs⟩ := List.forall_mem_cons.1 hfs
    rw [List.flatMap_cons, appendNew_flatMap fun f hk => hf f (keptFields_subset us fs f hk),
      foldl_keptFields h hf, ih hfs ((covers_foldl ts fs).trans h), List.flatten_cons,
      List.foldl_append]

end ChartCompiler
