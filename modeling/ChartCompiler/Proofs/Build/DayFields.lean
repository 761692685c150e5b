import ChartCompiler.Proofs.Build.OwnFields
import ChartCompiler.Proofs.Chart.Facets

/-! Dimensions that are counted in days one after the other, on any list of transforms. A dimension
is asked for by every trendline that is fitted over its days, but what is looked for is the field of
the days only. The names of these fields tell dimensions apart, so each dimension is counted once, in
the order in which they are first asked for. -/

namespace ChartCompiler

def SetsField (ts : List Transform) (field : String) : Prop :=
  (∃ e, .formula e field ∈ ts) ∨ .identifier field ∈ ts

theorem writes_iff {ts : List Transform} {field : String} : writes ts field ↔ SetsField ts field := by
  have houtput (t : Transform) :
      t.output? = some field ↔ (∃ e, t = .formula e field) ∨ t = .identifier field := by
    cases t <;> simp [Transform.output?]
  simp only [writes, List.any_eq_true, beq_iff_eq, houtput]
  constructor
  · rintro ⟨t, ht, ⟨e, rfl⟩ | rfl⟩
    · exact .inl ⟨e, ht⟩
    · exact .inr ht
  · rintro (⟨e, he⟩ | hid)
    · exact ⟨_, he, .inl ⟨e, rfl⟩⟩
    · exact ⟨_, hid, .inr rfl⟩

instance (ts : List Transform) (field : String) : Decidable (SetsField ts field) :=
  decidable_of_iff _ writes_iff

def daySteps (dimension : String) : List Transform :=
  [.joinAggregate {
    groupby := none, fields := [dimension], ops := [.min], outputs := [dimension ++ "Min"] },
   .formula ((.datum dimension - .datum (dimension ++ "Min") + .nat 86400000) / .nat 86400000)
    (dimension ++ "Normalized")]

def withDays (ts : List Transform) (dimensions : List String) : List Transform :=
  (dimensions.map DerivedField.normalized).foldl addField ts

theorem DerivedField.name_normalized (dimension : String) :
    (normalized dimension).name = ChartCompiler.normalized dimension := rfl

theorem DerivedField.transforms_normalized (dimension : String) :
    (normalized dimension).transforms = daySteps dimension := rfl

variable (ts : List Transform)

theorem withDays_concat (ds : List String) (d : String) :
    withDays ts (ds ++ [d]) = addField (withDays ts ds) (.normalized d) := by
  simp [withDays]

theorem writes_addField_normalized (d n : String) :
    writes (addField ts (.normalized d)) n ↔ writes ts n ∨ normalized d = n := by
  unfold addField
  split_ifs with hw
  · -- nothing is added, since the days are there
    refine ⟨.inl, ?_⟩
    rintro (h | rfl)
    · exact h
    · exact hw
  · rw [writes_append, Bool.or_eq_true, DerivedField.writes_normalized, beq_iff_eq]

/-- What is written after a run: what was written before, and the days of what was asked for. -/
theorem writes_withDays (ds : List String) (n : String) :
    writes (withDays ts ds) n ↔ writes ts n ∨ ∃ d ∈ ds, normalized d = n := by
  induction ds using List.reverseRecOn with
  | nil => simp [withDays]
  | append_singleton ds d ih =>
    rw [withDays_concat, writes_addField_normalized, ih]
    simp [or_assoc, or_and_right, exists_or]

theorem eraseDups_concat (ds : List String) (d : String) :
    (ds ++ [d]).eraseDups = ds.eraseDups ++ if d ∈ ds then [] else [d] := by
  rw [List.eraseDups_append]
  by_cases hd : d ∈ ds <;> simp [List.removeAll, hd, List.eraseDups_cons]

variable (ds : List String)

/-- The last dimension is added exactly if its days are new, to the list and to what was asked for
before. -/
theorem withDays_eq :
    withDays ts ds =
      ts ++ (ds.eraseDups.filter fun d => ¬SetsField ts (d ++ "Normalized")).flatMap daySteps := by
  induction ds using List.reverseRecOn with
  | nil => simp [withDays]
  | append_singleton ds d ih =>
    have hwritten : writes (withDays ts ds) (DerivedField.normalized d).name ↔
        SetsField ts (d ++ "Normalized") ∨ d ∈ ds := by
      rw [DerivedField.name_normalized, writes_withDays, writes_iff]
      simp [normalized]
    rw [withDays_concat, addField, eraseDups_concat, List.filter_append, List.flatMap_append,
      ← List.append_assoc, ← ih]
    split_ifs with hw hseen hseen
    · rw [List.filter_nil, List.flatMap_nil, List.append_nil]
    · have hset := (hwritten.1 hw).resolve_right hseen
      simp [hset]
    · exact absurd (hwritten.2 (.inr hseen)) hw
    · have hset : ¬SetsField ts (d ++ "Normalized") := fun h => hw (hwritten.2 (.inl h))
      simp [hset, DerivedField.transforms_normalized]

/-- Asking for days that are all there changes nothing. -/
theorem withDays_of_written {ts : List Transform} {ds : List String}
    (h : ∀ d ∈ ds, writes ts (normalized d)) : withDays ts ds = ts := by
  have hnothing : (ds.eraseDups.filter fun d => ¬SetsField ts (d ++ "Normalized")) = [] := by
    rw [List.filter_eq_nil_iff]
    intro d hd
    have hset : SetsField ts (d ++ "Normalized") := writes_iff.1 (h d (List.mem_eraseDups.1 hd))
    simpa using hset
  rw [withDays_eq, hnothing, List.flatMap_nil, List.append_nil]

theorem withDays_twice : withDays (withDays ts ds) ds = withDays ts ds := by
  apply withDays_of_written
  intro d hd
  rw [writes_withDays]
  exact .inr ⟨d, hd, rfl⟩

theorem eraseDups_twice : ds.eraseDups.eraseDups = ds.eraseDups := by
  rw [← Facets.extend_nil_eq_eraseDups, ← Facets.extend_nil_eq_eraseDups, Document.extend_extend]
  rfl

/-- Counting dimensions in days, one after the other, appends the steps of each of them once, in the
order in which they are first asked for, and leaves out those whose days are set by a formula or an
identifier. So asking for all of them again changes nothing, a repeated dimension adds nothing, and
what was there stays in front. -/
theorem withDays_counts_once :
    withDays ts ds =
        ts ++ (ds.eraseDups.filter fun d => ¬SetsField ts (d ++ "Normalized")).flatMap daySteps ∧
      withDays (withDays ts ds) ds = withDays ts ds ∧
      withDays ts ds.eraseDups = withDays ts ds ∧
      ts <+: withDays ts ds := by
  refine ⟨withDays_eq ts ds, withDays_twice ts ds, ?_, ?_⟩
  · rw [withDays_eq, eraseDups_twice, ← withDays_eq]
  · rw [withDays_eq]
    exact List.prefix_append _ _

end ChartCompiler
