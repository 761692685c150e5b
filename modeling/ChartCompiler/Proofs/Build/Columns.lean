import ChartCompiler.Proofs.Build.Days
import Mathlib.Data.List.Chain

/-! The columns of the table. Every transform of the table writes fields that no other one writes,
and the days of a dimension come right after the least value that they are counted from. Only the
days are guarded when they are asked for: the least value has a name of its own, which no other
column can have, so it is written exactly where the days are. -/

namespace ChartCompiler

def Transform.outputs : Transform → List String
  | .filter _ | .voronoi _ _ _ => []
  | .formula _ o | .identifier o => [o]
  | .joinAggregate t => t.outputs
  | .lookup t => t.values
  | .regression t => t.outputs.getD []
  | .window t => t.outputs

def Transform.least (dimension : String) : Transform :=
  .joinAggregate {
    groupby := none, fields := [dimension], ops := [.min], outputs := [dimension ++ "Min"] }

inductive DerivedField.Asked : DerivedField → Prop
  | date (dimension : String) : Asked (.date dimension)
  | seriesId (facets : List String) : Asked (.seriesId facets)
  | normalized (dimension : String) : Asked (.normalized dimension)

theorem min_inj {a b : String} : a ++ "Min" = b ++ "Min" ↔ a = b := String.append_left_inj _

theorem min_ne {a n : String} (hn : ¬"Min".toList <:+ n.toList) : n ≠ a ++ "Min" := by
  rintro rfl
  rw [String.toList_append] at hn
  exact hn (List.suffix_append _ _)

theorem normalized_ne_min (a b : String) : normalized a ≠ b ++ "Min" := by
  intro h
  have hlast := congrArg (fun s => s.toList.getLast?) h
  simp only [normalized, String.toList_append, List.getLast?_append] at hlast
  simp at hlast

def CountsDays (t u : Transform) : Prop :=
  ∀ dimension e, u = .formula e (normalized dimension) → t = .least dimension

/-- A table as it is built: the rows are told apart first, no field is written twice, a field that
is written without a guard is the least value of a dimension whose days are written, and all days
stand behind their least value. -/
structure TidyTable (ts : List Transform) : Prop where
  head : ts.head? = some (.identifier Names.markId)
  nodup : (ts.flatMap Transform.outputs).Nodup
  guarded : ∀ n ∈ ts.flatMap Transform.outputs,
    writes ts n ∨ ∃ dimension, n = dimension ++ "Min" ∧ writes ts (normalized dimension)
  not_least : ∀ dimension, writes ts (dimension ++ "Min") = false
  days : ts.IsChain CountsDays

namespace TidyTable

variable {ts : List Transform} {n : String}

theorem start : TidyTable [.identifier Names.markId] where
  head := rfl
  nodup := List.nodup_singleton _
  guarded := by simp [Transform.outputs, writes, Transform.output?]
  not_least dimension := by
    have hne : Names.markId ≠ dimension ++ "Min" := min_ne (by decide)
    simp [writes, Transform.output?, hne]
  days := List.isChain_singleton _

/-- A name that is no least value and that the guard lets pass is the name of a new column. -/
theorem not_mem_outputs (h : TidyTable ts) (hn : writes ts n = false)
    (hmin : ∀ dimension, n ≠ dimension ++ "Min") : n ∉ ts.flatMap Transform.outputs := by
  intro hmem
  rcases h.guarded n hmem with hw | ⟨dimension, hname, -⟩
  · simp [hn] at hw
  · exact hmin dimension hname

/-- The least value of a dimension is new where its days are. -/
theorem least_not_mem_outputs (h : TidyTable ts) {dimension : String}
    (hn : writes ts (normalized dimension) = false) :
    dimension ++ "Min" ∉ ts.flatMap Transform.outputs := by
  intro hmem
  rcases h.guarded _ hmem with hw | ⟨d, hname, hw⟩
  · simp [h.not_least] at hw
  · rw [← min_inj.1 hname, hn] at hw
    exact absurd hw (by decide)

/-- What is guarded stays so behind more transforms, which only have to guard what they write. -/
theorem guarded_append (h : TidyTable ts) {us : List Transform}
    (hus : ∀ n ∈ us.flatMap Transform.outputs,
      writes us n ∨ ∃ dimension, n = dimension ++ "Min" ∧ writes us (normalized dimension)) :
    ∀ n ∈ (ts ++ us).flatMap Transform.outputs, writes (ts ++ us) n ∨
      ∃ dimension, n = dimension ++ "Min" ∧ writes (ts ++ us) (normalized dimension) := by
  intro n hn
  rw [List.flatMap_append, List.mem_append] at hn
  simp only [writes_append, Bool.or_eq_true]
  rcases hn with hn | hn
  · exact (h.guarded n hn).imp .inl fun ⟨d, hname, hw⟩ => ⟨d, hname, .inl hw⟩
  · exact (hus n hn).imp .inr fun ⟨d, hname, hw⟩ => ⟨d, hname, .inr hw⟩

theorem formula (h : TidyTable ts) (e : Expr) (hn : writes ts n = false)
    (hmin : ∀ dimension, n ≠ dimension ++ "Min") (hdays : ∀ dimension, n ≠ normalized dimension) :
    TidyTable (ts ++ [.formula e n]) where
  head := by rw [List.head?_append, h.head, Option.some_or]
  nodup := by
    have houtputs : [Transform.formula e n].flatMap Transform.outputs = [n] := rfl
    rw [List.flatMap_append, houtputs, List.nodup_append']
    exact ⟨h.nodup, List.nodup_singleton n, by simpa using h.not_mem_outputs hn hmin⟩
  guarded := by
    apply h.guarded_append
    intro o ho
    obtain rfl : o = n := by simpa [Transform.outputs] using ho
    exact .inl (by simp [writes, Transform.output?])
  not_least dimension := by
    rw [writes_append, h.not_least, Bool.false_or]
    simp [writes, Transform.output?, hmin dimension]
  days := by
    refine List.isChain_append.2 ⟨h.days, List.isChain_singleton _, ?_⟩
    intro t _ u hu dimension e' he
    obtain rfl : .formula e n = u := by simpa using hu
    cases he
    exact absurd rfl (hdays dimension)

theorem normalized (h : TidyTable ts) {dimension : String} (e : Expr)
    (hn : writes ts (normalized dimension) = false) :
    TidyTable (ts ++ [.least dimension, .formula e (ChartCompiler.normalized dimension)]) where
  head := by rw [List.head?_append, h.head, Option.some_or]
  nodup := by
    have houtputs :
        [Transform.least dimension, .formula e (ChartCompiler.normalized dimension)].flatMap
          Transform.outputs = [dimension ++ "Min", ChartCompiler.normalized dimension] := rfl
    have hleast := h.least_not_mem_outputs hn
    have hdays := h.not_mem_outputs hn (normalized_ne_min dimension)
    rw [List.flatMap_append, houtputs, List.nodup_append']
    refine ⟨h.nodup, ?_, ?_⟩
    · simpa using (normalized_ne_min dimension dimension).symm
    · exact List.disjoint_cons_right.2 ⟨hleast, List.disjoint_singleton.2 hdays⟩
  guarded := by
    have hnew : writes [.least dimension, .formula e (ChartCompiler.normalized dimension)]
        (ChartCompiler.normalized dimension) := by simp [writes, Transform.output?]
    apply h.guarded_append
    intro o ho
    have ho : o = dimension ++ "Min" ∨ o = ChartCompiler.normalized dimension := by
      simpa [Transform.outputs, Transform.least] using ho
    rcases ho with rfl | rfl
    · exact .inr ⟨dimension, rfl, hnew⟩
    · exact .inl hnew
  not_least d := by
    rw [writes_append, h.not_least, Bool.false_or]
    simp [writes, Transform.output?, Transform.least, normalized_ne_min]
  days := by
    refine List.isChain_append.2 ⟨h.days, ?_, fun t _ u hu d e' he => ?_⟩
    · refine List.isChain_pair.2 fun d e' he => ?_
      rw [normalized_inj.1 (Transform.formula.inj he).2]
    · obtain rfl : Transform.least dimension = u := by simpa using hu
      cases he

/-- What asking for one more field keeps. -/
theorem addField (h : TidyTable ts) {f : DerivedField} (hf : f.Asked) :
    TidyTable (addField ts f) := by
  rw [ChartCompiler.addField]
  split_ifs with hw
  · exact h
  · have hw : writes ts f.name = false := by simpa using hw
    cases hf with
    | date dimension =>
      exact h.formula _ hw (fun _ => min_ne (by decide)) fun _ => (normalized_ne (by decide)).symm
    | seriesId facets =>
      cases hsum : Expr.sum ((facets.map Expr.datum).intersperse (.string " | ")) with
      | none => simpa [DerivedField.seriesId, hsum] using h
      | some e =>
        rw [DerivedField.seriesId, hsum]
        exact h.formula e hw (fun _ => min_ne (by decide)) fun _ => (normalized_ne (by decide)).symm
    | normalized dimension => exact h.normalized _ hw

theorem foldl (h : TidyTable ts) {fs : List DerivedField} (hfs : ∀ f ∈ fs, f.Asked) :
    TidyTable (fs.foldl ChartCompiler.addField ts) := by
  induction fs generalizing ts with
  | nil => exact h
  | cons f fs ih =>
    obtain ⟨hf, hfs⟩ := List.forall_mem_cons.1 hfs
    exact ih (h.addField hf) hfs

/-- What stands before days. -/
theorem least_of_split (h : TidyTable ts) {earlier later : List Transform} {dimension : String}
    {e : Expr} (hts : ts = earlier ++ .formula e (ChartCompiler.normalized dimension) :: later) :
    earlier.getLast? = some (.least dimension) := by
  have hne : earlier ≠ [] := by
    rintro rfl
    have hhead := h.head
    rw [hts] at hhead
    cases hhead
  have hlast := List.getLast?_eq_some_getLast hne
  have hdays := h.days
  rw [hts] at hdays
  rw [hlast, (List.isChain_append.1 hdays).2.2 _ hlast _ rfl dimension e rfl]

end TidyTable

theorem Call.fields_asked (c : Call) : ∀ f ∈ c.additions.fields, f.Asked :=
  c.forall_mem_fields .date .seriesId .normalized

/-- The table after calls, whether or not they failed: no field is written twice, the days of a
dimension stand right behind its least value, and further calls only append. -/
theorem Document.run_columns (scheme : ColorScheme) (width height : Option Number) (cs : List Call) :
    ∃ ts, Source.tableTransforms (run cs (start scheme width height)).sources = some ts ∧
      (ts.flatMap Transform.outputs).Nodup ∧
      (∀ earlier e dimension later, ts = earlier ++ .formula e (normalized dimension) :: later →
        earlier.getLast? = some (.least dimension)) ∧
      ∀ cs', ∃ ts', ts <+: ts' ∧
        Source.tableTransforms (run (cs ++ cs') (start scheme width height)).sources = some ts' := by
  have htable (cs : List Call) :
      Source.tableTransforms (run cs (start scheme width height)).sources =
        some ((cs.flatMap (·.additions.fields)).foldl addField [.identifier Names.markId]) := by
    rw [sources_run]
    rfl
  have htidy : TidyTable ((cs.flatMap (·.additions.fields)).foldl addField
      [.identifier Names.markId]) := by
    refine TidyTable.start.foldl fun f hf => ?_
    obtain ⟨c, -, hf⟩ := List.mem_flatMap.1 hf
    exact c.fields_asked f hf
  refine ⟨_, htable cs, htidy.nodup, fun _ _ _ _ => htidy.least_of_split, fun cs' => ?_⟩
  refine ⟨_, ?_, htable (cs ++ cs')⟩
  rw [List.flatMap_append, List.foldl_append]
  exact ⟨_, (foldl_addField _ _).symm⟩

end ChartCompiler
