import ChartCompiler.Build.Table
import Mathlib.Tactic.ByCases

/-! The table among any sources. It is the first source called so; where there is none, the base
sources that are missing are put in front one by one, and then it is the first source of all. Either
way the sources fall into those before the table, the table and those behind it, so it is located
again at the same place, and an edit reaches nothing else. -/

namespace ChartCompiler

section Places

variable {α : Type}

theorem insertIdx_append_length (a : α) (earlier later : List α) :
    (earlier ++ later).insertIdx earlier.length a = earlier ++ a :: later := by
  induction earlier with
  | nil => rfl
  | cons b earlier ih =>
    rw [List.cons_append, List.length_cons, List.insertIdx_succ_cons, ih, List.cons_append]

theorem modify_append_length (f : α → α) (a : α) (earlier later : List α) :
    (earlier ++ a :: later).modify earlier.length f = earlier ++ f a :: later := by
  induction earlier with
  | nil => rfl
  | cons b earlier ih =>
    rw [List.cons_append, List.length_cons, List.modify_succ_cons, ih, List.cons_append]

theorem findIdx?_append_cons {p : α → Bool} {a : α} {earlier : List α} (ha : p a)
    (hearlier : ∀ b ∈ earlier, p b = false) (later : List α) :
    (earlier ++ a :: later).findIdx? p = some earlier.length := by
  rw [List.findIdx?_append, List.findIdx?_eq_none_iff.2 hearlier, List.findIdx?_cons, if_pos ha]
  simp

/-- What is put in so far is as long as the next place. -/
theorem foldl_insertIdx (new done old : List α) :
    (new.zipIdx done.length).foldl (fun done p => done.insertIdx p.2 p.1) (done ++ old) =
      done ++ new ++ old := by
  induction new generalizing done with
  | nil => simp
  | cons a new ih =>
    have hrest := ih (done ++ [a])
    rw [List.length_append, List.length_singleton] at hrest
    have hfirst : (done ++ old).insertIdx done.length a = (done ++ [a]) ++ old := by
      rw [insertIdx_append_length, List.append_assoc, List.singleton_append]
    rw [List.zipIdx_cons, List.foldl_cons, hfirst, hrest]
    simp

end Places

namespace Source

def insertInFront (new ss : List Source) : List Source :=
  new.zipIdx.foldl (fun done p => done.insertIdx p.2 p.1) ss

/-- The sources with the table among them, and the place of the table. -/
def locateTable (ss : List Source) : List Source × Nat :=
  (ss.findIdx? (·.name == Names.table)).elim
    (insertInFront (base.filter fun b => ss.all (·.name != b.name)) ss, 0) fun i => (ss, i)

def editLocated (edit : Source → Source) (ss : List Source) : List Source :=
  (locateTable ss).1.modify (locateTable ss).2 edit

def mapTransforms (edit : List Transform → List Transform) (s : Source) : Source :=
  { s with transforms := edit s.transforms }

variable {ss earlier : List Source} {t : Source}

theorem insertInFront_eq (new ss : List Source) : insertInFront new ss = new ++ ss :=
  foldl_insertIdx new [] ss

theorem not_mem_names_iff {n : String} : n ∉ ss.map name ↔ ∀ s ∈ ss, (s.name == n) = false := by
  simp only [List.mem_map, not_exists, not_and, beq_eq_false_iff_ne]

theorem locateTable_of_not_mem (h : Names.table ∉ ss.map name) :
    locateTable ss = (base.filter (fun b => b.name ∉ ss.map name) ++ ss, 0) := by
  have hmissing (b : Source) : (ss.all fun s => s.name != b.name) = decide (b.name ∉ ss.map name) := by
    rw [Bool.eq_iff_iff, decide_eq_true_iff, not_mem_names_iff]
    simp
  rw [locateTable, List.findIdx?_eq_none_iff.2 (not_mem_names_iff.1 h), Option.elim_none,
    insertInFront_eq]
  simp only [hmissing]

theorem locateTable_append (ht : t.name = Names.table) (h : Names.table ∉ earlier.map name)
    (later : List Source) :
    locateTable (earlier ++ t :: later) = (earlier ++ t :: later, earlier.length) := by
  rw [locateTable, findIdx?_append_cons (by simpa using ht) (not_mem_names_iff.1 h), Option.elim_some]

/-- The sources before the table, the table and those behind it. -/
theorem exists_table (ss : List Source) :
    ∃ earlier t later, locateTable ss = (earlier ++ t :: later, earlier.length) ∧
      t.name = Names.table ∧ Names.table ∉ earlier.map name := by
  by_cases h : Names.table ∈ ss.map name
  · obtain ⟨before, behind, hsplit, hbefore⟩ := List.eq_append_cons_of_mem h
    obtain ⟨earlier, rest, rfl, rfl, hrest⟩ := List.map_eq_append_iff.1 hsplit
    obtain ⟨t, later, rfl, ht, -⟩ := List.map_eq_cons_iff.1 hrest
    exact ⟨earlier, t, later, locateTable_append ht hbefore later, ht, hbefore⟩
  · rw [locateTable_of_not_mem h, base, List.filter_cons_of_pos (by simpa using h)]
    exact ⟨[], _, _, rfl, rfl, List.not_mem_nil⟩

theorem withTable_eq (ss : List Source) : withTable ss = (locateTable ss).1 := by
  rw [withTable, locateTable, ← List.findIdx?_isSome]
  cases ss.findIdx? (·.name == Names.table) with
  | none =>
    rw [Option.elim_none, insertInFront_eq]
    rfl
  | some i => rfl

theorem locateTable_of_mem (h : Names.table ∈ ss.map name) : (locateTable ss).1 = ss := by
  have hany : ss.any (·.name == Names.table) := by simpa using h
  rw [← withTable_eq, withTable, if_pos hany]

/-- What was there stays as it is, in its order. -/
theorem suffix_locateTable (ss : List Source) : ss <:+ (locateTable ss).1 := by
  by_cases h : Names.table ∈ ss.map name
  · exact ⟨[], (locateTable_of_mem h).symm⟩
  · rw [locateTable_of_not_mem h]
    exact List.suffix_append _ _

theorem editFirst_append {n : String} (ht : t.name = n) (h : n ∉ earlier.map name)
    (edit : List Transform → List Transform) (later : List Source) :
    editFirst n edit (earlier ++ t :: later) = earlier ++ mapTransforms edit t :: later := by
  induction earlier with
  | nil => rw [List.nil_append, editFirst, if_pos ht, List.nil_append, mapTransforms]
  | cons s earlier ih =>
    rw [List.map_cons, List.mem_cons, not_or] at h
    rw [List.cons_append, editFirst, if_neg (Ne.symm h.1), ih h.2, List.cons_append]

theorem locateTable_twice (ss : List Source) : locateTable (locateTable ss).1 = locateTable ss := by
  obtain ⟨earlier, t, later, hlocated, ht, hearlier⟩ := exists_table ss
  rw [hlocated]
  exact locateTable_append ht hearlier later

theorem editTable_eq (edit : List Transform → List Transform) (ss : List Source) :
    editTable edit ss = editLocated (mapTransforms edit) ss := by
  obtain ⟨earlier, t, later, hlocated, ht, hearlier⟩ := exists_table ss
  rw [editTable, withTable_eq, editLocated, hlocated, editFirst_append ht hearlier,
    modify_append_length]

/-- Locating the table leaves sources that have one as they are and finds the first of them; to
others it puts the missing base sources in front, the table first of all. What was there stays as it
is and in its order, locating the table again finds it in the same place, and an edit changes the
table alone. The table is there, and is edited, as the compiler has it. -/
theorem locateTable_repairs (ss : List Source) :
    (Names.table ∈ ss.map name → (locateTable ss).1 = ss) ∧
      (Names.table ∉ ss.map name →
        locateTable ss = (base.filter (fun b => b.name ∉ ss.map name) ++ ss, 0)) ∧
      (∃ earlier t later, locateTable ss = (earlier ++ t :: later, earlier.length) ∧
        t.name = Names.table ∧ Names.table ∉ earlier.map name ∧
        ∀ edit, editLocated edit ss = earlier ++ edit t :: later) ∧
      locateTable (locateTable ss).1 = locateTable ss ∧
      ss <:+ (locateTable ss).1 ∧
      withTable ss = (locateTable ss).1 ∧
      ∀ edit, editTable edit ss = editLocated (mapTransforms edit) ss := by
  refine ⟨locateTable_of_mem, locateTable_of_not_mem, ?_, locateTable_twice ss,
    suffix_locateTable ss, withTable_eq ss, fun edit => editTable_eq edit ss⟩
  obtain ⟨earlier, t, later, hlocated, ht, hearlier⟩ := exists_table ss
  refine ⟨earlier, t, later, hlocated, ht, hearlier, fun edit => ?_⟩
  rw [editLocated, hlocated, modify_append_length]

/-- Where only the filtered table is there, the table alone is put in front. -/
theorem locateTable_repairs_of_filtered :
    let ss := [derive "other" "rows" [], derive Names.filteredTable "other" []]
    let found := ss ++ [derive Names.table "other" []]
    Names.table ∉ ss.map name ∧ locateTable ss = (base.take 1 ++ ss, 0) ∧
      Names.table ∈ found.map name ∧ (locateTable found).1 = found := by
  intro ss found
  have hmissing : Names.table ∉ ss.map name := by decide
  have hfound : Names.table ∈ found.map name := by decide
  exact ⟨hmissing, (locateTable_repairs ss).2.1 hmissing, hfound,
    (locateTable_repairs found).1 hfound⟩

end Source

end ChartCompiler
