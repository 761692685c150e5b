import ChartCompiler.Document.Basic
import ChartCompiler.Proofs.Document.Lookup
import Mathlib.Data.List.Lex
import Mathlib.Order.Bounds.Basic

/-! Which mark is found where a name is there more than once. The place of a mark is the way to it
from the outside in, its index among its siblings at each level, and places are ordered like words:
a mark stands before those inside it, and all inside a mark stands before its later siblings. What
is found stands at the least place of its name, at whatever depth that is. Marks that are appended
stand behind all others, so they are found only under a name that was not there. -/

namespace ChartCompiler

namespace Mark

/-- The mark at a place inside a mark, which itself stands at the empty place. -/
def at? (m : Mark) : List Nat → Option Mark
  | [] => some m
  | i :: p => m.marks[i]?.bind fun inner => inner.at? p

/-- The mark at a place in a forest, which begins with the index of its tree. -/
def atIn? (ms : List Mark) : List Nat → Option Mark
  | [] => none
  | i :: p => ms[i]?.bind fun m => m.at? p

def placesOf (n : String) (place? : List Nat → Option Mark) : Set (List Nat) :=
  {p | ∃ m, place? p = some m ∧ m.name = n}

/-- How a search for a name ends: with the mark at the least place of the name, or with nothing
where the name has no place. -/
inductive Search (n : String) (place? : List Nat → Option Mark) : Option Mark → Prop
  | found {p : List Nat} {m : Mark} (hp : IsLeast (placesOf n place?) p) (hm : place? p = some m) :
    Search n place? (some m)
  | absent (h : placesOf n place? = ∅) : Search n place? none

variable {n : String} {place? : List Nat → Option Mark} {m : Mark} {ms : List Mark}
  {result : Option Mark}

theorem at?_of_atIn? {p : List Nat} {inner : Mark} (h : atIn? m.marks p = some inner) :
    m.at? p = some inner := by
  cases p with
  | nil => cases h
  | cons i p => exact h

theorem placesOf_inside (h : m.name ≠ n) : placesOf n m.at? = placesOf n (atIn? m.marks) := by
  ext p
  cases p with
  | nil => simp [placesOf, at?, atIn?, h]
  | cons i p => rfl

theorem placesOf_nil : placesOf n (atIn? []) = ∅ := by
  apply Set.eq_empty_of_forall_notMem
  rintro (_ | ⟨i, p⟩) ⟨m, hm, -⟩ <;> cases hm

theorem nil_not_mem_placesOf : [] ∉ placesOf n (atIn? ms) := by
  rintro ⟨m, hm, -⟩
  cases hm

/-- A place in a forest is one in its first tree or one in the trees behind it. -/
theorem mem_placesOf_cons {q : List Nat} :
    q ∈ placesOf n (atIn? (m :: ms)) ↔
      (∃ p ∈ placesOf n m.at?, q = 0 :: p) ∨
        ∃ i p, i :: p ∈ placesOf n (atIn? ms) ∧ q = (i + 1) :: p := by
  constructor
  · intro hq
    match q, hq with
    | [], hq => exact absurd hq nil_not_mem_placesOf
    | 0 :: p, hq => exact .inl ⟨p, hq, rfl⟩
    | (i + 1) :: p, hq => exact .inr ⟨i, p, hq, rfl⟩
  · rintro (⟨p, hp, rfl⟩ | ⟨i, p, hp, rfl⟩)
    · exact hp
    · exact hp

theorem succ_cons_le {i j : Nat} {p q : List Nat} (h : i :: p ≤ j :: q) :
    (i + 1) :: p ≤ (j + 1) :: q := by
  rcases le_iff_lt_or_eq.1 h with hlt | heq
  · apply le_of_lt
    cases hlt with
    | rel hij => exact .rel (Nat.succ_lt_succ hij)
    | cons hpq => exact .cons hpq
  · cases heq
    exact le_rfl

namespace Search

theorem self (h : m.name = n) : Search n m.at? (some m) := by
  refine .found (p := []) ⟨⟨m, rfl, h⟩, ?_⟩ rfl
  intro q _
  exact not_lt.1 (List.not_lt_nil q)

theorem inside (h : m.name ≠ n) (hmarks : Search n (atIn? m.marks) result) :
    Search n m.at? result := by
  have hplaces := placesOf_inside h
  cases hmarks with
  | found hp hinner =>
    rw [← hplaces] at hp
    exact .found hp (at?_of_atIn? hinner)
  | absent hnone => exact .absent (hplaces.trans hnone)

/-- What the first tree has, it has before the trees behind it. -/
theorem first {inner : Mark} (h : Search n m.at? (some inner)) :
    Search n (atIn? (m :: ms)) (some inner) := by
  cases h with
  | @found p _ hp hinner =>
    refine .found (p := 0 :: p) ⟨mem_placesOf_cons.2 (.inl ⟨p, hp.1, rfl⟩), ?_⟩ hinner
    intro q hq
    rcases mem_placesOf_cons.1 hq with ⟨q, hfirst, rfl⟩ | ⟨j, q, -, rfl⟩
    · exact List.cons_le_cons 0 (hp.2 hfirst)
    · exact le_of_lt (.rel (Nat.succ_pos j))

theorem no_places (h : Search n place? none) : placesOf n place? = ∅ := by
  cases h with
  | absent hnone => exact hnone

/-- Behind a tree without the name, what is first stays first. -/
theorem later (hm : Search n m.at? none) (hms : Search n (atIn? ms) result) :
    Search n (atIn? (m :: ms)) result := by
  have hplaces {q : List Nat} : q ∈ placesOf n (atIn? (m :: ms)) ↔
      ∃ i p, i :: p ∈ placesOf n (atIn? ms) ∧ q = (i + 1) :: p := by
    rw [mem_placesOf_cons, hm.no_places]
    simp
  cases hms with
  | @found p _ hp hinner =>
    cases p with
    | nil => exact absurd hp.1 nil_not_mem_placesOf
    | cons i p =>
      refine .found (p := (i + 1) :: p) ⟨hplaces.2 ⟨i, p, hp.1, rfl⟩, ?_⟩ hinner
      intro q hq
      obtain ⟨j, q, hlater, rfl⟩ := hplaces.1 hq
      exact succ_cons_le (hp.2 hlater)
  | absent hnone =>
    refine .absent (Set.eq_empty_of_forall_notMem ?_)
    intro q hq
    obtain ⟨j, p, hp, -⟩ := hplaces.1 hq
    rw [hnone] at hp
    exact hp

theorem eq_some_iff (h : Search n place? result) :
    result = some m ↔ ∃ p, IsLeast (placesOf n place?) p ∧ place? p = some m := by
  constructor
  · rintro rfl
    cases h with
    | found hp hm => exact ⟨_, hp, hm⟩
  · rintro ⟨p, hp, hm⟩
    cases h with
    | found hq hr => rw [← hr, hq.unique hp, hm]
    | absent hnone =>
      rw [hnone] at hp
      exact absurd hp.1 (Set.notMem_empty p)

theorem eq_none_iff (h : Search n place? result) :
    result = none ↔ ∀ p m, place? p = some m → m.name ≠ n := by
  constructor
  · rintro rfl p m hm hname
    have hp : p ∈ placesOf n place? := ⟨m, hm, hname⟩
    rw [h.no_places] at hp
    exact hp
  · intro hnone
    cases h with
    | found hp _ =>
      obtain ⟨m, hm, hname⟩ := hp.1
      exact absurd hname (hnone _ m hm)
    | absent => rfl

end Search

mutual

theorem find?_search (n : String) (m : Mark) : Search n m.at? (find? n m) := by
  obtain ⟨name, shape, input, clip, interactive, encode, marks, transforms⟩ := m
  rw [find?]
  by_cases h : name = n
  · rw [if_pos h]
    exact .self h
  · rw [if_neg h]
    exact .inside h (findIn?_search n marks)

theorem findIn?_search (n : String) (ms : List Mark) : Search n (atIn? ms) (findIn? n ms) := by
  cases ms with
  | nil => exact .absent placesOf_nil
  | cons m ms =>
    have hm := find?_search n m
    rw [findIn?]
    cases hresult : find? n m with
    | some inner =>
      rw [hresult] at hm
      exact hm.first
    | none =>
      rw [hresult] at hm
      exact hm.later (findIn?_search n ms)

end

/-- What is found is the first mark of its name, along a traversal and by its place, and nothing is
found exactly if no place has a mark of the name. -/
structure FoundFirst (n : String) (traversal : List Mark) (place? : List Nat → Option Mark)
    (result : Option Mark) : Prop where
  traversed : result = traversal.find? (·.name == n)
  least (m : Mark) : result = some m ↔ ∃ p, IsLeast (placesOf n place?) p ∧ place? p = some m
  absent : result = none ↔ ∀ p m, place? p = some m → m.name ≠ n

theorem Search.foundFirst {traversal : List Mark} (h : Search n place? result)
    (htraversed : result = traversal.find? (·.name == n)) :
    FoundFirst n traversal place? result where
  traversed := htraversed
  least _ := h.eq_some_iff
  absent := h.eq_none_iff

end Mark

namespace Document

theorem mark?_appendMarks (d : Document) (later : List Mark) (n : String) :
    (d.appendMarks later).mark? n = (d.mark? n).or (Mark.findIn? n later) :=
  Mark.findIn?_append n d.marks later

/-- A lookup finds the first mark of its name in preorder, in a document as inside a mark, and marks
that are appended do not change what is found. -/
theorem mark?_foundFirst (d : Document) (n : String) :
    Mark.FoundFirst n (Mark.preorderIn d.marks) (Mark.atIn? d.marks) (d.mark? n) ∧
      (∀ m : Mark, Mark.FoundFirst n m.preorder m.at? (m.find? n)) ∧
      ∀ m later, d.mark? n = some m → (d.appendMarks later).mark? n = some m := by
  refine ⟨?_, fun m => ?_, fun m later hm => ?_⟩
  · exact (Mark.findIn?_search n d.marks).foundFirst (Mark.findIn?_eq n d.marks)
  · exact (Mark.find?_search n m).foundFirst (Mark.find?_eq n m)
  · rw [mark?_appendMarks, hm, Option.some_or]

/-- A mark two groups deep is found before one of its name that stands behind them, also when more
of the name are appended. -/
theorem mark?_foundFirst_of_repeated :
    let deep := Mark.drawn .line "curve" "part" {}
    let group := Mark.parted "curves" ⟨"part", "rows", []⟩ [deep]
    let shallow := Mark.drawn .rule "curve" "rows" {}
    let d : Document := { marks := [Mark.parted "years" ⟨"rows", "table", []⟩ [group], shallow] }
    Mark.atIn? d.marks [0, 0, 0] = some deep ∧ Mark.atIn? d.marks [1] = some shallow ∧
      d.mark? "curve" = some deep ∧ (d.appendMarks [shallow]).mark? "curve" = some deep := by
  intro deep group shallow d
  have hfound : d.mark? "curve" = some deep := rfl
  exact ⟨rfl, rfl, hfound, (mark?_foundFirst d "curve").2.2 deep [shallow] hfound⟩

end Document

end ChartCompiler
