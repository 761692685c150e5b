import ChartCompiler.Proofs.Document.Extend
import Mathlib.Data.List.Induction
import Mathlib.Data.List.Nodup

/-! The laws of extending a document by named items. An item is appended exactly if its name is new,
to the document and among the items before it, so items are looked up as if the lists stood behind
each other. Scales and signals are extended by the same laws. -/

namespace ChartCompiler.Document

variable {α : Type} (name : α → String)

/-- The items, in order, whose name stands neither in a list nor earlier among themselves. -/
def newlyNamed (old new : List α) : List α :=
  (new.zipIdx.filter fun p => name p.1 ∉ (old ++ new.take p.2).map name).map Prod.fst

/-- The last item is decided by all before it, which it does not change. -/
theorem newlyNamed_concat (old new : List α) (a : α) :
    newlyNamed name old (new ++ [a]) =
      newlyNamed name old new ++ if name a ∈ (old ++ new).map name then [] else [a] := by
  have hbefore : ∀ p ∈ new.zipIdx, (new ++ [a]).take p.2 = new.take p.2 := by
    rintro ⟨b, i⟩ hb
    have hi := (List.mem_zipIdx hb).2.1
    exact List.take_append_of_le_length (by omega)
  have hlast : (new ++ [a]).take new.length = new := List.take_left
  unfold newlyNamed
  rw [List.zipIdx_append, List.filter_append, List.map_append]
  congr 1
  · congr 1
    apply List.filter_congr
    intro p hp
    rw [hbefore p hp]
  · rw [List.zipIdx_singleton, Nat.zero_add, List.filter_singleton, hlast]
    split_ifs <;> simp_all

/-- The loop compares an item with the list that it is growing, the law with all that was read. -/
theorem extend_eq_append (old new : List α) :
    extend name old new = old ++ newlyNamed name old new := by
  induction new using List.reverseRecOn with
  | nil => simp [extend, newlyNamed]
  | append_singleton new a ih =>
    have htaken : (extend name old new).any (name · == name a) ↔
        name a ∈ (old ++ new).map name := by
      simp [any_extend]
    rw [extend_append, newlyNamed_concat, ← List.append_assoc, ← ih]
    by_cases ha : name a ∈ (old ++ new).map name
    · rw [if_pos ha, extend_cons_taken (htaken.2 ha), List.append_nil]
      rfl
    · rw [if_neg ha, extend_cons_fresh (by simpa using mt htaken.1 ha)]
      rfl

variable {name}

theorem find?_extend (old new : List α) (n : String) :
    (extend name old new).find? (name · == n) =
      (old.find? (name · == n)).or (new.find? (name · == n)) := by
  induction new generalizing old with
  | nil => exact (Option.or_none).symm
  | cons a new ih =>
    by_cases htaken : old.any (name · == name a)
    · rw [extend_cons_taken htaken, ih]
      by_cases ha : name a = n
      · -- the name was there before
        subst ha
        obtain ⟨b, hb⟩ := Option.isSome_iff_exists.1 (List.find?_isSome.2 (List.any_eq_true.1 htaken))
        rw [hb, Option.some_or, Option.some_or]
      · rw [List.find?_cons_of_neg (by simpa using ha)]
    · rw [extend_cons_fresh (by simpa using htaken), ih, List.find?_append, Option.or_assoc,
        ← List.find?_append, List.singleton_append]

theorem extend_twice (old new : List α) :
    extend name (extend name old new) new = extend name old new := by
  apply extend_taken
  intro a ha
  rw [any_extend, Bool.or_eq_true]
  exact .inr (List.any_eq_true.2 ⟨a, ha, beq_self_eq_true _⟩)

theorem nodup_extend {old : List α} (h : (old.map name).Nodup) (new : List α) :
    ((extend name old new).map name).Nodup := by
  induction new generalizing old with
  | nil => exact h
  | cons a new ih =>
    by_cases htaken : old.any (name · == name a)
    · rw [extend_cons_taken htaken]
      exact ih h
    · rw [extend_cons_fresh (by simpa using htaken)]
      apply ih
      rw [List.map_append, List.map_singleton, List.nodup_append]
      refine ⟨h, List.nodup_singleton _, ?_⟩
      rintro n hn _ ha rfl
      rw [List.mem_singleton.1 ha] at hn
      exact htaken (by simpa using hn)

variable (name)

/-- The laws of extending a document by items of one kind, given how these are read off a document,
replaced in it and looked up by name. -/
structure FirstWins (items : Document → List α) (replace : Document → List α → Document)
    (lookup : Document → String → Option α) (extended : Document → List α → Document)
    (d : Document) : Prop where
  /-- The items that were there stay as they are, and nothing else of the document changes. -/
  appends (new : List α) : extended d new = replace d (items d ++ newlyNamed name (items d) new)
  finds (new : List α) (n : String) :
    lookup (extended d new) n = (lookup d n).or (new.find? (name · == n))
  append (as bs : List α) : extended (extended d as) bs = extended d (as ++ bs)
  twice (new : List α) : extended (extended d new) new = extended d new
  distinct (h : ((items d).map name).Nodup) (new : List α) :
    ((items (extended d new)).map name).Nodup

variable {name}

theorem FirstWins.of_extend {items : Document → List α} {replace : Document → List α → Document}
    {lookup : Document → String → Option α} {extended : Document → List α → Document}
    (hextended : ∀ d new, extended d new = replace d (extend name (items d) new))
    (hitems : ∀ d as, items (replace d as) = as)
    (hreplace : ∀ d as bs, replace (replace d as) bs = replace d bs)
    (hlookup : ∀ d n, lookup d n = (items d).find? (name · == n)) (d : Document) :
    FirstWins name items replace lookup extended d where
  appends new := by rw [hextended, extend_eq_append]
  finds new n := by rw [hlookup, hlookup, hextended, hitems, find?_extend]
  append as bs := by
    rw [hextended d as, hextended, hextended, hitems, hreplace, extend_append]
  twice new := by
    rw [hextended d new, hextended, hitems, hreplace, extend_twice]
  distinct h new := by
    rw [hextended, hitems]
    exact nodup_extend h new

/-- Scales and signals are extended by the same laws. -/
theorem extensions_firstWins (d : Document) :
    FirstWins Scale.name scales (fun d ss => { d with scales := ss }) scale? extendScales d ∧
      FirstWins Signal.name signals (fun d ss => { d with signals := ss }) signal? extendSignals d := by
  constructor
  · apply FirstWins.of_extend <;> intros <;> rfl
  · apply FirstWins.of_extend <;> intros <;> rfl

example : newlyNamed Prod.fst [("yLinear", 1)] [("yLinear", 2), ("xTime", 3), ("xTime", 4)] =
    [("xTime", 3)] := by decide

end ChartCompiler.Document
