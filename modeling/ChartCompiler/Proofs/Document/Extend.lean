import ChartCompiler.Document.Basic

/-! Scales and signals are extended one mark after the other, and the first of a name stays. What
comes out does not depend on how the items were split into extensions: it is the first item of each
name among all of them. -/

namespace ChartCompiler.Document

variable {α : Type} (name : α → String)

def firstPerName : List α → List α
  | [] => []
  | a :: as => a :: (firstPerName as).filter (name · != name a)

variable {name}

theorem extend_append (old as bs : List α) :
    extend name old (as ++ bs) = extend name (extend name old as) bs :=
  List.foldl_append

theorem extend_cons_taken {old : List α} {a : α} (h : old.any (name · == name a)) (as : List α) :
    extend name old (a :: as) = extend name old as := by
  rw [extend, List.foldl_cons, if_pos h, extend]

theorem extend_cons_fresh {old : List α} {a : α} (h : old.any (name · == name a) = false)
    (as : List α) : extend name old (a :: as) = extend name (old ++ [a]) as := by
  rw [extend, List.foldl_cons, if_neg (by simp [h]), extend]

theorem extend_eq (old new : List α) :
    extend name old new =
      old ++ (firstPerName name new).filter fun a => !old.any (name · == name a) := by
  induction new generalizing old with
  | nil => simp [extend, firstPerName]
  | cons a as ih =>
    by_cases h : old.any (name · == name a)
    · rw [extend_cons_taken h, ih, firstPerName, List.filter_cons_of_neg (by simp [h]),
        List.filter_filter]
      congr 1
      refine List.filter_congr fun b _ => ?_
      -- what is not taken differs from `a`, which is
      obtain ⟨c, hc, hca⟩ := List.any_eq_true.1 h
      have hca : name c = name a := by simpa using hca
      by_cases hb : old.any (name · == name b)
      · simp [hb]
      · have : name b ≠ name a := fun hba => hb (List.any_eq_true.2 ⟨c, hc, by simp [hca, hba]⟩)
        simp [this]
    · have h : old.any (name · == name a) = false := by simpa using h
      rw [extend_cons_fresh h, ih, firstPerName, List.filter_cons_of_pos (by simp [h]),
        List.filter_filter, List.append_assoc, List.singleton_append]
      congr 2
      refine List.filter_congr fun b _ => ?_
      simp only [List.any_append, List.any_cons, List.any_nil, Bool.or_false, Bool.not_or, bne]
      rw [Bool.beq_comm (a := name a)]

theorem extend_nil (new : List α) : extend name [] new = firstPerName name new := by
  simp [extend_eq]

theorem prefix_extend (old new : List α) : old <+: extend name old new := by
  rw [extend_eq]
  exact List.prefix_append _ _

theorem any_extend (old new : List α) (n : String) :
    (extend name old new).any (name · == n) =
      (old.any (name · == n) || new.any (name · == n)) := by
  induction new generalizing old with
  | nil => simp [extend]
  | cons a as ih =>
    by_cases h : old.any (name · == name a)
    · rw [extend_cons_taken h, ih, List.any_cons]
      by_cases ha : name a = n
      · subst ha
        simp [h]
      · rw [beq_false_of_ne ha, Bool.false_or]
    · have h : old.any (name · == name a) = false := by simpa using h
      rw [extend_cons_fresh h, ih]
      simp [Bool.or_assoc]

theorem mem_map_extend {old new : List α} {n : String} :
    n ∈ (extend name old new).map name ↔ n ∈ old.map name ∨ n ∈ new.map name := by
  have hany (as : List α) : n ∈ as.map name ↔ as.any (name · == n) := by simp
  rw [hany, hany, hany, any_extend, Bool.or_eq_true]

theorem mem_extend {old new : List α} : ∀ a ∈ extend name old new, a ∈ old ∨ a ∈ new := by
  induction new generalizing old with
  | nil => exact fun a ha => .inl ha
  | cons b bs ih =>
    intro a ha
    by_cases h : old.any (name · == name b)
    · rw [extend_cons_taken h] at ha
      exact (ih a ha).imp_right (List.mem_cons_of_mem b)
    · rw [extend_cons_fresh (by simpa using h)] at ha
      rcases ih a ha with ha | ha
      · rcases List.mem_append.1 ha with ha | ha
        · exact .inl ha
        · rw [List.mem_singleton.1 ha]
          exact .inr List.mem_cons_self
      · exact .inr (List.mem_cons_of_mem b ha)

theorem extend_taken {old new : List α} (h : ∀ a ∈ new, old.any (name · == name a)) :
    extend name old new = old := by
  induction new with
  | nil => rfl
  | cons a as ih =>
    rw [extend_cons_taken (h a List.mem_cons_self), ih fun b hb => h b (List.mem_cons_of_mem _ hb)]

/-- Extending by an extended list is extending twice. -/
theorem extend_extend (old mid new : List α) :
    extend name old (extend name mid new) = extend name (extend name old mid) new := by
  induction new generalizing mid with
  | nil => rfl
  | cons a as ih =>
    by_cases h : mid.any (name · == name a)
    · rw [extend_cons_taken h, ih, extend_cons_taken]
      rw [any_extend, h, Bool.or_true]
    · rw [extend_cons_fresh (by simpa using h), ih, extend_append]
      -- one item: both sides ask whether its name is taken
      by_cases ha : (extend name old mid).any (name · == name a)
      · rw [extend_cons_taken ha, extend_cons_taken ha]
        rfl
      · have ha : (extend name old mid).any (name · == name a) = false := by simpa using ha
        rw [extend_cons_fresh ha, extend_cons_fresh ha]
        rfl

/-- Parts that were extended apart, each from the same beginning, extend a list as their items do.
-/
theorem extend_flatMap {β : Type} {start old : List α} (f : β → List α) (bs : List β)
    (h : ∀ a ∈ start, old.any (name · == name a)) :
    extend name old (bs.flatMap fun b => extend name start (f b)) =
      extend name old (bs.flatMap f) := by
  induction bs generalizing old with
  | nil => rfl
  | cons b bs ih =>
    rw [List.flatMap_cons, List.flatMap_cons, extend_append, extend_append, extend_extend,
      extend_taken h]
    exact ih fun a ha => by rw [any_extend, h a ha, Bool.true_or]

end ChartCompiler.Document
