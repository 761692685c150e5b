import ChartCompiler.Document.Mark

/-! Looking up a mark by name. The marks of a forest stand in one list, each before the marks inside
it, and the mark that is found is the first of its name in that list. -/

namespace ChartCompiler.Mark

mutual

/-- A mark and all inside it, each mark before those inside it. -/
def preorder : Mark → List Mark
  | ⟨name, shape, input, clip, interactive, encode, marks, transforms⟩ =>
    ⟨name, shape, input, clip, interactive, encode, marks, transforms⟩ :: preorderIn marks

def preorderIn : List Mark → List Mark
  | [] => []
  | m :: ms => preorder m ++ preorderIn ms

end

theorem preorder_eq (m : Mark) : m.preorder = m :: preorderIn m.marks := by
  cases m
  rw [preorder]

theorem preorderIn_append (ms ns : List Mark) :
    preorderIn (ms ++ ns) = preorderIn ms ++ preorderIn ns := by
  induction ms with
  | nil => rfl
  | cons m ms ih => rw [List.cons_append, preorderIn, ih, preorderIn, List.append_assoc]

mutual

theorem find?_eq (n : String) (m : Mark) : find? n m = m.preorder.find? (·.name == n) := by
  obtain ⟨name, shape, input, clip, interactive, encode, marks, transforms⟩ := m
  rw [find?, preorder]
  by_cases h : name = n
  · rw [if_pos h, List.find?_cons_of_pos (by simp [h])]
  · rw [if_neg h, List.find?_cons_of_neg (by simp [h]), findIn?_eq n marks]

theorem findIn?_eq (n : String) (ms : List Mark) :
    findIn? n ms = (preorderIn ms).find? (·.name == n) := by
  cases ms with
  | nil => rfl
  | cons m ms =>
    rw [findIn?, preorderIn, List.find?_append, ← find?_eq n m, ← findIn?_eq n ms]
    cases find? n m <;> rfl

end

theorem findIn?_append (n : String) (ms ns : List Mark) :
    findIn? n (ms ++ ns) = (findIn? n ms).or (findIn? n ns) := by
  rw [findIn?_eq, preorderIn_append, List.find?_append, ← findIn?_eq, ← findIn?_eq]

def namesIn (ms : List Mark) : List String := (preorderIn ms).map name

@[simp] theorem namesIn_nil : namesIn [] = [] := rfl

@[simp] theorem namesIn_cons (m : Mark) (ms : List Mark) :
    namesIn (m :: ms) = m.name :: (namesIn m.marks ++ namesIn ms) := by
  rw [namesIn, preorderIn, preorder_eq, List.cons_append, List.map_cons, List.map_append]
  rfl

@[simp] theorem namesIn_append (ms ns : List Mark) :
    namesIn (ms ++ ns) = namesIn ms ++ namesIn ns := by
  rw [namesIn, preorderIn_append, List.map_append]
  rfl

theorem mem_namesIn_flatMap {β : Type} {n : String} {f : β → List Mark} {bs : List β} :
    n ∈ namesIn (bs.flatMap f) ↔ ∃ b ∈ bs, n ∈ namesIn (f b) := by
  induction bs with
  | nil => simp
  | cons b bs ih => simp [ih]

theorem exists_findIn?_iff {n : String} {ms : List Mark} :
    (∃ m, findIn? n ms = some m) ↔ n ∈ namesIn ms := by
  rw [← Option.isSome_iff_exists, findIn?_eq, List.find?_isSome, namesIn, List.mem_map]
  simp

end ChartCompiler.Mark
