import ChartCompiler.Document.Mark

/-! Where marks stand and what they draw from. A mark draws from a source, from the rows of the
group that it stands in, or from the items of a mark before it in the same list. -/

namespace ChartCompiler

def Mark.partition? (m : Mark) : Option Partition := m.input.bind MarkInput.partition

/-- A mark stands in a forest of marks at some depth, with the parts of the group around it and the
marks before it in its list. -/
inductive Placed (forest : List Mark) : Option Partition → List Mark → Mark → Prop
  | top {earlier : List Mark} {m : Mark} {later : List Mark} (h : forest = earlier ++ m :: later) :
    Placed forest none earlier m
  | inside {outer : Option Partition} {before : List Mark} {group : Mark} {earlier : List Mark}
    {m : Mark} {later : List Mark} (hg : Placed forest outer before group)
    (h : group.marks = earlier ++ m :: later) : Placed forest group.partition? earlier m

/-- Everything an input names is there: sources, the parts of the group around the mark, or a mark
before it. -/
structure MarkInput.Found (known : List String) (enclosing : Option Partition)
    (earlier : List String) (i : MarkInput) : Prop where
  partition : ∀ p, i.partition = some p → p.source ∈ known
  source : ∀ n, i.source = some n →
    n ∈ known ∨ enclosing.map Partition.name = some n ∨ n ∈ earlier

namespace Mark

mutual

def Drawable (known : List String) (enclosing : Option Partition) (earlier : List String) :
    Mark → Prop
  | ⟨_, _, input, _, _, _, marks, _⟩ =>
    (∀ i, input = some i → i.Found known enclosing earlier) ∧
      AllDrawable known (input.bind MarkInput.partition) [] marks

def AllDrawable (known : List String) (enclosing : Option Partition) (earlier : List String) :
    List Mark → Prop
  | [] => True
  | m :: ms =>
    Drawable known enclosing earlier m ∧ AllDrawable known enclosing (earlier ++ [m.name]) ms

end

variable {known : List String} {enclosing : Option Partition} {earlier : List String}

theorem drawable_iff (m : Mark) :
    m.Drawable known enclosing earlier ↔
      (∀ i, m.input = some i → i.Found known enclosing earlier) ∧
        AllDrawable known m.partition? [] m.marks := by
  cases m
  rw [Drawable, partition?]

theorem allDrawable_append (ms ns : List Mark) :
    AllDrawable known enclosing earlier (ms ++ ns) ↔
      AllDrawable known enclosing earlier ms ∧
        AllDrawable known enclosing (earlier ++ ms.map name) ns := by
  induction ms generalizing earlier with
  | nil => simp [AllDrawable]
  | cons m ms ih => simp [AllDrawable, ih, and_assoc]

theorem allDrawable_flatMap {β : Type} {f : β → List Mark} {bs : List β}
    (h : ∀ b ∈ bs, ∀ earlier, AllDrawable known enclosing earlier (f b)) :
    AllDrawable known enclosing earlier (bs.flatMap f) := by
  induction bs generalizing earlier with
  | nil => trivial
  | cons b bs ih =>
    obtain ⟨hb, hbs⟩ := List.forall_mem_cons.1 h
    rw [List.flatMap_cons, allDrawable_append]
    exact ⟨hb earlier, ih hbs⟩

/-- A mark without marks inside, drawn from one source. -/
theorem drawable_leaf {m : Mark} {source : String} (hi : m.input = some { source := some source })
    (hm : m.marks = [])
    (h : source ∈ known ∨ enclosing.map Partition.name = some source ∨ source ∈ earlier) :
    m.Drawable known enclosing earlier := by
  rw [drawable_iff, hi, hm]
  refine ⟨?_, trivial⟩
  rintro i ⟨⟩
  refine ⟨nofun, ?_⟩
  rintro n ⟨⟩
  exact h

/-- A group over the parts of a source. -/
theorem drawable_group {m : Mark} {p : Partition} (hi : m.input = some { partition := some p })
    (hp : p.source ∈ known) (hms : AllDrawable known (some p) [] m.marks) :
    m.Drawable known enclosing earlier := by
  rw [drawable_iff, partition?, hi]
  refine ⟨?_, hms⟩
  rintro i ⟨⟩
  refine ⟨?_, nofun⟩
  rintro q ⟨⟩
  exact hp

/-- What holds of a forest throughout holds wherever a mark stands in it. -/
theorem AllDrawable.found {forest : List Mark} (h : AllDrawable known none [] forest)
    {before : List Mark} {m : Mark} (hm : Placed forest enclosing before m) :
    ∀ i, m.input = some i → i.Found known enclosing (before.map name) := by
  suffices m.Drawable known enclosing (before.map name) from ((drawable_iff m).1 this).1
  induction hm with
  | top hforest =>
    rw [hforest, allDrawable_append] at h
    exact h.2.1
  | inside _ hmarks ih =>
    have hall := ((drawable_iff _).1 ih).2
    rw [hmarks, allDrawable_append] at hall
    exact hall.2.1

end Mark

end ChartCompiler
