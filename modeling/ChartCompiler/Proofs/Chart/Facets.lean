import ChartCompiler.Chart.Facets
import ChartCompiler.Proofs.Document.FirstWins

/-! The fields that split the rows of a mark. Primary and secondary fields are collected apart and
then put together. Collecting texts is extending by items that are their own names, and extending by
an extended list is extending by its items, so whichever way a field comes in, what is left is the
first of each among all fields in order. -/

namespace ChartCompiler

def Encoding.fields {α : Type} : Encoding α → List String
  | .field f => [f]
  | .dual f g => [f, g]
  | .fixed _ => []

theorem Encoding.mem_fields {α : Type} {e : Encoding α} {f : String} :
    f ∈ e.fields ↔ e.primary? = some f ∨ e.secondary? = some f := by
  cases e with
  | field g => simp [fields, primary?, secondary?, eq_comm]
  | dual g h => simp [fields, primary?, secondary?, eq_comm]
  | fixed v => simp [fields, primary?, secondary?]

namespace Facets

open Document

theorem insertNew_eq_extend (fs : List String) (f : String) : insertNew fs f = extend id fs [f] := by
  unfold insertNew extend
  rw [List.foldl_cons, List.foldl_nil, List.contains_eq_any_beq]
  simp only [id, Bool.beq_comm]

theorem foldl_insertNew (fs gs : List String) : gs.foldl insertNew fs = extend id fs gs := by
  induction gs generalizing fs with
  | nil => rfl
  | cons g gs ih =>
    rw [List.foldl_cons, ih, insertNew_eq_extend, ← extend_append, List.singleton_append]

/-- Extending nothing keeps the first of each text. -/
theorem extend_nil_eq_eraseDups (fs : List String) : extend id [] fs = fs.eraseDups := by
  induction fs using List.reverseRecOn with
  | nil => rfl
  | append_singleton fs f ih =>
    have htaken : f ∈ extend id [] fs ↔ f ∈ fs := by rw [ih, List.mem_eraseDups]
    rw [extend_append, List.eraseDups_append, ← ih, ← insertNew_eq_extend]
    unfold insertNew
    by_cases hf : f ∈ fs
    · simp [htaken, hf, List.removeAll]
    · simp [htaken, hf, List.removeAll, List.eraseDups_cons]

variable {α β : Type} (color : Encoding α) (lineType : Encoding β)

theorem secondary_eq :
    (ofEncodings color lineType).secondary =
      ([color.secondary?, lineType.secondary?].filterMap id).eraseDups := by
  unfold ofEncodings
  simp only [foldl_insertNew, extend_nil_eq_eraseDups]

/-- The secondary fields come behind the primary ones, without those that are among them. -/
theorem all_eq :
    (ofEncodings color lineType).all =
      ([color.primary?, lineType.primary?, color.secondary?, lineType.secondary?].filterMap
        id).eraseDups := by
  have hfields : [color.primary?, lineType.primary?, color.secondary?, lineType.secondary?] =
      [color.primary?, lineType.primary?] ++ [color.secondary?, lineType.secondary?] := rfl
  rw [hfields, List.filterMap_append]
  unfold ofEncodings
  simp only [foldl_insertNew]
  generalize [color.primary?, lineType.primary?].filterMap id = ps
  generalize [color.secondary?, lineType.secondary?].filterMap id = ss
  calc
    extend id (extend id [] ps) (extend id [] ss) = extend id (extend id [] ps) ss :=
      extend_extend _ _ _
    _ = extend id [] (ps ++ ss) := (extend_append _ _ _).symm
    _ = (ps ++ ss).eraseDups := extend_nil_eq_eraseDups _

variable {color lineType}

/-- The rows are split by the fields of both encodings. -/
theorem mem_all {f : String} :
    f ∈ (ofEncodings color lineType).all ↔ f ∈ color.fields ∨ f ∈ lineType.fields := by
  rw [all_eq, List.mem_eraseDups, Encoding.mem_fields, Encoding.mem_fields, or_or_or_comm]
  simp [eq_comm, or_assoc]

theorem mem_secondary {f : String} :
    f ∈ (ofEncodings color lineType).secondary ↔
      color.secondary? = some f ∨ lineType.secondary? = some f := by
  rw [secondary_eq, List.mem_eraseDups]
  simp [eq_comm]

theorem nodup_eraseDups (fs : List String) : fs.eraseDups.Nodup := by
  have hnothing : (([] : List String).map id).Nodup := List.nodup_nil
  have h := nodup_extend hnothing fs
  rwa [extend_nil_eq_eraseDups, List.map_id] at h

/-- The fields of both encodings in order, each once, and the secondary ones among them. -/
theorem ofEncodings_firstOfEach (color : Encoding α) (lineType : Encoding β) :
    let fs := ofEncodings color lineType
    fs.all = ([color.primary?, lineType.primary?, color.secondary?, lineType.secondary?].filterMap
        id).eraseDups ∧
      fs.secondary = ([color.secondary?, lineType.secondary?].filterMap id).eraseDups ∧
      fs.all.Nodup ∧ fs.secondary.Nodup ∧ fs.secondary ⊆ fs.all ∧
      ∀ f, f ∈ fs.all ↔ f ∈ color.fields ∨ f ∈ lineType.fields := by
  intro fs
  refine ⟨all_eq color lineType, secondary_eq color lineType, ?_, ?_, ?_, fun f => mem_all⟩
  · rw [all_eq]
    apply nodup_eraseDups
  · rw [secondary_eq]
    apply nodup_eraseDups
  · intro f hf
    rw [mem_all, Encoding.mem_fields, Encoding.mem_fields]
    exact (mem_secondary.1 hf).imp .inr .inr

example : (ofEncodings (.dual "region" "year" : Encoding Nat) (.dual "year" "kind" : Encoding Nat)).all =
    ["region", "year", "kind"] := by decide

end Facets

end ChartCompiler
