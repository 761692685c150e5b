import Mathlib.Data.List.Infix
import Mathlib.Tactic.Cases

/-! When the parts of a joined text can be told from the whole, given how many they are. A separator
of several characters can also arise from the end of a part and its own beginning, or from its own
end and the beginning of a part. The cuts are unique exactly if neither happens at any cut: then
reading from the left finds none too late, and reading from the right none too early. -/

namespace ChartCompiler

variable {α : Type*} {sep : List α}

/-- Behind this part the separator is found in its place, and not before. -/
def EndsClean (sep v : List α) : Prop := ¬sep <:+: v ++ sep.dropLast

/-- Before this part the separator is found in its place, and not behind. -/
def StartsClean (sep v : List α) : Prop := ¬sep <:+: sep.tail ++ v

structure Separable (sep : List α) (vs : List (List α)) : Prop where
  ends : ∀ v ∈ vs.dropLast, EndsClean sep v
  starts : ∀ v ∈ vs.tail, StartsClean sep v

theorem endsClean_reverse {v : List α} : EndsClean sep.reverse v.reverse ↔ StartsClean sep v := by
  rw [EndsClean, StartsClean, List.dropLast_reverse, ← List.reverse_append, List.reverse_infix]

theorem intercalate_cons (v : List α) (vs : List (List α)) :
    sep.intercalate (v :: vs) = v ++ vs.flatMap (sep ++ ·) := by
  induction vs generalizing v with
  | nil => rw [List.intercalate_singleton, List.flatMap_nil, List.append_nil]
  | cons u us ih =>
    rw [List.intercalate_cons_cons, ih, List.flatMap_cons, List.append_assoc, List.append_assoc]

/-- Two neighbors may be joined first. -/
theorem intercalate_merge (a : List (List α)) (x y : List α) (b : List (List α)) :
    sep.intercalate (a ++ x :: y :: b) = sep.intercalate (a ++ (x ++ sep ++ y) :: b) := by
  cases a with
  | nil => simp only [List.nil_append, intercalate_cons, List.flatMap_cons, List.append_assoc]
  | cons u us =>
    simp only [List.cons_append, intercalate_cons, List.flatMap_append, List.flatMap_cons,
      List.append_assoc]

section Unique

variable (hsep : sep ≠ [])

include hsep

/-- Behind a clean end comes the first separator of all. -/
theorem EndsClean.cut_first {v w x y : List α} (hv : EndsClean sep v)
    (h : w ++ sep ++ y = v ++ sep ++ x) : v <+: w := by
  have hw : w ++ sep <+: v ++ sep ++ x := ⟨y, h⟩
  have hlast : v ++ sep.dropLast <+: v ++ sep ++ x := by
    rw [List.append_assoc, List.prefix_append_right_inj]
    exact (List.dropLast_prefix sep).trans (List.prefix_append sep x)
  rcases Nat.lt_or_ge w.length v.length with hlt | hle
  · have hpos := List.length_pos_iff.2 hsep
    have hinside := List.prefix_of_prefix_length_le hw hlast (by simp; omega)
    exact absurd ((List.suffix_append w sep).isInfix.trans hinside.isInfix) hv
  · exact List.prefix_of_prefix_length_le (by simp) ((List.prefix_append w sep).trans hw) hle

/-- Parts that end clean are cut off as early as any. -/
theorem suffix_of_endsClean {vs ws : List (List α)} {u r r' : List α}
    (hvs : ∀ v ∈ vs, EndsClean sep v) (hlen : ws.length = vs.length)
    (h : u ++ ws.flatMap (· ++ sep) ++ r' = vs.flatMap (· ++ sep) ++ r) : r' <:+ r := by
  induction vs generalizing ws u with
  | nil =>
    rw [List.length_nil, List.length_eq_zero_iff] at hlen
    subst hlen
    exact ⟨u, by simpa using h⟩
  | cons v vs ih =>
    obtain ⟨hv, hvs⟩ := List.forall_mem_cons.1 hvs
    obtain ⟨w, ws, rfl⟩ := List.exists_cons_of_length_eq_add_one hlen
    have hcut : (u ++ w) ++ sep ++ (ws.flatMap (· ++ sep) ++ r') =
        v ++ sep ++ (vs.flatMap (· ++ sep) ++ r) := by
      simpa only [List.flatMap_cons, List.append_assoc] using h
    obtain ⟨rest, hrest⟩ := hv.cut_first hsep hcut
    -- what the cut behind `w` comes after the one behind `v` is left over in front
    have hrest : rest ++ sep ++ (ws.flatMap (· ++ sep) ++ r') =
        sep ++ (vs.flatMap (· ++ sep) ++ r) := by
      rw [← hrest] at hcut
      simpa only [List.append_assoc, List.append_cancel_left_eq] using hcut
    obtain ⟨late, hlate⟩ : sep <+: rest ++ sep :=
      List.prefix_of_prefix_length_le ⟨_, hrest.symm⟩ (List.prefix_append _ _) (by simp)
    refine ih hvs (u := late) (by simpa using hlen) ?_
    rw [← hlate] at hrest
    simpa only [List.append_assoc, List.append_cancel_left_eq] using hrest

/-- Parts that start clean are cut off as late as any. -/
theorem prefix_of_startsClean {vs ws : List (List α)} {v w : List α}
    (hvs : ∀ v ∈ vs, StartsClean sep v) (hlen : ws.length = vs.length)
    (h : w ++ ws.flatMap (sep ++ ·) = v ++ vs.flatMap (sep ++ ·)) : w <+: v := by
  have hmirror (us : List (List α)) : (us.flatMap (sep ++ ·)).reverse =
      (us.reverse.map List.reverse).flatMap (· ++ sep.reverse) := by
    rw [List.reverse_flatMap, List.flatMap_map]
    congr 1
    funext u
    exact List.reverse_append
  have hclean : ∀ u ∈ vs.reverse.map List.reverse, EndsClean sep.reverse u := by
    intro u hu
    obtain ⟨v, hv, rfl⟩ := List.mem_map.1 hu
    exact endsClean_reverse.2 (hvs v (List.mem_reverse.1 hv))
  have hcount : (ws.reverse.map List.reverse).length = (vs.reverse.map List.reverse).length := by
    simpa using hlen
  rw [← List.reverse_suffix]
  refine suffix_of_endsClean (u := []) (by simpa using hsep) hclean hcount ?_
  rw [← hmirror, ← hmirror, List.nil_append, ← List.reverse_append, ← List.reverse_append, h]

theorem Separable.unique {vs ws : List (List α)} (hvs : Separable sep vs)
    (hlen : ws.length = vs.length) (h : sep.intercalate ws = sep.intercalate vs) : ws = vs := by
  induction vs generalizing ws with
  | nil => exact List.length_eq_zero_iff.1 hlen
  | cons v vs ih =>
    obtain ⟨w, ws, rfl⟩ := List.exists_cons_of_length_eq_add_one hlen
    have htail : ws.length = vs.length := by simpa using hlen
    rw [intercalate_cons, intercalate_cons] at h
    have hlate := prefix_of_startsClean hsep hvs.starts htail h
    cases vs with
    | nil =>
      obtain rfl := List.length_eq_zero_iff.1 htail
      simpa using h
    | cons v' vs =>
      obtain ⟨w', ws, rfl⟩ := List.exists_cons_of_length_eq_add_one htail
      rw [List.flatMap_cons, List.flatMap_cons] at h
      have hcut : w ++ sep ++ (w' ++ ws.flatMap (sep ++ ·)) =
          v ++ sep ++ (v' ++ vs.flatMap (sep ++ ·)) := by
        simpa only [List.append_assoc] using h
      have hearly := (hvs.ends v List.mem_cons_self).cut_first hsep hcut
      obtain rfl := hearly.eq_of_length_le hlate.length_le
      have hjoined : sep.intercalate (w' :: ws) = sep.intercalate (v' :: vs) := by
        rw [intercalate_cons, intercalate_cons]
        exact List.append_cancel_left hcut
      have hrest : Separable sep (v' :: vs) :=
        ⟨fun u hu => hvs.ends u (List.mem_cons_of_mem _ hu),
          fun u hu => hvs.starts u (List.mem_cons_of_mem _ hu)⟩
      rw [ih hrest htail hjoined]

end Unique

theorem exists_neighbor_behind {v : List α} {vs : List (List α)} (h : v ∈ vs.dropLast) :
    ∃ a y b, vs = a ++ v :: y :: b := by
  have hne : vs ≠ [] := fun hnil => by simp [hnil] at h
  obtain ⟨a, b, hab⟩ := List.append_of_mem h
  obtain ⟨y, b', hb⟩ := List.exists_cons_of_ne_nil (List.concat_ne_nil (vs.getLast hne) b)
  refine ⟨a, y, b', ?_⟩
  calc vs = vs.dropLast ++ [vs.getLast hne] := (List.dropLast_append_getLast hne).symm
    _ = a ++ v :: (b ++ [vs.getLast hne]) := by rw [hab, List.append_assoc, List.cons_append]
    _ = a ++ v :: y :: b' := by rw [hb]

theorem exists_neighbor_before {v : List α} {vs : List (List α)} (h : v ∈ vs.tail) :
    ∃ a x b, vs = a ++ x :: v :: b := by
  have hmirror : v ∈ vs.reverse.dropLast := by rwa [List.dropLast_reverse, List.mem_reverse]
  obtain ⟨a, y, b, hab⟩ := exists_neighbor_behind hmirror
  refine ⟨b.reverse, y, a.reverse, ?_⟩
  rw [← List.reverse_reverse vs, hab]
  simp

/-- A cut at another place between two neighbors leaves as many parts. -/
theorem Separable.of_unique {vs : List (List α)} (hsep : sep ≠ [])
    (h : ∀ ws, ws.length = vs.length → sep.intercalate ws = sep.intercalate vs → ws = vs) :
    Separable sep vs := by
  have hother {a b : List (List α)} {x y x' y' : List α} (hvs : vs = a ++ x :: y :: b)
      (hcut : x' ++ sep ++ y' = x ++ sep ++ y) : x' = x := by
    have hjoined : sep.intercalate (a ++ x' :: y' :: b) = sep.intercalate vs := by
      rw [hvs, intercalate_merge, intercalate_merge, hcut]
    have heq := h _ (by simp [hvs]) hjoined
    rw [hvs, List.append_cancel_left_eq] at heq
    exact (List.cons.inj heq).1
  constructor
  · rintro v hv ⟨p, q, hpq⟩
    obtain ⟨a, y, b, hvs⟩ := exists_neighbor_behind hv
    have hcut : p ++ sep ++ (q ++ [sep.getLast hsep] ++ y) = v ++ sep ++ y := by
      have hlast := List.dropLast_append_getLast hsep
      calc p ++ sep ++ (q ++ [sep.getLast hsep] ++ y)
          = (p ++ sep ++ q) ++ ([sep.getLast hsep] ++ y) := by simp only [List.append_assoc]
        _ = v ++ (sep.dropLast ++ [sep.getLast hsep]) ++ y := by
          rw [hpq]
          simp only [List.append_assoc]
        _ = v ++ sep ++ y := by rw [hlast]
    have hlength := congrArg List.length hpq
    have hpos := List.length_pos_iff.2 hsep
    rw [hother hvs hcut] at hlength
    simp at hlength
    omega
  · rintro v hv ⟨p, q, hpq⟩
    obtain ⟨a, x, b, hvs⟩ := exists_neighbor_before hv
    have hcut : (x ++ [sep.head hsep] ++ p) ++ sep ++ q = x ++ sep ++ v := by
      calc (x ++ [sep.head hsep] ++ p) ++ sep ++ q
          = (x ++ [sep.head hsep]) ++ (p ++ sep ++ q) := by simp only [List.append_assoc]
        _ = x ++ ([sep.head hsep] ++ sep.tail) ++ v := by
          rw [hpq]
          simp only [List.append_assoc]
        _ = x ++ sep ++ v := by
          rw [List.singleton_append, List.cons_head_tail hsep]
    have hlength := congrArg List.length (hother hvs hcut)
    simp at hlength

/-- The parts can be told from the whole exactly if every cut is found in its place. -/
theorem joined_unique_iff {vs : List (List α)} (hsep : sep ≠ []) :
    (∀ ws, ws.length = vs.length → sep.intercalate ws = sep.intercalate vs → ws = vs) ↔
      Separable sep vs :=
  ⟨.of_unique hsep, fun hvs _ hlen h => hvs.unique hsep hlen h⟩

theorem joinedTexts_unique_iff {bar : String} {ss : List String} (hbar : bar.toList ≠ []) :
    (∀ ts : List String, ts.length = ss.length →
      bar.intercalate ts = bar.intercalate ss → ts = ss) ↔
      Separable bar.toList (ss.map String.toList) := by
  have hjoined (ts : List String) : bar.intercalate ts = bar.intercalate ss ↔
      bar.toList.intercalate (ts.map String.toList) =
        bar.toList.intercalate (ss.map String.toList) := by
    rw [← String.toList_inj, String.toList_intercalate, String.toList_intercalate]
  rw [← joined_unique_iff hbar]
  constructor
  · intro h ws hlen hws
    obtain ⟨ts, rfl⟩ : ∃ ts : List String, ts.map String.toList = ws :=
      ⟨ws.map String.ofList, by simp [Function.comp_def]⟩
    rw [h ts (by simpa using hlen) ((hjoined ts).2 hws)]
  · intro h ts hlen hts
    have hchars := h (ts.map String.toList) (by simpa using hlen) ((hjoined ts).1 hts)
    exact List.map_injective_iff.2 (fun _ _ => String.toList_inj.1) hchars

/-- Joining around a text in each gap is joining by a longer separator. -/
theorem intercalate_between (sep between s : String) (ss : List String) :
    sep.intercalate (s :: ss.flatMap fun t => [between, t]) =
      (sep ++ between ++ sep).intercalate (s :: ss) := by
  induction ss generalizing s with
  | nil => rw [List.flatMap_nil, String.intercalate_singleton, String.intercalate_singleton]
  | cons t ss ih =>
    rw [List.flatMap_cons, List.cons_append, List.singleton_append,
      String.intercalate_cons_cons, String.intercalate_cons_cons, ih, String.intercalate_cons_cons]
    simp only [String.append_assoc]

end ChartCompiler
