import ChartCompiler.Proofs.Build.OwnFields
import ChartCompiler.Proofs.Expr.Eval
import ChartCompiler.Proofs.Text.Joined

/-! Whether series ids tell series apart. The id of a row is the values of its series with bars
between them, and bars in the values are not quoted. So series of one field have ids of their own,
and series of several fields as long as no value takes part in a bar. -/

namespace ChartCompiler

/-- No bar stands inside the text, nor the beginning of one at its end. -/
def EndsBarFree (s : String) : Prop :=
  ¬" | ".toList <:+: s.toList ∧ ¬" |".toList <:+ s.toList

/-- No bar stands inside the text, nor the end of one at its beginning. -/
def StartsBarFree (s : String) : Prop :=
  ¬" | ".toList <:+: s.toList ∧ ¬"| ".toList <+: s.toList

theorem endsClean_bar {v : List Char} :
    EndsClean " | ".toList v ↔ ¬" | ".toList <:+: v ∧ ¬" |".toList <:+ v := by
  have hlast : ¬" | ".toList <:+ (v ++ [' ']) ++ ['|'] := by
    intro h
    obtain hnil | ⟨t, ht, -⟩ := List.suffix_concat_iff.1 h
    · cases hnil
    · exact absurd (congrArg List.getLast? ht) (by simp)
  have hend : " | ".toList <:+ v ++ [' '] ↔ " |".toList <:+ v := by
    have hsplit : " | ".toList = " |".toList ++ [' '] := rfl
    rw [hsplit, ← List.reverse_prefix, ← List.reverse_prefix, List.reverse_concat',
      List.reverse_concat', List.prefix_cons_inj]
  have hsplit : v ++ " | ".toList.dropLast = (v ++ [' ']) ++ ['|'] := by simp
  rw [EndsClean, hsplit, List.infix_concat_iff, or_iff_right hlast, List.infix_concat_iff, hend,
    not_or, and_comm]

theorem startsClean_bar {v : List Char} :
    StartsClean " | ".toList v ↔ ¬" | ".toList <:+: v ∧ ¬"| ".toList <+: v := by
  have hbar : " | ".toList.reverse = " | ".toList := rfl
  have hend : " |".toList = "| ".toList.reverse := rfl
  rw [← endsClean_reverse, hbar, endsClean_bar, hend, List.reverse_suffix]
  nth_rewrite 1 [← hbar]
  rw [List.reverse_infix]

variable {K : Type*} {row other : Row K} {fs : List String} {ss : List String}

def Row.HoldsTexts (row : Row K) (fs : List String) : Prop := ∀ f ∈ fs, ∃ s, row f = .text s

/-- No value takes part in a bar that is not between two values. -/
structure Row.BarFree (row : Row K) (fs : List String) : Prop where
  ends : ∀ f ∈ fs.dropLast, ∀ s, row f = .text s → EndsBarFree s
  starts : ∀ f ∈ fs.tail, ∀ s, row f = .text s → StartsBarFree s

namespace Row

theorem HoldsTexts.exists_texts (h : row.HoldsTexts fs) :
    ∃ ss : List String, fs.map row = ss.map .text := by
  induction fs with
  | nil => exact ⟨[], rfl⟩
  | cons f fs ih =>
    obtain ⟨s, hs⟩ := h f List.mem_cons_self
    obtain ⟨ss, hss⟩ := ih fun g hg => h g (List.mem_cons_of_mem f hg)
    exact ⟨s :: ss, by rw [List.map_cons, List.map_cons, hs, hss]⟩

theorem HoldsTexts.of_texts (h : fs.map row = ss.map .text) : row.HoldsTexts fs := by
  intro f hf
  obtain ⟨s, -, hs⟩ := List.mem_map.1 (h ▸ List.mem_map_of_mem hf)
  exact ⟨s, hs.symm⟩

theorem length_texts (h : fs.map row = ss.map .text) : ss.length = fs.length := by
  simpa using (congrArg List.length h).symm

theorem forall_text_iff (h : fs.map row = ss.map .text) (P : String → Prop) :
    (∀ f ∈ fs, ∀ s, row f = .text s → P s) ↔ ∀ s ∈ ss, P s := by
  constructor
  · intro hP s hs
    have hmem : Value.text s ∈ fs.map row := h ▸ List.mem_map_of_mem hs
    obtain ⟨f, hf, hfs⟩ := List.mem_map.1 hmem
    exact hP f hf s hfs
  · intro hP f hf s hfs
    have hmem : row f ∈ ss.map Value.text := h ▸ List.mem_map_of_mem hf
    obtain ⟨t, ht, hts⟩ := List.mem_map.1 hmem
    rw [hfs] at hts
    exact Value.text.inj hts ▸ hP t ht

theorem barFree_iff (h : fs.map row = ss.map .text) :
    row.BarFree fs ↔ Separable " | ".toList (ss.map String.toList) := by
  have hfront : fs.dropLast.map row = ss.dropLast.map .text := by
    rw [List.map_dropLast, List.map_dropLast, h]
  have hback : fs.tail.map row = ss.tail.map .text := by rw [List.map_tail, List.map_tail, h]
  constructor
  · rintro ⟨hends, hstarts⟩
    constructor
    · rw [← List.map_dropLast, List.forall_mem_map]
      exact fun s hs => endsClean_bar.2 ((forall_text_iff hfront EndsBarFree).1 hends s hs)
    · rw [← List.map_tail, List.forall_mem_map]
      exact fun s hs => startsClean_bar.2 ((forall_text_iff hback StartsBarFree).1 hstarts s hs)
  · rintro ⟨hends, hstarts⟩
    rw [← List.map_dropLast, List.forall_mem_map] at hends
    rw [← List.map_tail, List.forall_mem_map] at hstarts
    exact ⟨(forall_text_iff hfront EndsBarFree).2 fun s hs => endsClean_bar.1 (hends s hs),
      (forall_text_iff hback StartsBarFree).2 fun s hs => startsClean_bar.1 (hstarts s hs)⟩

/-- Rows can hold any values in fields that are not the same. -/
theorem exists_of_values (hfs : fs.Nodup) {values : List (Value K)}
    (hlen : values.length = fs.length) : ∃ row : Row K, fs.map row = values := by
  refine ⟨fun f => values.getD (fs.idxOf f) .undefined, List.ext_getElem (by simp [hlen]) ?_⟩
  intro i hi _
  rw [List.getElem_map, hfs.idxOf_getElem, List.getD_eq_getElem]

end Row

variable [Field K] [LinearOrder K] [FloorRing K] {σ : Runtime K}

namespace Expr

theorem intersperse_fields (f : String) (fs : List String) (between : Expr) :
    ((f :: fs).map datum).intersperse between =
      datum f :: fs.flatMap fun g => [between, datum g] := by
  induction fs generalizing f with
  | nil => rfl
  | cons g fs ih =>
    rw [List.map_cons, List.map_cons, List.intersperse_cons_cons, ← List.map_cons, ih]
    rfl

/-- Each field is added behind what is joined so far. -/
theorem eval_foldl_fields {e : Expr} {sep s : String} (he : e.eval σ row = some (.text s))
    (h : fs.map row = ss.map .text) :
    ((fs.flatMap fun g => [.string sep, datum g]).foldl (.binary .add) e).eval σ row =
      some (.text (sep.intercalate (s :: ss))) := by
  induction fs generalizing e s ss with
  | nil =>
    obtain rfl : ss = [] := List.map_eq_nil_iff.1 h.symm
    rw [List.flatMap_nil, List.foldl_nil, he, String.intercalate_singleton]
  | cons g fs ih =>
    obtain ⟨t, ss, rfl, hg, h⟩ := List.map_eq_cons_iff.1 h.symm
    have hadd := eval_add_text (eval_add_text he (eval_string sep))
      ((eval_datum g).trans (congrArg some hg.symm))
    rw [String.intercalate_cons_cons, ← String.intercalate_cons_append, ← ih hadd h.symm]
    rfl

/-- Fields of texts with a text between them sum up to the joined text. -/
theorem eval_sum_fields {e : Expr} {sep : String}
    (he : sum ((fs.map datum).intersperse (.string sep)) = some e)
    (h : fs.map row = ss.map .text) : e.eval σ row = some (.text (sep.intercalate ss)) := by
  cases fs with
  | nil => cases he
  | cons f fs =>
    obtain ⟨s, ss, rfl, hf, h⟩ := List.map_eq_cons_iff.1 h.symm
    rw [intersperse_fields] at he
    obtain rfl := Option.some.inj he
    exact eval_foldl_fields ((eval_datum f).trans (congrArg some hf.symm)) h.symm

end Expr

namespace DerivedField

theorem seriesId_transforms (hne : fs ≠ []) : ∃ e,
    (seriesId fs).transforms = [.formula e Names.seriesId] ∧
      Expr.sum ((fs.map Expr.datum).intersperse (.string " | ")) = some e := by
  obtain ⟨e, he⟩ := exists_formula_seriesId hne
  obtain ⟨e', hsum, heq⟩ := Option.map_eq_some_iff.1 (Option.mem_toList.1 he)
  cases heq
  exact ⟨e, by rw [seriesId, hsum]; rfl, hsum⟩

/-- Rows of one series share their id. A row shares it with no row of another series exactly if its
values take no part in a bar, so always if there is one field only. -/
theorem seriesId_unique_iff (hne : fs ≠ []) (hnodup : fs.Nodup) :
    ∃ e, (seriesId fs).transforms = [.formula e Names.seriesId] ∧
      ∀ (σ : Runtime K) (row : Row K), row.HoldsTexts fs →
        (∃ id, e.eval σ row = some (.text id)) ∧
        (∀ other : Row K, (∀ f ∈ fs, other f = row f) → e.eval σ other = e.eval σ row) ∧
        ((∀ other : Row K, other.HoldsTexts fs → e.eval σ other = e.eval σ row →
          ∀ f ∈ fs, other f = row f) ↔ row.BarFree fs) := by
  obtain ⟨e, htransforms, hsum⟩ := seriesId_transforms hne
  refine ⟨e, htransforms, fun σ row hrow => ?_⟩
  obtain ⟨ss, hss⟩ := hrow.exists_texts
  have hid {row : Row K} {ss : List String} (h : fs.map row = ss.map .text) :
      e.eval σ row = some (.text (" | ".intercalate ss)) := Expr.eval_sum_fields hsum h
  refine ⟨⟨_, hid hss⟩, fun other hother => ?_, ?_⟩
  · rw [hid hss, hid ((List.map_congr_left hother).trans hss)]
  rw [Row.barFree_iff hss, ← joinedTexts_unique_iff (by decide)]
  constructor
  · -- any other values with the same id are those of another row
    intro hunique ts hlen hjoined
    have hcount : (ts.map Value.text : List (Value K)).length = fs.length := by
      rw [List.length_map, hlen, Row.length_texts hss]
    obtain ⟨other, hother⟩ := Row.exists_of_values hnodup hcount
    have hsame : e.eval σ other = e.eval σ row := by rw [hid hother, hid hss, hjoined]
    have hagree := List.map_congr_left (hunique other (.of_texts hother) hsame)
    rw [hother, hss] at hagree
    exact List.map_injective_iff.2 (fun _ _ => Value.text.inj) hagree
  · intro hunique other hother hsame
    obtain ⟨ts, hts⟩ := hother.exists_texts
    rw [hid hts, hid hss] at hsame
    have hlen : ts.length = ss.length := by rw [Row.length_texts hts, Row.length_texts hss]
    rw [← List.map_inj_left, hts, hss, hunique ts hlen (Value.text.inj (Option.some.inj hsame))]

/-- Rows with other values than these have other ids. -/
theorem seriesId_unique_of_two :
    let row : Row ℚ := fun f => if f = "series" then .text "desktop" else .text "|"
    ∃ e, (seriesId ["series", "period"]).transforms = [.formula e Names.seriesId] ∧
      ∀ (σ : Runtime ℚ) (other : Row ℚ), other.HoldsTexts ["series", "period"] →
        e.eval σ other = e.eval σ row →
        other "series" = .text "desktop" ∧ other "period" = .text "|" := by
  intro row
  have hnodup : ["series", "period"].Nodup := by decide
  obtain ⟨e, he, hids⟩ := seriesId_unique_iff (K := ℚ) (List.cons_ne_nil _ _) hnodup
  have hrow : ["series", "period"].map row = ["desktop", "|"].map .text := rfl
  have hfree : row.BarFree ["series", "period"] := by
    constructor
    · intro f hf s hs
      obtain rfl := List.mem_singleton.1 hf
      obtain rfl := Value.text.inj hs
      exact ⟨by decide, by decide⟩
    · intro f hf s hs
      obtain rfl := List.mem_singleton.1 hf
      obtain rfl := Value.text.inj hs
      exact ⟨by decide, by decide⟩
  refine ⟨e, he, fun σ other hother heq => ?_⟩
  have hagree := (hids σ row (.of_texts hrow)).2.2.2 hfree other hother heq
  exact ⟨hagree "series" (by decide), hagree "period" (by decide)⟩

/-- A bar in a value makes two series share an id. -/
theorem seriesId_not_unique :
    ¬∀ fs : List String, fs ≠ [] → fs.Nodup →
      ∃ e, (seriesId fs).transforms = [.formula e Names.seriesId] ∧
        ∀ (σ : Runtime ℚ) (row other : Row ℚ), row.HoldsTexts fs → other.HoldsTexts fs →
          (e.eval σ row = e.eval σ other ↔ ∀ f ∈ fs, row f = other f) := by
  intro h
  obtain ⟨e, he, hids⟩ := h ["series", "period"] (by decide) (by decide)
  let σ : Runtime ℚ := ⟨fun _ => none, fun _ _ => none⟩
  let row (series period : String) : Row ℚ := fun f =>
    if f = "series" then .text series else .text period
  have hrow (a b : String) : ["series", "period"].map (row a b) = [a, b].map .text := rfl
  have hid (a b : String) : e.eval σ (row a b) = some (.text (" | ".intercalate [a, b])) := by
    cases he
    exact Expr.eval_sum_fields rfl (hrow a b)
  have hshared : e.eval σ (row "a | b" "c") = e.eval σ (row "a" "b | c") := by
    have hjoined : " | ".intercalate ["a | b", "c"] = " | ".intercalate ["a", "b | c"] := by decide
    rw [hid, hid, hjoined]
  have hagree := (hids σ _ _ (.of_texts (hrow _ _)) (.of_texts (hrow _ _))).1 hshared
  exact absurd (Value.text.inj (hagree "series" (by decide))) (by decide)

end DerivedField

end ChartCompiler
