import ChartCompiler.Proofs.Grammar.Digits
import ChartCompiler.Trendline.Basic

/-! The names that a document makes up. Each is a name of the author's, perhaps with the word for
its trendlines and the place of one of them, and a suffix from an underscore on. Authors may write
underscores, digits and that word themselves, so the parts are told apart from the end of a name. -/

namespace ChartCompiler

/-- Where a list is split before its last item that `p` does not hold of, there is one way to do it.
-/
theorem split_last_inj {α : Type} {p : α → Prop} {xs ys us vs : List α} {a b : α} (ha : ¬p a)
    (hb : ¬p b) (hu : ∀ u ∈ us, p u) (hv : ∀ v ∈ vs, p v) (h : xs ++ a :: us = ys ++ b :: vs) :
    xs = ys ∧ a = b ∧ us = vs := by
  rcases List.append_eq_append_iff.1 h with ⟨w, rfl, hw⟩ | ⟨w, rfl, hw⟩
  · cases w with
    | nil => simpa using hw
    | cons c w =>
      -- the first split would have the second one's item among its last ones
      obtain ⟨rfl, rfl⟩ := List.cons_eq_cons.1 hw
      exact absurd (hu b (by simp)) hb
  · cases w with
    | nil => simpa [eq_comm] using hw
    | cons c w =>
      obtain ⟨rfl, rfl⟩ := List.cons_eq_cons.1 hw
      exact absurd (hv a (by simp)) ha

/-- An underscore, and none behind it. -/
structure IsSuffix (s : String) : Prop where
  head : s.toList.head? = some '_'
  tail : '_' ∉ s.toList.tail

instance (s : String) : Decidable (IsSuffix s) :=
  decidable_of_iff (s.toList.head? = some '_' ∧ '_' ∉ s.toList.tail)
    ⟨fun h => ⟨h.1, h.2⟩, fun h => ⟨h.head, h.tail⟩⟩

theorem IsSuffix.toList_eq {s : String} (h : IsSuffix s) : s.toList = '_' :: s.toList.tail := by
  obtain ⟨cs, hcs⟩ := List.head?_eq_some_iff.1 h.head
  rw [hcs, List.tail_cons]

theorem append_suffix_inj {a b s t : String} (hs : IsSuffix s) (ht : IsSuffix t) :
    a ++ s = b ++ t ↔ a = b ∧ s = t := by
  constructor
  · intro h
    have hsplit : a.toList ++ '_' :: s.toList.tail = b.toList ++ '_' :: t.toList.tail := by
      rw [← hs.toList_eq, ← ht.toList_eq, ← String.toList_append, ← String.toList_append, h]
    obtain ⟨hab, -, hst⟩ := split_last_inj (p := (· ≠ '_')) (by simp) (by simp)
      (fun c hc hne => hs.tail (hne ▸ hc)) (fun c hc hne => ht.tail (hne ▸ hc)) hsplit
    refine ⟨String.toList_inj.1 hab, String.toList_inj.1 ?_⟩
    rw [hs.toList_eq, ht.toList_eq, hst]
  · rintro ⟨rfl, rfl⟩
    rfl

theorem append_suffix_ne {a s n : String} (hs : IsSuffix s) (hn : '_' ∉ n.toList) : a ++ s ≠ n := by
  rintro rfl
  rw [String.toList_append, hs.toList_eq] at hn
  simp at hn

namespace Trendline

theorem sharedName_inj {a b : String} : sharedName a = sharedName b ↔ a = b :=
  String.append_left_inj _

/-- Digits end before the word for trendlines, so the place of a trendline is told apart from a name
that ends in digits. -/
theorem numbered_inj {a b : String} {i j : Nat} :
    sharedName a ++ i.repr = sharedName b ++ j.repr ↔ a = b ∧ i = j := by
  constructor
  · intro h
    have hlist (c : String) (k : Nat) : (sharedName c ++ k.repr).toList =
        (c.toList ++ "Trendlin".toList) ++ 'e' :: Nat.toDigits 10 k := by
      simp [sharedName]
    have hsplit := congrArg String.toList h
    rw [hlist, hlist] at hsplit
    obtain ⟨hab, -, hij⟩ := split_last_inj (p := fun c => c.isDigit) (by decide) (by decide)
      (toDigits_isDigit i) (toDigits_isDigit j) hsplit
    refine ⟨String.toList_inj.1 (List.append_cancel_right hab), ?_⟩
    rw [← Nat.ofDigitChars_ten_toDigits (n := i), hij, Nat.ofDigitChars_ten_toDigits]
  · rintro ⟨rfl, rfl⟩
    rfl

end Trendline

end ChartCompiler
