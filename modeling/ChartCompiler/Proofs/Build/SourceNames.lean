import ChartCompiler.Proofs.Build.Roles

/-! Where sources of a document have one name. Every source behind the two base ones comes from a
mark, the sources of one mark differ in name, and those of two marks share one only where the names
of the marks let them. -/

namespace ChartCompiler

open Trendline

/-- An item of a joined list stands in one of the parts, behind all parts before it. -/
theorem getElem?_flatMap {α β : Type} {f : β → List α} {bs : List β} {i : Nat} {a : α}
    (h : (bs.flatMap f)[i]? = some a) :
    ∃ k b r, bs[k]? = some b ∧ (f b)[r]? = some a ∧ i = ((bs.take k).flatMap f).length + r := by
  induction bs generalizing i with
  | nil => simp at h
  | cons b bs ih =>
    rw [List.flatMap_cons] at h
    by_cases hi : i < (f b).length
    · rw [List.getElem?_append_left hi] at h
      exact ⟨0, b, i, rfl, h, by simp⟩
    · rw [List.getElem?_append_right (by omega)] at h
      obtain ⟨k, b', r, hk, hr, hlength⟩ := ih h
      refine ⟨k + 1, b', r, hk, hr, ?_⟩
      rw [List.take_succ_cons, List.flatMap_cons, List.length_append]
      omega

namespace Chart

variable {c : Chart} {d : Document}

def upTo (c : Chart) (k : Nat) : Chart := { c with marks := c.marks.take k }

/-- The source at a position comes from a mark: it is there when the chart is built up to the mark,
and the position is not reached before that. -/
def Contributes (c : Chart) (k i : Nat) (s : Source) : Prop :=
  ∃ before after, (c.upTo k).build = .ok before ∧ (c.upTo (k + 1)).build = .ok after ∧
    before.sources.length ≤ i ∧ after.sources[i]? = some s

/-- Sources at two positions come from two marks of the chart. The marks have one name, or one of them
is called what the trendlines of the other share, and the first source has its highlighted rows. -/
def Clash (c : Chart) (i j : Nat) (s t : Source) : Prop :=
  ∃ k l a b, k ≠ l ∧ c.marks[k]? = some a ∧ c.marks[l]? = some b ∧
    c.Contributes k i s ∧ c.Contributes l j t ∧
    (a.toSeriesMark.name = b.toSeriesMark.name ∨
      (a.toSeriesMark.name = sharedName b.toSeriesMark.name ∧
        s.name = a.toSeriesMark.name ++ "_highlightedData") ∨
      (b.toSeriesMark.name = sharedName a.toSeriesMark.name ∧
        s.name = b.toSeriesMark.name ++ "_highlightedData"))

def seriesOf (c : Chart) (m : ChartMark) : SeriesMark := (m.withScheme c.scheme).toSeriesMark

/-- Names of sources are as far apart as those of their marks. -/
structure KeepsApart (c : Chart) (d : Document) : Prop where
  clash : ∀ i j s t, i ≠ j → d.sources[i]? = some s → d.sources[j]? = some t → s.name = t.name →
    c.Clash i j s t
  base : ∀ i s, 2 ≤ i → d.sources[i]? = some s →
    s.name ≠ Names.table ∧ s.name ≠ Names.filteredTable
  trendlines : ∀ m ∈ c.marks, ∀ ts, (c.seriesOf m).trendlines = .ok ts →
    ts.Pairwise fun t u =>
      ∀ s ∈ sources (c.seriesOf m) t, ∀ s' ∈ sources (c.seriesOf m) u, s.name ≠ s'.name
  marks : ∀ m ∈ c.marks, ∀ m' ∈ c.marks, m.toSeriesMark.name ≠ m'.toSeriesMark.name →
    ∀ ts ts', (c.seriesOf m).trendlines = .ok ts → (c.seriesOf m').trendlines = .ok ts' →
      ∀ s ∈ allSources (c.seriesOf m) ts, ∀ s' ∈ allSources (c.seriesOf m') ts', s.name ≠ s'.name

theorem build_upTo (h : c.build = .ok d) (k : Nat) :
    ∃ d' table, (c.upTo k).build = .ok d' ∧
      d'.sources = table :: .filtered :: (c.marks.take k).flatMap c.sourcesOf := by
  have herror : ∀ call ∈ (c.upTo k).calls, call.mark.error? = none := fun call hcall =>
    ((c.build_ok_iff d).1 h).1 call (List.map_subset _ (List.take_subset k c.marks) hcall)
  have hbuild := ((c.upTo k).build_ok_iff _).2 ⟨herror, rfl⟩
  exact ⟨_, _, hbuild, sources_build hbuild⟩

/-- Every source behind the two base ones comes from a mark, and stands among the sources of the mark
as far as its position is beyond those of the marks before. -/
theorem contributes_of_getElem (h : c.build = .ok d) {i : Nat} {s : Source} (hi : 2 ≤ i)
    (hs : d.sources[i]? = some s) :
    ∃ k m r, c.marks[k]? = some m ∧ (c.sourcesOf m)[r]? = some s ∧
      i = 2 + ((c.marks.take k).flatMap c.sourcesOf).length + r ∧ c.Contributes k i s := by
  obtain ⟨i, rfl⟩ := Nat.exists_eq_add_of_le' hi
  rw [sources_build h, List.getElem?_cons_succ, List.getElem?_cons_succ] at hs
  obtain ⟨k, m, r, hm, hr, hi⟩ := getElem?_flatMap hs
  obtain ⟨before, _, hbefore, hbeforeSources⟩ := build_upTo h k
  obtain ⟨after, _, hafter, hafterSources⟩ := build_upTo h (k + 1)
  refine ⟨k, m, r, hm, hr, by omega, before, after, hbefore, hafter, ?_, ?_⟩
  · rw [hbeforeSources, List.length_cons, List.length_cons]
    omega
  · have hmarks : c.marks.take (k + 1) = c.marks.take k ++ [m] := by
      rw [List.take_add_one, hm, Option.toList_some]
    rw [hafterSources, hmarks, List.flatMap_append, List.flatMap_singleton,
      List.getElem?_cons_succ, List.getElem?_cons_succ, List.getElem?_append_right (by omega), hi,
      Nat.add_sub_cancel_left, hr]

theorem sourcesOf_namedFor (h : c.build = .ok d) {m : ChartMark} (hm : m ∈ c.marks) :
    ∃ rs, Source.NamedFor m.toSeriesMark.name rs (c.sourcesOf m) := by
  obtain ⟨ts, hts⟩ := trendlines_of_build h m hm
  have hts : (m.withScheme c.scheme).toSeriesMark.trendlines = .ok ts := by simpa using hts
  have hnamed := ChartMark.sources_namedFor hts
  rw [ChartMark.withScheme_name] at hnamed
  exact ⟨_, hnamed⟩

/-- Two positions of the document that hold sources of one name come from two marks. -/
theorem clash_of_ne (h : c.build = .ok d) {i j : Nat} {s t : Source} (hne : i ≠ j) (hi : 2 ≤ i)
    (hj : 2 ≤ j) (hs : d.sources[i]? = some s) (ht : d.sources[j]? = some t)
    (hname : s.name = t.name) : c.Clash i j s t := by
  obtain ⟨k, a, r, ha, hr, hi, hk⟩ := contributes_of_getElem h hi hs
  obtain ⟨l, b, r', hb, hr', hj, hl⟩ := contributes_of_getElem h hj ht
  obtain ⟨rs, hnamed⟩ := sourcesOf_namedFor h (List.mem_of_getElem? ha)
  obtain ⟨rs', hnamed'⟩ := sourcesOf_namedFor h (List.mem_of_getElem? hb)
  have hkl : k ≠ l := by
    rintro rfl
    obtain rfl : a = b := Option.some_inj.1 (ha.symm.trans hb)
    -- both positions are in the part of one mark, whose names differ
    have hr_lt : r < ((c.sourcesOf a).map Source.name).length := by
      rw [List.length_map]
      exact (List.getElem?_eq_some_iff.1 hr).1
    have hsame : r = r' := (List.getElem?_inj hr_lt hnamed.nodup).1 (by simp [hr, hr', hname])
    omega
  refine ⟨k, l, a, b, hkl, ha, hb, hk, hl, ?_⟩
  obtain ⟨role, -, hrole⟩ := hnamed.name_of_mem (List.mem_of_getElem? hr)
  obtain ⟨role', -, hrole'⟩ := hnamed'.name_of_mem (List.mem_of_getElem? hr')
  have hroles := hname
  rw [hrole, hrole', Role.name_eq_iff] at hroles
  rcases hroles with ⟨heq, -⟩ | ⟨heq, rfl, -⟩ | ⟨heq, -, rfl⟩
  · exact .inl heq
  · exact .inr (.inl ⟨heq, hrole⟩)
  · exact .inr (.inr ⟨heq, hname.trans hrole'⟩)

theorem name_of_two_le (h : c.build = .ok d) {i : Nat} {s : Source} (hi : 2 ≤ i)
    (hs : d.sources[i]? = some s) : s.name ≠ Names.table ∧ s.name ≠ Names.filteredTable := by
  obtain ⟨k, m, r, hm, hr, -, -⟩ := contributes_of_getElem h hi hs
  obtain ⟨rs, hnamed⟩ := sourcesOf_namedFor h (List.mem_of_getElem? hm)
  obtain ⟨role, -, hrole⟩ := hnamed.name_of_mem (List.mem_of_getElem? hr)
  rw [hrole]
  exact ⟨Role.name_ne (by decide), Role.name_ne (by decide)⟩

theorem name_of_lt_two (h : c.build = .ok d) {i : Nat} {s : Source} (hi : i < 2)
    (hs : d.sources[i]? = some s) :
    s.name = if i = 0 then Names.table else Names.filteredTable := by
  rw [sources_build h] at hs
  match i, hi with
  | 0, _ => exact congrArg Source.name (Option.some_inj.1 hs).symm
  | 1, _ => exact congrArg Source.name (Option.some_inj.1 hs).symm

/-- Sources of one name come from two marks of one name, or of a name and what the trendlines of that
name share. -/
theorem build_keepsApart (h : c.build = .ok d) : c.KeepsApart d where
  clash i j s t hne hs ht hname := by
    rcases Nat.lt_or_ge i 2 with hi | hi <;> rcases Nat.lt_or_ge j 2 with hj | hj
    · have hij : i = 0 ∧ j = 1 ∨ i = 1 ∧ j = 0 := by omega
      rw [name_of_lt_two h hi hs, name_of_lt_two h hj ht] at hname
      rcases hij with ⟨rfl, rfl⟩ | ⟨rfl, rfl⟩ <;> exact absurd hname (by decide)
    · obtain ⟨htable, hfiltered⟩ := name_of_two_le h hj ht
      rw [← hname, name_of_lt_two h hi hs] at htable hfiltered
      split_ifs at htable hfiltered <;> contradiction
    · obtain ⟨htable, hfiltered⟩ := name_of_two_le h hi hs
      rw [hname, name_of_lt_two h hj ht] at htable hfiltered
      split_ifs at htable hfiltered <;> contradiction
    · exact clash_of_ne h hne hi hj hs ht hname
  base i s hi hs := name_of_two_le h hi hs
  trendlines m hm ts hts := by
    have hnodup := (allSources_namedFor hts).nodup
    rw [allSources, List.map_append, List.nodup_append, List.map_flatMap, List.nodup_flatMap]
      at hnodup
    refine hnodup.1.2.imp fun hapart s hs s' hs' hname => ?_
    exact hapart (List.mem_map_of_mem hs) (hname ▸ List.mem_map_of_mem hs')
  marks m hm m' hm' hne ts ts' hts hts' s hs s' hs' heq := by
    obtain ⟨r, hr, hname⟩ := (allSources_namedFor hts).name_of_mem hs
    obtain ⟨r', hr', hname'⟩ := (allSources_namedFor hts').name_of_mem hs'
    rw [hname, hname', Role.name_eq_iff] at heq
    have hr := ofTrendlines_of_mem_allRoles hr
    have hr' := ofTrendlines_of_mem_allRoles hr'
    rcases heq with ⟨heq, -⟩ | ⟨-, rfl, -⟩ | ⟨-, -, rfl⟩
    · exact hne (by simpa [seriesOf] using heq)
    · cases hr
    · cases hr'

/-- The line `aTrendline` is called what the trendlines of the line `a` share. -/
theorem build_keepsApart_clash :
    let c : Chart := { marks := [
      .line { name := "a", children := [.trendline [.tooltip []] {}] },
      .line { name := "aTrendline", children := [.tooltip []] }] }
    ∃ d, c.build = .ok d ∧ c.KeepsApart d ∧ ∃ s t, d.sources[6]? = some s ∧
      d.sources[7]? = some t ∧ s.name = t.name ∧ c.Clash 6 7 s t := by
  intro c
  have h : c.build = .ok _ := rfl
  have hapart := build_keepsApart h
  exact ⟨_, h, hapart, _, _, rfl, rfl, rfl, hapart.clash 6 7 _ _ (by decide) rfl rfl rfl⟩

end Chart

end ChartCompiler
