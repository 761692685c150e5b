import ChartCompiler.Proofs.Build.Drawn
import ChartCompiler.Proofs.Build.Parts
import ChartCompiler.Proofs.Build.Suffix
import Mathlib.Data.List.Nodup

/-! The names of the sources that marks bring along. Each source has a role for its mark, and its name
is the mark's, told apart by the role. The roles of one mark differ, and the names that two marks
make are the same only where the marks have one name, or where the highlighted rows of a mark meet
those of the trendlines of another. -/

namespace ChartCompiler

open Trendline

/-- What a source is for: the shown points of a mark, or its trendlines, a single one by its place.
-/
inductive Role
  | staticPoints
  | highlighted
  | curve (index : Nat)
  | params (index : Nat)
  | rows (index : Nat)
  | combined
  | highlightedRows
  deriving DecidableEq

namespace Role

def stem (mark : String) : Role → String
  | staticPoints | highlighted | combined => mark
  | highlightedRows => sharedName mark
  | curve i | params i | rows i => sharedName mark ++ toString i

def suffix : Role → String
  | staticPoints => "_staticPointData"
  | highlighted | highlightedRows => "_highlightedData"
  | curve _ => "_highResolutionData"
  | params _ => "_params"
  | rows _ => "_data"
  | combined => "_allTrendlineData"

def name (mark : String) (r : Role) : String := r.stem mark ++ r.suffix

def ofTrendlines : Role → Bool
  | staticPoints | highlighted => false
  | _ => true

variable {r s : Role} {a b : String}

theorem isSuffix_suffix (r : Role) : IsSuffix r.suffix := by
  have hall : ∀ s ∈ ["_staticPointData", "_highlightedData", "_highResolutionData", "_params",
      "_data", "_allTrendlineData"], IsSuffix s := by decide
  cases r <;> exact hall _ (by simp [suffix])

/-- Two roles of two marks make the same name only if both are the same, or if one mark is called
what the trendlines of the other share. -/
theorem name_eq_iff : r.name a = s.name b ↔
    (a = b ∧ r = s) ∨ (a = sharedName b ∧ r = highlighted ∧ s = highlightedRows) ∨
      (b = sharedName a ∧ r = highlightedRows ∧ s = highlighted) := by
  rw [name, name, append_suffix_inj r.isSuffix_suffix s.isSuffix_suffix]
  cases r <;> cases s <;> simp [stem, suffix, sharedName_inj, numbered_inj, eq_comm]

theorem sharedName_ne (a : String) : sharedName a ≠ a := by
  intro h
  have hlength := congrArg String.length h
  simp [sharedName] at hlength

theorem name_inj : r.name a = s.name a ↔ r = s := by
  simp [name_eq_iff, (sharedName_ne a).symm]

theorem name_ne {n : String} (hn : '_' ∉ n.toList) : r.name a ≠ n :=
  append_suffix_ne r.isSuffix_suffix hn

end Role

/-- A computation goes on only from what was computed. -/
theorem bind_eq_ok {ε α β : Type} {x : Except ε α} {f : α → Except ε β} {b : β} :
    x >>= f = .ok b ↔ ∃ a, x = .ok a ∧ f a = .ok b := by
  cases x <;> simp [bind, Except.bind]

def Source.NamedFor (mark : String) (rs : List Role) (ss : List Source) : Prop :=
  rs.Nodup ∧ ss.map Source.name = rs.map (Role.name mark)

theorem Source.NamedFor.nodup {mark : String} {rs : List Role} {ss : List Source}
    (h : NamedFor mark rs ss) : (ss.map Source.name).Nodup := by
  rw [h.2]
  exact h.1.map fun r s hrs => Role.name_inj.1 hrs

theorem Source.NamedFor.name_of_mem {mark : String} {rs : List Role} {ss : List Source}
    (h : NamedFor mark rs ss) {s : Source} (hs : s ∈ ss) : ∃ r ∈ rs, s.name = r.name mark := by
  have hname : s.name ∈ rs.map (Role.name mark) := h.2 ▸ List.mem_map_of_mem hs
  obtain ⟨r, hr, hname⟩ := List.mem_map.1 hname
  exact ⟨r, hr, hname.symm⟩

namespace Trendline

variable {m : SeriesMark} {t : Trendline} {ts : List Trendline}

def roles (index : Nat) (t : Trendline) : List Role :=
  if t.method.isRegression then
    .curve index :: if t.isInteractive then [.params index, .rows index] else []
  else [.rows index]

def rolesFrom : Nat → List Trendline → List Role
  | _, [] => []
  | index, t :: ts => roles index t ++ rolesFrom (index + 1) ts

def combinedRoles (ts : List Trendline) : List Role :=
  if ts.any isInteractive then [.combined, .highlightedRows] else []

def allRoles (ts : List Trendline) : List Role := rolesFrom 0 ts ++ combinedRoles ts

/-- Trendlines that are named by their mark and their places from an index on. -/
def Numbered (mark : String) : Nat → List Trendline → Prop
  | _, [] => True
  | index, t :: ts => t.name = sharedName mark ++ index.repr ∧ Numbered mark (index + 1) ts

theorem name_of_ofOptions {children : List Child} {o : TrendlineOptions} {mark : String} {index : Nat}
    (h : ofOptions children o mark index = .ok t) : t.name = sharedName mark ++ index.repr := by
  rw [ofOptions] at h
  split at h <;>
  · obtain ⟨method, -, h⟩ := bind_eq_ok.1 h
    cases h
    rfl

theorem numbered_ofListFrom {mark : String} {index : Nat} {os : List (List Child × TrendlineOptions)}
    (h : ofListFrom mark index os = .ok ts) : Numbered mark index ts := by
  induction os generalizing index ts with
  | nil =>
    cases h
    trivial
  | cons o os ih =>
    rw [ofListFrom] at h
    obtain ⟨t, ht, h⟩ := bind_eq_ok.1 h
    obtain ⟨ts, hts, h⟩ := bind_eq_ok.1 h
    cases h
    exact ⟨name_of_ofOptions ht, ih hts⟩

theorem numbered_of_ok (h : m.trendlines = .ok ts) : Numbered m.name 0 ts := numbered_ofListFrom h

theorem sources_name {index : Nat} (h : t.name = sharedName m.name ++ index.repr) :
    (sources m t).map Source.name = (roles index t).map (Role.name m.name) := by
  have hcurve : t.curveSource = Role.name m.name (.curve index) := by rw [curveSource, h]; rfl
  have hparams : t.paramsSource = Role.name m.name (.params index) := by rw [paramsSource, h]; rfl
  have hrows : t.rowSource = Role.name m.name (.rows index) := by rw [rowSource, h]; rfl
  rw [sources, roles]
  split_ifs <;> simp [hcurve, hparams, hrows]

theorem Numbered.sources_name {index : Nat} (h : Numbered m.name index ts) :
    (ts.flatMap (sources m)).map Source.name = (rolesFrom index ts).map (Role.name m.name) := by
  induction ts generalizing index with
  | nil => rfl
  | cons t ts ih =>
    rw [List.flatMap_cons, List.map_append, Trendline.sources_name h.1, ih h.2, rolesFrom,
      List.map_append]

theorem index_of_mem_roles {index : Nat} {r : Role} (h : r ∈ roles index t) :
    r = .curve index ∨ r = .params index ∨ r = .rows index := by
  rw [roles] at h
  split_ifs at h <;> simp only [List.mem_cons, List.not_mem_nil, or_false] at h
  · exact h
  · exact .inl h
  · exact .inr (.inr h)

theorem index_of_mem_rolesFrom {index : Nat} {r : Role} (h : r ∈ rolesFrom index ts) :
    ∃ i, index ≤ i ∧ (r = .curve i ∨ r = .params i ∨ r = .rows i) := by
  induction ts generalizing index with
  | nil => exact absurd h List.not_mem_nil
  | cons t ts ih =>
    rcases List.mem_append.1 h with h | h
    · exact ⟨index, Nat.le_refl _, index_of_mem_roles h⟩
    · obtain ⟨i, hi, hr⟩ := ih h
      exact ⟨i, by omega, hr⟩

theorem rolesFrom_nodup (index : Nat) (ts : List Trendline) : (rolesFrom index ts).Nodup := by
  induction ts generalizing index with
  | nil => exact List.nodup_nil
  | cons t ts ih =>
    refine List.nodup_append.2 ⟨?_, ih _, ?_⟩
    · rw [roles]
      split_ifs <;> simp
    · intro r hr r' hr' heq
      obtain ⟨i, hi, hr'⟩ := index_of_mem_rolesFrom hr'
      subst heq
      rcases index_of_mem_roles hr with rfl | rfl | rfl <;> simp at hr' <;> omega

theorem mem_combinedRoles {r : Role} (h : r ∈ combinedRoles ts) :
    r = .combined ∨ r = .highlightedRows := by
  rw [combinedRoles] at h
  split_ifs at h
  · simpa using h
  · exact absurd h List.not_mem_nil

theorem allRoles_nodup (ts : List Trendline) : (allRoles ts).Nodup := by
  refine List.nodup_append.2 ⟨rolesFrom_nodup 0 ts, ?_, ?_⟩
  · rw [combinedRoles]
    split_ifs <;> simp
  · intro r hr r' hr' heq
    obtain ⟨i, -, hr⟩ := index_of_mem_rolesFrom hr
    subst heq
    rcases mem_combinedRoles hr' with rfl | rfl <;> simp at hr

theorem ofTrendlines_of_mem_allRoles {r : Role} (h : r ∈ allRoles ts) : r.ofTrendlines := by
  rcases List.mem_append.1 h with h | h
  · obtain ⟨i, -, rfl | rfl | rfl⟩ := index_of_mem_rolesFrom h <;> rfl
  · rcases mem_combinedRoles h with rfl | rfl <;> rfl

theorem allSources_namedFor (h : m.trendlines = .ok ts) :
    Source.NamedFor m.name (allRoles ts) (allSources m ts) := by
  refine ⟨allRoles_nodup ts, ?_⟩
  rw [allSources, List.map_append, (numbered_of_ok h).sources_name, allRoles, List.map_append]
  congr 1
  rw [combinedRoles]
  split_ifs with hint
  · rw [combinedSources_of_interactive m ts (List.any_eq_true.1 hint)]
    rfl
  · have hnone : ts.filter isInteractive = [] := by simpa using hint
    simp [combinedSources, hnone]

end Trendline

namespace SeriesMark

variable {m : SeriesMark}

def lineRoles (m : SeriesMark) : List Role :=
  (if m.staticPoint.isSome then [.staticPoints] else []) ++
    if hasInteractive m.children then [.highlighted] else []

theorem lineSources_namedFor : Source.NamedFor m.name m.lineRoles m.lineSources := by
  have hstatic : m.staticPointSource = Role.name m.name .staticPoints := rfl
  have hhighlighted : m.highlightedSource = Role.name m.name .highlighted := rfl
  rw [lineRoles, lineSources]
  cases m.staticPoint <;> cases hasInteractive m.children <;>
    simp [Source.NamedFor, hstatic, hhighlighted]

end SeriesMark

namespace ChartMark

variable {m : ChartMark} {ts : List Trendline}

def ownRoles : ChartMark → List Role
  | line l => l.lineRoles
  | bar _ => []

theorem base_namedFor : Source.NamedFor m.toSeriesMark.name m.ownRoles m.base.sources := by
  cases m with
  | line l => exact l.lineSources_namedFor
  | bar b => exact ⟨List.nodup_nil, rfl⟩

theorem not_ofTrendlines_of_mem_ownRoles {r : Role} (h : r ∈ m.ownRoles) : ¬r.ofTrendlines := by
  cases m with
  | line l =>
    rcases List.mem_append.1 h with h | h <;> split_ifs at h
    · rw [List.mem_singleton.1 h]
      decide
    · exact absurd h List.not_mem_nil
    · rw [List.mem_singleton.1 h]
      decide
    · exact absurd h List.not_mem_nil
  | bar b => exact absurd h List.not_mem_nil

theorem sources_namedFor (h : m.toSeriesMark.trendlines = .ok ts) :
    Source.NamedFor m.toSeriesMark.name (m.ownRoles ++ allRoles ts) m.toCall.additions.sources := by
  obtain ⟨hown, hownNames⟩ := m.base_namedFor
  obtain ⟨htrend, htrendNames⟩ := allSources_namedFor h
  constructor
  · refine List.nodup_append.2 ⟨hown, htrend, fun r hr r' hr' heq => ?_⟩
    exact not_ofTrendlines_of_mem_ownRoles hr (heq ▸ ofTrendlines_of_mem_allRoles hr')
  · rw [additions_of_ok h, Additions.append_sources, Additions.append_sources, finish_sources,
      List.append_nil, List.map_append, List.map_append, hownNames]
    exact congrArg _ htrendNames

end ChartMark

end ChartCompiler
