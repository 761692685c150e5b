import ChartCompiler.Document.Basic
import ChartCompiler.Proofs.Document.Placed
import Mathlib.Tactic.SplitIfs

/-! The names that a document looks up: signals in its expressions, and scales in the channels of
its marks, by the scale of a channel or in a call. Names resolve in a scope, which says of every
name whether there is a signal or a scale called so. -/

namespace ChartCompiler

namespace Expr

mutual

def parts : Expr → List Expr
  | .ident n => [.ident n]
  | .member e p => .member e p :: parts e
  | .index e i => .index e i :: (parts e ++ parts i)
  | .number v => [.number v]
  | .string s => [.string s]
  | .bool b => [.bool b]
  | .null => [.null]
  | .not e => .not e :: parts e
  | .binary op l r => .binary op l r :: (parts l ++ parts r)
  | .call f args => .call f args :: partsOfArgs args

def partsOfArgs : List Expr → List Expr
  | [] => []
  | e :: es => parts e ++ partsOfArgs es

end

def ident? : Expr → Option String
  | .ident n => some n
  | _ => none

def calledScale? : Expr → Option String
  | .call f (.string s :: _) => if f = "scale" ∨ f = "domain" then some s else none
  | _ => none

def names (e : Expr) : List String := e.parts.filterMap ident?

def calledScales (e : Expr) : List String := e.parts.filterMap calledScale?

end Expr

namespace ChannelValue

def exprs (v : ChannelValue) : List Expr := v.test.toList ++ v.signal.toList

def scales (v : ChannelValue) : List String := v.scale.toList ++ v.exprs.flatMap Expr.calledScales

end ChannelValue

def Transform.exprs : Transform → List Expr
  | .filter e => [e]
  | .formula e _ => [e]
  | .voronoi x y size => x :: y :: size.flatMap ChannelValue.exprs
  | .identifier _ | .joinAggregate _ | .lookup _ | .regression _ | .window _ => []

def Mark.channels (m : Mark) : List (String × Rule) :=
  m.encode.toList.flatMap fun e => e.enter ++ e.update

namespace Document

/-- A value stands in a channel of some mark, at any depth. -/
def Shows (d : Document) (channel : String) (v : ChannelValue) : Prop :=
  ∃ enclosing earlier m rule, Placed d.marks enclosing earlier m ∧ (channel, rule) ∈ m.channels ∧
    v ∈ rule.values

/-- The places where expressions stand. -/
inductive Evaluates (d : Document) (e : Expr) : Prop
  | source {s : Source} {t : Transform} (hs : s ∈ d.sources) (ht : t ∈ s.transforms)
    (he : e ∈ t.exprs)
  | update {s : Signal} {u : SignalUpdate} (hs : s ∈ d.signals) (hu : u ∈ s.updates)
    (he : e = u.value)
  | transform {enclosing : Option Partition} {earlier : List Mark} {m : Mark} {t : Transform}
    (hm : Placed d.marks enclosing earlier m) (ht : t ∈ m.transforms) (he : e ∈ t.exprs)
  | channel {channel : String} {v : ChannelValue} (hv : d.Shows channel v) (he : e ∈ v.exprs)

end Document

structure Scope where
  signal : String → Prop
  scale : String → Prop

variable {σ : Scope}

/-- What an expression names itself, the parts inside it apart, is there. -/
def Expr.Known (σ : Scope) (e : Expr) : Prop :=
  (∀ n ∈ e.ident?, σ.signal n) ∧ ∀ n ∈ e.calledScale?, σ.scale n

def Expr.Resolves (σ : Scope) (e : Expr) : Prop := ∀ p ∈ e.parts, p.Known σ

structure ChannelValue.Resolves (σ : Scope) (v : ChannelValue) : Prop where
  exprs : ∀ e ∈ v.exprs, e.Resolves σ
  scale : ∀ n ∈ v.scale, σ.scale n

def Rule.Resolves (σ : Scope) (r : Rule) : Prop := ∀ v ∈ r.values, v.Resolves σ

def Transform.Resolves (σ : Scope) (t : Transform) : Prop := ∀ e ∈ t.exprs, e.Resolves σ

structure Mark.Resolves (σ : Scope) (m : Mark) : Prop where
  channels : ∀ c ∈ m.channels, c.2.Resolves σ
  transforms : ∀ t ∈ m.transforms, t.Resolves σ

namespace Expr

variable {e l r : Expr} {op : Operator}

theorem Resolves.signal (h : e.Resolves σ) : ∀ n ∈ e.names, σ.signal n := by
  intro n hn
  obtain ⟨p, hp, hpn⟩ := List.mem_filterMap.1 hn
  exact (h p hp).1 n hpn

theorem Resolves.scale (h : e.Resolves σ) : ∀ n ∈ e.calledScales, σ.scale n := by
  intro n hn
  obtain ⟨p, hp, hpn⟩ := List.mem_filterMap.1 hn
  exact (h p hp).2 n hpn

theorem mem_partsOfArgs {p : Expr} {args : List Expr} :
    p ∈ partsOfArgs args ↔ ∃ a ∈ args, p ∈ a.parts := by
  induction args with
  | nil => simp [partsOfArgs]
  | cons a args ih => simp [partsOfArgs, ih]

/-- What is collected from the parts of a chain, where its operators give nothing, is collected from
its operands. -/
theorem filterMap_parts_foldl {α : Type} {pick : Expr → Option α}
    (hop : ∀ l r, pick (.binary op l r) = none) (es : List Expr) (e : Expr) :
    (es.foldl (.binary op) e).parts.filterMap pick =
      e.parts.filterMap pick ++ es.flatMap fun e => e.parts.filterMap pick := by
  induction es generalizing e with
  | nil => rw [List.foldl_nil, List.flatMap_nil, List.append_nil]
  | cons e' es ih =>
    rw [List.foldl_cons, ih, parts, List.filterMap_cons_none (hop e e'), List.filterMap_append,
      List.flatMap_cons, List.append_assoc]

end Expr

namespace ChannelValue

variable {v : ChannelValue} {e : Expr}

theorem Resolves.scales (h : v.Resolves σ) : ∀ n ∈ v.scales, σ.scale n := by
  intro n hn
  rcases List.mem_append.1 hn with hn | hn
  · exact h.scale n (Option.mem_toList.1 hn)
  · obtain ⟨e, he, hn⟩ := List.mem_flatMap.1 hn
    exact (h.exprs e he).scale n hn

end ChannelValue

namespace Channels

theorem mem_of_mem_set {cs : Channels} {n : String} {r : Rule} :
    ∀ c ∈ set cs n r, c ∈ cs ∨ c = (n, r) := by
  induction cs with
  | nil => simp [set]
  | cons c' cs ih =>
    intro c hc
    rw [set] at hc
    split_ifs at hc with hn
    · rcases List.mem_cons.1 hc with hc | hc
      · exact .inr (hn ▸ hc)
      · exact .inl (List.mem_cons_of_mem _ hc)
    · rcases List.mem_cons.1 hc with rfl | hc
      · exact .inl List.mem_cons_self
      · exact (ih c hc).imp (List.mem_cons_of_mem _) id

/-- A channel that is set twice has its last rule, so nothing new comes in. -/
theorem ofList_subset (cs : List (String × Rule)) : ofList cs ⊆ cs := by
  suffices ∀ done : Channels, ∀ c ∈ cs.foldl (fun cs c => set cs c.1 c.2) done, c ∈ done ∨ c ∈ cs by
    intro c hc
    simpa using this [] c hc
  induction cs with
  | nil => simp
  | cons c' cs ih =>
    intro done c hc
    rcases ih _ c hc with hc | hc
    · rcases mem_of_mem_set c hc with hc | hc
      · exact .inl hc
      · exact .inr (hc ▸ List.mem_cons_self)
    · exact .inr (List.mem_cons_of_mem _ hc)

theorem set_fresh {cs : Channels} {n : String} (h : n ∉ cs.map Prod.fst) (r : Rule) :
    set cs n r = cs ++ [(n, r)] := by
  induction cs with
  | nil => rfl
  | cons c cs ih =>
    rw [List.map_cons, List.mem_cons, not_or] at h
    rw [set, if_neg (Ne.symm h.1), ih h.2, List.cons_append]

/-- Channels that are set once are those of the list. -/
theorem ofList_of_nodup {cs : List (String × Rule)} (h : (cs.map Prod.fst).Nodup) :
    ofList cs = cs := by
  suffices ∀ done : Channels, ((done ++ cs).map Prod.fst).Nodup →
      cs.foldl (fun cs c => set cs c.1 c.2) done = done ++ cs from this [] h
  clear h
  induction cs with
  | nil => simp
  | cons c cs ih =>
    intro done h
    have hfresh : c.1 ∉ done.map Prod.fst := by
      rw [List.map_append, List.map_cons, List.nodup_append] at h
      exact fun hc => h.2.2 _ hc _ List.mem_cons_self rfl
    rw [List.foldl_cons, set_fresh hfresh, ih _ (by simpa using h), List.append_assoc]
    rfl

end Channels

namespace Mark

variable {m : Mark}

theorem mem_channels_of_rules {enter update : List (String × Rule)}
    (he : m.encode = some { enter := .ofList enter, update := .ofList update })
    {c : String × Rule} (hc : c ∈ m.channels) : c ∈ enter ++ update := by
  simp only [channels, he, Option.toList_some, List.flatMap_cons, List.flatMap_nil,
    List.append_nil, List.mem_append] at hc
  refine List.mem_append.2 ?_
  exact hc.imp (fun h => Channels.ofList_subset _ h) (fun h => Channels.ofList_subset _ h)

theorem channels_of_rules {enter update : List (String × Rule)}
    (he : m.encode = some { enter := .ofList enter, update := .ofList update })
    (henter : (enter.map Prod.fst).Nodup) (hupdate : (update.map Prod.fst).Nodup) :
    m.channels = enter ++ update := by
  simp [channels, he, Channels.ofList_of_nodup henter, Channels.ofList_of_nodup hupdate]

/-- A property of a mark and the group around it holds of a mark and of all inside it. -/
inductive Throughout (P : Option Partition → Mark → Prop) : Option Partition → Mark → Prop
  | intro {enclosing : Option Partition} {m : Mark} (h : P enclosing m)
    (hin : ∀ n ∈ m.marks, Throughout P m.partition? n) : Throughout P enclosing m

variable {P : Option Partition → Mark → Prop} {enclosing : Option Partition}

theorem Throughout.leaf (hm : m.marks = []) (h : P enclosing m) : m.Throughout P enclosing :=
  .intro h (by simp [hm])

theorem Throughout.imp {Q : Option Partition → Mark → Prop}
    (hpq : ∀ enclosing m, P enclosing m → Q enclosing m) (h : m.Throughout P enclosing) :
    m.Throughout Q enclosing := by
  induction h with
  | intro h _ ih => exact .intro (hpq _ _ h) ih

theorem Throughout.of_placed {forest : List Mark} {earlier : List Mark}
    (h : ∀ m ∈ forest, m.Throughout P none) (hm : Placed forest enclosing earlier m) :
    P enclosing m := by
  suffices m.Throughout P enclosing by
    cases this with
    | intro h _ => exact h
  induction hm with
  | top hforest => exact h _ (by simp [hforest])
  | inside _ hmarks ih =>
    cases ih with
    | intro _ hin => exact hin _ (by simp [hmarks])

end Mark

end ChartCompiler
