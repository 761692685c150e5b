import ChartCompiler.Build.Names
import ChartCompiler.Chart.Palette
import ChartCompiler.Document.Basic
import ChartCompiler.Proofs.Document.Extend
import Mathlib.Data.List.Forall2

/-! Documents that differ in their colors only. Colors stand in three places: behind the chart, in
the ranges of color scales and in the channels for fill and stroke. In each of these places one color
stands in two schemes, and its name is one of those given. Everywhere else the documents are the
same. -/

namespace ChartCompiler

section

variable (names : String → Prop) (a b : ColorScheme)

/-- A color, or a list of colors, in two schemes. -/
inductive Json.Recolored : Json → Json → Prop
  | color {color : String} (h : names color) :
    Recolored (.text (Palette.resolve a color)) (.text (Palette.resolve b color))
  | list {js js' : List Json} (h : List.Forall₂ Recolored js js') :
    Recolored (.array js) (.array js')

/-- A value of a channel for colors. Without a literal it has no color of its own. -/
inductive ChannelValue.Recolored : ChannelValue → ChannelValue → Prop
  | same {v : ChannelValue} (h : v.value = none) : Recolored v v
  | literal {v : ChannelValue} {color : String} (hcolor : names color)
    (h : v.value = some (.text (Palette.resolve a color))) :
    Recolored v { v with value := some (.text (Palette.resolve b color)) }

inductive Rule.Recolored : Rule → Rule → Prop
  | single {v v' : ChannelValue} (h : v.Recolored names a b v') : Recolored (.single v) (.single v')
  | firstOf {vs vs' : List ChannelValue}
    (h : List.Forall₂ (ChannelValue.Recolored names a b) vs vs') :
    Recolored (.firstOf vs) (.firstOf vs')

def Channels.forColors : List String := ["fill", "stroke"]

inductive Channels.Recolored : String × Rule → String × Rule → Prop
  | same {name : String} (h : name ∉ forColors) (rule : Rule) : Recolored (name, rule) (name, rule)
  | color {name : String} (h : name ∈ forColors) {rule rule' : Rule}
    (hrule : rule.Recolored names a b rule') : Recolored (name, rule) (name, rule')

structure Encode.Recolored (e e' : Encode) : Prop where
  enter : List.Forall₂ (Channels.Recolored names a b) e.enter e'.enter
  update : List.Forall₂ (Channels.Recolored names a b) e.update e'.update

inductive Mark.Recolored : Mark → Mark → Prop
  | of (m : Mark) {encode : Option Encode} {marks : List Mark}
    (hencode : Option.Rel (Encode.Recolored names a b) m.encode encode)
    (hmarks : List.Forall₂ Recolored m.marks marks) : Recolored m { m with encode, marks }

def Scale.forColors : List String :=
  [Names.colorScale, Names.shadesScale, Names.secondaryColorScale]

inductive Scale.Recolored : Scale → Scale → Prop
  | same {s : Scale} (h : s.name ∉ forColors) : Recolored s s
  | color {s : Scale} (h : s.name ∈ forColors) (hkind : s.kind = .ordinal) {vs vs' : List Json}
    (hrange : s.range = some (.values vs)) (hvs : List.Forall₂ (Json.Recolored names a b) vs vs') :
    Recolored s { s with range := some (.values vs') }

inductive Signal.Recolored : Signal → Signal → Prop
  | same {s : Signal} (h : s.name ≠ Names.backgroundColor) : Recolored s s
  | background {s : Signal} (h : s.name = Names.backgroundColor) {color : String}
    (hcolor : names color) (hinitial : s.initial = .text (Palette.resolve a color)) :
    Recolored s { s with initial := .text (Palette.resolve b color) }

structure Document.Recolored (d d' : Document) : Prop where
  width : d'.width = d.width
  height : d'.height = d.height
  sources : d'.sources = d.sources
  scales : List.Forall₂ (Scale.Recolored names a b) d.scales d'.scales
  signals : List.Forall₂ (Signal.Recolored names a b) d.signals d'.signals
  marks : List.Forall₂ (Mark.Recolored names a b) d.marks d'.marks

end

variable {names : String → Prop} {a b : ColorScheme}

theorem forall₂_ite {α β : Type} {R : α → β → Prop} {xs : List α} {ys : List β} {p : Prop}
    [Decidable p] (h : List.Forall₂ R xs ys) :
    List.Forall₂ R (if p then xs else []) (if p then ys else []) := by
  split_ifs
  · exact h
  · exact .nil

namespace Document

variable {α : Type} {R : α → α → Prop} {name : α → String}

theorem any_name_eq (hname : ∀ x y, R x y → name x = name y) {xs ys : List α}
    (h : List.Forall₂ R xs ys) (n : String) : xs.any (name · == n) = ys.any (name · == n) := by
  induction h with
  | nil => rfl
  | @cons x y _ _ hxy _ ih => rw [List.any_cons, List.any_cons, hname x y hxy, ih]

/-- Items that keep their names extend a list alike. -/
theorem forall₂_extend (hname : ∀ x y, R x y → name x = name y) {old old' new new' : List α}
    (hold : List.Forall₂ R old old') (hnew : List.Forall₂ R new new') :
    List.Forall₂ R (extend name old new) (extend name old' new') := by
  induction hnew generalizing old old' with
  | nil => exact hold
  | @cons x y xs ys hxy _ ih =>
    have htaken : old.any (name · == name x) = old'.any (name · == name y) := by
      rw [← hname x y hxy, any_name_eq hname hold]
    by_cases h : old.any (name · == name x)
    · rw [extend_cons_taken h, extend_cons_taken (htaken ▸ h)]
      exact ih hold
    · have h : old.any (name · == name x) = false := by simpa using h
      rw [extend_cons_fresh h, extend_cons_fresh (htaken ▸ h)]
      exact ih (List.rel_append hold (.cons hxy .nil))

end Document

namespace Channels

variable {n : String} {r r' : Rule}

theorem Recolored.name {c c' : String × Rule} (h : Recolored names a b c c') : c.1 = c'.1 := by
  cases h <;> rfl

theorem uncolored {cs : List (String × Rule)} (h : ∀ c ∈ cs, c.1 ∉ forColors) :
    List.Forall₂ (Recolored names a b) cs cs :=
  List.forall₂_same.2 fun c hc => .same (h c hc) c.2

theorem set_recolored {cs cs' : Channels} (hcs : List.Forall₂ (Recolored names a b) cs cs')
    (hr : Recolored names a b (n, r) (n, r')) :
    List.Forall₂ (Recolored names a b) (set cs n r) (set cs' n r') := by
  induction hcs with
  | nil => exact .cons hr .nil
  | @cons c c' cs cs' hc hcs ih =>
    obtain ⟨k, _⟩ := c
    obtain ⟨k', _⟩ := c'
    obtain rfl : k = k' := hc.name
    rw [set, set]
    split_ifs with h
    · subst h
      exact .cons hr hcs
    · exact .cons hc ih

theorem ofList_recolored {cs cs' : List (String × Rule)}
    (h : List.Forall₂ (Recolored names a b) cs cs') :
    List.Forall₂ (Recolored names a b) (ofList cs) (ofList cs') := by
  have hfold {done done' : Channels} (hdone : List.Forall₂ (Recolored names a b) done done') :
      List.Forall₂ (Recolored names a b) (cs.foldl (fun cs c => set cs c.1 c.2) done)
        (cs'.foldl (fun cs c => set cs c.1 c.2) done') := by
    induction h generalizing done done' with
    | nil => exact hdone
    | @cons c c' cs cs' hc _ ih =>
      obtain ⟨k, _⟩ := c
      obtain ⟨k', _⟩ := c'
      obtain rfl : k = k' := hc.name
      exact ih (set_recolored hdone hc)
  exact hfold .nil

end Channels

/-- A mark without marks inside it is in two schemes if its channels are. -/
theorem Mark.Recolored.leaf {m : Mark} {enter enter' update update' : List (String × Rule)}
    (hencode : m.encode = some { enter := .ofList enter, update := .ofList update })
    (hmarks : m.marks = []) (henter : List.Forall₂ (Channels.Recolored names a b) enter enter')
    (hupdate : List.Forall₂ (Channels.Recolored names a b) update update') :
    m.Recolored names a b
      { m with encode := some { enter := .ofList enter', update := .ofList update' } } := by
  obtain ⟨name, shape, input, clip, interactive, encode, marks, transforms⟩ := m
  subst hencode hmarks
  exact .of _ (.some ⟨Channels.ofList_recolored henter, Channels.ofList_recolored hupdate⟩) .nil

/-- A mark at a place, with a fill and a stroke. -/
theorem Mark.Recolored.filled {m : Mark} {place : String}
    {position fill fill' stroke stroke' : Rule} {update : List (String × Rule)}
    (hencode : m.encode = some {
      enter := .ofList [(place, position), ("fill", fill), ("stroke", stroke)]
      update := .ofList update })
    (hmarks : m.marks = []) (hplace : place ∉ Channels.forColors)
    (hfill : fill.Recolored names a b fill') (hstroke : stroke.Recolored names a b stroke')
    (hupdate : ∀ c ∈ update, c.1 ∉ Channels.forColors) :
    m.Recolored names a b { m with encode := some {
      enter := .ofList [(place, position), ("fill", fill'), ("stroke", stroke')]
      update := .ofList update } } := by
  refine .leaf hencode hmarks (.cons (.same hplace _) (.cons ?_ (.cons ?_ .nil)))
    (Channels.uncolored hupdate)
  · exact .color (by decide) hfill
  · exact .color (by decide) hstroke

end ChartCompiler
