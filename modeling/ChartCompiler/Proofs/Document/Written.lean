import ChartCompiler.Proofs.Document.Resolves

/-! The language that documents are written in: fields of the row, signals, literals, operators, a
few functions, scales that are asked for by name, and no field of anything but the row. What is
written with the names of a scope resolves in it. -/

namespace ChartCompiler

/-- What documents are written with: the names of a scope, and the numbers that are not counts. -/
structure Vocabulary extends Scope where
  number : Number → Prop

def Scope.vocabulary (σ : Scope) : Vocabulary := { σ with number := fun _ => True }

variable {V : Vocabulary}

namespace Expr

/-- The functions that a document calls, those apart that ask for a scale. -/
def functions : List String := ["toDate", "indexof", "length", "exp", "log", "pow"]

def scaleFunctions : List String := ["scale", "domain"]

inductive Written (V : Vocabulary) : Expr → Prop
  | signal {n : String} (h : V.signal n) : Written V (.ident n)
  | datum (f : String) : Written V (.datum f)
  | nestedDatum (f : String) : Written V (.nestedDatum f)
  | index {e i : Expr} (he : Written V e) (hi : Written V i) : Written V (.index e i)
  | nat {n : Nat} (h : n < Nat.pow 2 32) : Written V (.nat n)
  | number {v : Number} (h : V.number v) : Written V (.number v)
  | string (s : String) : Written V (.string s)
  | bool (b : Bool) : Written V (.bool b)
  | null : Written V .null
  | not {e : Expr} (he : Written V e) : Written V (.not e)
  | binary {op : Operator} {l r : Expr} (hl : Written V l) (hr : Written V r) :
    Written V (.binary op l r)
  | call {f : String} {args : List Expr} (hf : f ∈ functions) (hargs : ∀ a ∈ args, Written V a) :
    Written V (.call f args)
  | scale {f s : String} {args : List Expr} (hf : f ∈ scaleFunctions) (hs : V.scale s)
    (hargs : ∀ a ∈ args, Written V a) : Written V (.call f (.string s :: args))

def function? : Expr → Option String
  | .call f _ => some f
  | _ => none

def calls (e : Expr) : List String := e.parts.filterMap function?

@[simp] theorem written_datum (f : String) : (datum f).Written V := .datum f

@[simp] theorem written_signal {n : String} : (signal n).Written V ↔ V.signal n := by
  constructor
  · rintro ⟨⟩
    assumption
  · exact .signal

theorem functions_disjoint : ∀ f ∈ functions, f ∉ scaleFunctions := by decide

theorem mem_calledScale? {f n : String} {args : List Expr} :
    n ∈ (call f args).calledScale? ↔ f ∈ scaleFunctions ∧ args.head? = some (.string n) := by
  rcases args with _ | ⟨a, args⟩
  · simp [calledScale?]
  · cases a <;> simp [calledScale?, scaleFunctions]

namespace Written

variable {e : Expr}

/-- A chain of operators is written as its operands are. -/
theorem join {op : Operator} {es : List Expr} (h : ∀ e ∈ es, e.Written V) :
    ∀ e ∈ Expr.join op es, e.Written V := by
  cases es with
  | nil => simp [Expr.join]
  | cons e es =>
    obtain ⟨he, hes⟩ := List.forall_mem_cons.1 h
    suffices (es.foldl (Expr.binary op) e).Written V by simpa [Expr.join] using this
    clear h
    induction es generalizing e with
    | nil => exact he
    | cons e' es ih =>
      obtain ⟨he', hes⟩ := List.forall_mem_cons.1 hes
      exact ih _ (he.binary he') hes

theorem function {f : String} (hf : f ∈ functions) (he : e.Written V) : (Expr.call f [e]).Written V :=
  .call hf (List.forall_mem_singleton.2 he)

theorem function₂ {f : String} {e' : Expr} (hf : f ∈ functions) (he : e.Written V)
    (he' : e'.Written V) : (Expr.call f [e, e']).Written V :=
  .call hf (List.forall_mem_cons.2 ⟨he, List.forall_mem_singleton.2 he'⟩)

/-- What stands inside a written expression is written too, the row in front of a field apart. -/
theorem of_mem_parts (h : e.Written V) : ∀ p ∈ e.parts, p = .ident "datum" ∨ p.Written V := by
  have hargs {args : List Expr}
      (ih : ∀ a ∈ args, ∀ p ∈ a.parts, p = .ident "datum" ∨ p.Written V) :
      ∀ p ∈ partsOfArgs args, p = .ident "datum" ∨ p.Written V := by
    intro p hp
    obtain ⟨a, ha, hp⟩ := mem_partsOfArgs.1 hp
    exact ih a ha p hp
  induction h with
  | signal h => exact List.forall_mem_singleton.2 (.inr (.signal h))
  | datum f =>
    exact List.forall_mem_cons.2 ⟨.inr (.datum f), List.forall_mem_singleton.2 (.inl rfl)⟩
  | nestedDatum f =>
    exact List.forall_mem_cons.2 ⟨.inr (.nestedDatum f),
      List.forall_mem_cons.2 ⟨.inr (.datum "datum"), List.forall_mem_singleton.2 (.inl rfl)⟩⟩
  | index he hi ihe ihi =>
    exact List.forall_mem_cons.2 ⟨.inr (he.index hi), List.forall_mem_append.2 ⟨ihe, ihi⟩⟩
  | nat h => exact List.forall_mem_singleton.2 (.inr (.nat h))
  | number h => exact List.forall_mem_singleton.2 (.inr (.number h))
  | string s => exact List.forall_mem_singleton.2 (.inr (.string s))
  | bool b => exact List.forall_mem_singleton.2 (.inr (.bool b))
  | null => exact List.forall_mem_singleton.2 (.inr .null)
  | not he ihe => exact List.forall_mem_cons.2 ⟨.inr he.not, ihe⟩
  | binary hl hr ihl ihr =>
    exact List.forall_mem_cons.2 ⟨.inr (hl.binary hr), List.forall_mem_append.2 ⟨ihl, ihr⟩⟩
  | call hf hall ih => exact List.forall_mem_cons.2 ⟨.inr (.call hf hall), hargs ih⟩
  | scale hf hs hall ih =>
    exact List.forall_mem_cons.2 ⟨.inr (.scale hf hs hall),
      List.forall_mem_cons.2 ⟨.inr (.string _), hargs ih⟩⟩

theorem calls (h : e.Written V) : ∀ f ∈ e.calls, f ∈ functions ++ scaleFunctions := by
  intro f hf
  obtain ⟨p, hp, hpf⟩ := List.mem_filterMap.1 hf
  rcases h.of_mem_parts p hp with rfl | hw
  · cases hpf
  · cases hw with
    | call hf _ => exact List.mem_append_left _ (Option.some.inj hpf ▸ hf)
    | scale hf _ _ => exact List.mem_append_right _ (Option.some.inj hpf ▸ hf)
    | _ => cases hpf

/-- What a written expression names itself is there. -/
theorem known (h : e.Written V) : e.Known V.toScope := by
  cases h with
  | signal h => exact ⟨by simpa [ident?] using h, nofun⟩
  | call hf _ =>
    exact ⟨nofun, fun n hn => absurd (mem_calledScale?.1 hn).1 (functions_disjoint _ hf)⟩
  | scale _ hs _ =>
    refine ⟨nofun, fun n hn => ?_⟩
    cases (mem_calledScale?.1 hn).2
    exact hs
  | _ => exact ⟨nofun, nofun⟩

theorem resolves (hdatum : V.signal "datum") (h : e.Written V) : e.Resolves V.toScope := by
  intro p hp
  rcases h.of_mem_parts p hp with rfl | hw
  · exact ⟨by simpa [ident?] using hdatum, nofun⟩
  · exact hw.known

end Written

end Expr

structure ChannelValue.Written (V : Vocabulary) (v : ChannelValue) : Prop where
  exprs : ∀ e ∈ v.exprs, e.Written V
  scale : ∀ n ∈ v.scale, V.scale n

namespace ChannelValue

variable {v : ChannelValue} {e : Expr}

@[simp] theorem written_literal (j : Json) : (literal j).Written V := ⟨nofun, nofun⟩

@[simp] theorem written_float (x : Number) : (float x).Written V := written_literal _

@[simp] theorem written_ofText (s : String) : (ofText s).Written V := written_literal _

@[simp] theorem written_scaled {s f : String} : (scaled s f).Written V ↔ V.scale s :=
  ⟨fun h => h.scale s rfl, fun h => ⟨nofun, by simpa [scaled] using h⟩⟩

@[simp] theorem written_ofSignal : (ofSignal e).Written V ↔ e.Written V :=
  ⟨fun h => h.exprs e List.mem_cons_self, fun h => ⟨List.forall_mem_singleton.2 h, nofun⟩⟩

theorem Written.guarded (h : v.Written V) (he : e.Written V) : (v.guarded e).Written V where
  exprs := by
    have hsignal : ∀ e ∈ v.signal.toList, e.Written V := fun e he =>
      h.exprs e (List.mem_append_right _ he)
    exact List.forall_mem_cons.2 ⟨he, hsignal⟩
  scale := h.scale

theorem Written.resolves (hdatum : V.signal "datum") (h : v.Written V) : v.Resolves V.toScope where
  exprs e he := (h.exprs e he).resolves hdatum
  scale := h.scale

end ChannelValue

def Rule.Written (V : Vocabulary) (r : Rule) : Prop := ∀ v ∈ r.values, v.Written V

@[simp] theorem Rule.written_single {v : ChannelValue} : (Rule.single v).Written V ↔ v.Written V :=
  List.forall_mem_singleton

theorem Rule.written_firstOf {vs : List ChannelValue} :
    (Rule.firstOf vs).Written V ↔ ∀ v ∈ vs, v.Written V := Iff.rfl

def Transform.Written (V : Vocabulary) (t : Transform) : Prop := ∀ e ∈ t.exprs, e.Written V

namespace Transform

variable {e : Expr} {t : Transform}

@[simp] theorem written_filter : (filter e).Written V ↔ e.Written V := List.forall_mem_singleton

@[simp] theorem written_formula {f : String} : (formula e f).Written V ↔ e.Written V :=
  List.forall_mem_singleton

theorem Written.resolves (hdatum : V.signal "datum") (h : t.Written V) : t.Resolves V.toScope :=
  fun e he => (h e he).resolves hdatum

end Transform

structure Mark.Written (V : Vocabulary) (m : Mark) : Prop where
  channels : ∀ c ∈ m.channels, c.2.Written V
  transforms : ∀ t ∈ m.transforms, t.Written V

namespace Mark

variable {m : Mark} {enclosing : Option Partition}

theorem Written.resolves (hdatum : V.signal "datum") (h : m.Written V) : m.Resolves V.toScope where
  channels c hc v hv := (h.channels c hc v hv).resolves hdatum
  transforms t ht := (h.transforms t ht).resolves hdatum

/-- A mark is written as the rules that its channels are set to. -/
theorem written_of_rules {enter update : List (String × Rule)}
    (he : m.encode = some { enter := .ofList enter, update := .ofList update })
    (hchannels : ∀ c ∈ enter ++ update, c.2.Written V)
    (htransforms : ∀ t ∈ m.transforms, t.Written V) : m.Written V where
  channels c hc := hchannels c (mem_channels_of_rules he hc)
  transforms := htransforms

end Mark

end ChartCompiler
