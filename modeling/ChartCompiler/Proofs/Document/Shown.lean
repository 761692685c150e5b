import ChartCompiler.Proofs.Document.MarkOrder
import ChartCompiler.Proofs.Document.Placed

/-! What the value of a document shows. A path goes into a value by the names of members and the
indices of items. The sources, scales and signals of a document stand in three lists, each item at
its index there. A mark stands in the value where it stands in the document, at the same place by
the lists of marks of the groups around it. So whatever is asked of an item of the value is asked of
the item of the document. -/

namespace ChartCompiler

namespace Json

inductive Key
  | member (name : String)
  | item (index : Nat)

def step? : Json → Key → Option Json
  | .object ms, .member name => ms.lookup name
  | .array js, .item i => js[i]?
  | _, _ => none

def at? (j : Json) : List Key → Option Json
  | [] => some j
  | k :: path => (j.step? k).bind fun inner => inner.at? path

@[simp] theorem at?_nil (j : Json) : j.at? [] = some j := rfl

theorem at?_cons (j : Json) (k : Key) (path : List Key) :
    j.at? (k :: path) = (j.step? k).bind fun inner => inner.at? path := rfl

@[simp] theorem at?_singleton (j : Json) (k : Key) : j.at? [k] = j.step? k := by
  rw [at?_cons]
  cases j.step? k <;> rfl

section Members

variable {n name : String} {ms : List (Option (String × Json))} {j : Json}

@[simp] theorem step?_ofMembers_nil : (ofMembers []).step? (.member name) = none := rfl

@[simp] theorem step?_ofMembers_some (v : Json) :
    (ofMembers (some (n, v) :: ms)).step? (.member name) =
      if name = n then some v else (ofMembers ms).step? (.member name) := by
  simp only [ofMembers, step?, List.filterMap_cons, id, List.lookup_cons]
  by_cases h : name = n
  · rw [if_pos h, beq_iff_eq.2 h]
  · rw [if_neg h, beq_eq_false_iff_ne.2 h]

@[simp] theorem step?_ofMembers_member? (v : Option Json) :
    (ofMembers (member? n v :: ms)).step? (.member name) =
      if name = n then v.or ((ofMembers ms).step? (.member name))
      else (ofMembers ms).step? (.member name) := by
  cases v with
  | none => exact (ite_self _).symm
  | some v => exact step?_ofMembers_some v

def nonempty? (js : List Json) : Option Json := if js.isEmpty then none else some (.array js)

@[simp] theorem items?_eq (js : List Json) : items? n js = member? n (nonempty? js) := by
  unfold items? nonempty?
  split_ifs <;> rfl

variable {α : Type} {f : α → Json} {as : List α}

theorem at?_list (h : j.step? (.member name) = some (.array (as.map f))) (i : Nat)
    (path : List Key) :
    j.at? (.member name :: .item i :: path) = as[i]?.bind fun a => (f a).at? path := by
  have hitem : (array (as.map f)).step? (.item i) = as[i]?.map f := List.getElem?_map ..
  rw [at?_cons, h, Option.bind_some, at?_cons, hitem, Option.bind_map]
  rfl

/-- A list that is left out where it is empty has no items either way. -/
theorem at?_nonempty (h : j.step? (.member name) = nonempty? (as.map f)) (i : Nat)
    (path : List Key) :
    j.at? (.member name :: .item i :: path) = as[i]?.bind fun a => (f a).at? path := by
  cases as with
  | nil =>
    rw [at?_cons, h]
    rfl
  | cons a as => exact at?_list h i path

end Members

end Json

open Json

/-! ### Marks at their places -/

namespace Mark

theorem listJson_eq (ms : List Mark) : listJson ms = ms.map toJson := by
  induction ms with
  | nil => rfl
  | cons m ms ih => rw [listJson, ih, List.map_cons]

theorem toJson_eq (m : Mark) :
    m.toJson = .ofMembers [
      some ("name", .text m.name),
      some ("type", .text (Named.name m.shape)),
      Json.member? "from" (m.input.map inputJson),
      Json.member? "clip" (m.clip.map .bool),
      Json.member? "interactive" (m.interactive.map .bool),
      Json.member? "encode" (m.encode.map Encode.toJson),
      Json.items? "marks" (m.marks.map toJson),
      Json.items? "transform" (m.transforms.map Transform.toJson)] := by
  cases m
  rw [toJson, listJson_eq]

/-- The way to a place among the marks of a document or of a group. -/
def path (place : List Nat) : List Key := place.flatMap fun i => [.member "marks", .item i]

theorem path_cons (i : Nat) (place : List Nat) :
    path (i :: place) = .member "marks" :: .item i :: path place := rfl

/-- Inside the value of a mark, the marks inside the mark stand at their places. -/
theorem toJson_at? (m : Mark) (place : List Nat) (rest : List Key) :
    m.toJson.at? (path place ++ rest) = (m.at? place).bind fun inner => inner.toJson.at? rest := by
  induction place generalizing m with
  | nil => rfl
  | cons i place ih =>
    have hmarks : m.toJson.step? (.member "marks") = nonempty? (m.marks.map toJson) := by
      simp [toJson_eq]
    rw [path_cons, List.cons_append, List.cons_append, at?_nonempty hmarks, at?,
      Option.bind_assoc]
    congr 1
    funext inner
    exact ih inner

end Mark

/-- What a source reads, one name or a list of them. -/
def Origin.named? : Origin → Option Json
  | .inline _ => none
  | .derived source => some (.text source)
  | .concatenated sources => some (.texts sources)

/-- What a value shows of a document: every item of the document at its place, with its name, and of
which kind it is and from which source it reads rows, where items of its sort differ in that. -/
structure Document.ShownBy (d : Document) (j : Json) : Prop where
  schema : j.at? [.member "$schema"] = some (.text schema)
  width : j.at? [.member "width"] = d.width.map .float
  height : j.at? [.member "height"] = d.height.map .float
  source (i : Nat) : j.at? [.member "data", .item i, .member "name"] =
    d.sources[i]?.map fun s => .text s.name
  origin (i : Nat) : j.at? [.member "data", .item i, .member "source"] =
    d.sources[i]?.bind fun s => s.origin.named?
  transform (i k : Nat) :
    j.at? [.member "data", .item i, .member "transform", .item k, .member "type"] =
      d.sources[i]?.bind fun s => s.transforms[k]?.map fun t => .text t.kind
  scale (i : Nat) : j.at? [.member "scales", .item i, .member "name"] =
    d.scales[i]?.map fun s => .text s.name
  kind (i : Nat) : j.at? [.member "scales", .item i, .member "type"] =
    d.scales[i]?.map fun s => .text (Named.name s.kind)
  domain (i : Nat) : j.at? [.member "scales", .item i, .member "domain", .member "data"] =
    d.scales[i]?.bind fun s => s.domain.map fun domain => .text domain.source
  signal (i : Nat) : j.at? [.member "signals", .item i, .member "name"] =
    d.signals[i]?.map fun s => .text s.name
  initial (i : Nat) : j.at? [.member "signals", .item i, .member "value"] =
    d.signals[i]?.map Signal.initial
  mark (i : Nat) (place : List Nat) :
    j.at? (Mark.path (i :: place) ++ [.member "name"]) =
      (Mark.atIn? d.marks (i :: place)).map fun m => .text m.name
  shape (i : Nat) (place : List Nat) :
    j.at? (Mark.path (i :: place) ++ [.member "type"]) =
      (Mark.atIn? d.marks (i :: place)).map fun m => .text (Named.name m.shape)
  input (i : Nat) (place : List Nat) :
    j.at? (Mark.path (i :: place) ++ [.member "from", .member "data"]) =
      (Mark.atIn? d.marks (i :: place)).bind fun m =>
        (m.input.bind MarkInput.source).map .text
  partition (i : Nat) (place : List Nat) :
    j.at? (Mark.path (i :: place) ++ [.member "from", .member "facet", .member "data"]) =
      (Mark.atIn? d.marks (i :: place)).bind fun m => m.partition?.map fun p => .text p.source

theorem Source.toJson_source (s : Source) :
    s.toJson.step? (.member "source") = s.origin.named? := by
  cases hs : s.origin <;> simp [toJson, hs, originMember, Origin.named?]

theorem Source.toJson_transform (s : Source) (i : Nat) (path : List Key) :
    s.toJson.at? (.member "transform" :: .item i :: path) =
      s.transforms[i]?.bind fun t => t.toJson.at? path := by
  have hlist : s.toJson.step? (.member "transform") =
      nonempty? (s.transforms.map Transform.toJson) := by
    cases hs : s.origin <;> simp [toJson, hs, originMember]
  exact at?_nonempty hlist i path

namespace Document

variable (d : Document)

theorem toJson_source (i : Nat) (path : List Key) :
    d.toJson.at? (.member "data" :: .item i :: path) =
      d.sources[i]?.bind fun s => s.toJson.at? path :=
  at?_list (by simp [toJson]) i path

theorem toJson_scale (i : Nat) (path : List Key) :
    d.toJson.at? (.member "scales" :: .item i :: path) =
      d.scales[i]?.bind fun s => s.toJson.at? path :=
  at?_list (by simp [toJson]) i path

theorem toJson_signal (i : Nat) (path : List Key) :
    d.toJson.at? (.member "signals" :: .item i :: path) =
      d.signals[i]?.bind fun s => s.toJson.at? path :=
  at?_list (by simp [toJson]) i path

theorem toJson_mark (i : Nat) (place : List Nat) (path : List Key) :
    d.toJson.at? (Mark.path (i :: place) ++ path) =
      (Mark.atIn? d.marks (i :: place)).bind fun m => m.toJson.at? path := by
  have hmarks : d.toJson.step? (.member "marks") = some (.array (d.marks.map Mark.toJson)) := by
    simp [toJson]
  rw [Mark.path_cons, List.cons_append, List.cons_append, at?_list hmarks, Mark.atIn?,
    Option.bind_assoc]
  congr 1
  funext m
  exact m.toJson_at? place path

theorem toJson_shown : d.ShownBy d.toJson where
  schema := by simp [toJson]
  width := by simp [toJson]
  height := by simp [toJson]
  source i := by simp [toJson_source, Source.toJson, Option.map_eq_bind]
  origin i := by simp [toJson_source, Source.toJson_source]
  transform i k := by
    simp [toJson_source, Source.toJson_transform, Transform.toJson, Option.map_eq_bind]
  scale i := by simp [toJson_scale, Scale.toJson, Option.map_eq_bind]
  kind i := by simp [toJson_scale, Scale.toJson, Option.map_eq_bind]
  domain i := by
    have hdata (domain : Scale.Domain) :
        (Scale.domainJson domain).step? (.member "data") = some (.text domain.source) := rfl
    rw [toJson_scale]
    simp [Scale.toJson, at?_cons, hdata, Option.map_eq_bind, Option.bind_assoc]
  signal i := by simp [toJson_signal, Signal.toJson, Option.map_eq_bind]
  initial i := by simp [toJson_signal, Signal.toJson, Option.map_eq_bind]
  mark i place := by simp [toJson_mark, Mark.toJson_eq, Option.map_eq_bind]
  shape i place := by simp [toJson_mark, Mark.toJson_eq, Option.map_eq_bind]
  input i place := by
    simp [toJson_mark, Mark.toJson_eq, Mark.inputJson, at?_cons, Option.map_eq_bind,
      Option.bind_assoc]
  partition i place := by
    have hdata (p : Partition) :
        (Mark.partitionJson p).step? (.member "data") = some (.text p.source) := rfl
    simp [toJson_mark, Mark.toJson_eq, Mark.inputJson, Mark.partition?, hdata, at?_cons,
      Option.map_eq_bind, Option.bind_assoc]

end Document

end ChartCompiler
