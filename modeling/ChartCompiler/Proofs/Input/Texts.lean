import ChartCompiler.Input.ChartText
import ChartCompiler.Proofs.Input.Plain
import Mathlib.Tactic.SplitIfs

/-! Reading a text and reading its value. A chart description is read from a text member by member,
in the order in which they stand, and a fault is met where it stands. Where the text has a value,
this comes to the same as reading the value: the same chart, or a refusal of some kind. -/

namespace ChartCompiler.Input

open Json

/-! ### Drafts that can be read -/

section Read

variable {levels : Nat} {d : Draft} {j : Json} {ending : Ending}

theorem readItems_cons {ds : List Draft} {js : List Json}
    (h : Draft.readItems levels (d :: ds) = .ok js) :
    ∃ j js', d.read levels = .ok j ∧ Draft.readItems levels ds = .ok js' ∧ js = j :: js' := by
  rw [Draft.readItems] at h
  cases hd : d.read levels with
  | error e => rw [hd] at h; cases h
  | ok j =>
    cases hds : Draft.readItems levels ds with
    | error e => rw [hd, hds] at h; cases h
    | ok js' => rw [hd, hds] at h; cases h; exact ⟨j, js', rfl, rfl, rfl⟩

theorem readMembers_cons {n : Draft} {members : List (Draft × Draft)} {ms : List (String × Json)}
    (h : Draft.readMembers levels ((n, d) :: members) = .ok ms) :
    ∃ name j ms', n.readName = .ok name ∧ d.read levels = .ok j ∧
      Draft.readMembers levels members = .ok ms' ∧ ms = (name, j) :: ms' := by
  rw [Draft.readMembers] at h
  cases hn : n.readName with
  | error e => rw [hn] at h; cases h
  | ok name =>
    cases hd : d.read levels with
    | error e => rw [hn, hd] at h; cases h
    | ok j =>
      cases hms : Draft.readMembers levels members with
      | error e => rw [hn, hd, hms] at h; cases h
      | ok ms' => rw [hn, hd, hms] at h; cases h; exact ⟨name, j, ms', rfl, rfl, rfl, rfl⟩

inductive ReadAs (levels : Nat) : Draft → Json → Prop
  | null : ReadAs levels .null .null
  | bool (b : Bool) : ReadAs levels (.bool b) (.bool b)
  | int (i : Int) : ReadAs levels (.number (some (.integer i))) (.int i)
  | float (x : Number) : ReadAs levels (.number (some (.float x))) (.float x)
  | text (s : String) : ReadAs levels (.text (some s)) (.text s)
  | array {items : List Draft} {js : List Json} (h : Draft.readItems (levels - 1) items = .ok js) :
    ReadAs levels (.array items .closed) (.array js)
  | object {members : List (Draft × Draft)} {ms : List (String × Json)}
    (h : Draft.readMembers (levels - 1) members = .ok ms) :
    ReadAs levels (.object members .closed) (.object ms)

theorem readAs (h : d.read levels = .ok j) : ReadAs levels d j := by
  cases d with
  | null => cases h; exact .null
  | bool b => cases h; exact .bool b
  | number v =>
    obtain _ | i | x := v
    · cases h
    · cases h; exact .int i
    · cases h; exact .float x
  | text s =>
    cases s with
    | none => cases h
    | some s => cases h; exact .text s
  | missing | brokenText | brokenToken => cases h
  | array items ending =>
    rw [Draft.read] at h
    split at h
    · cases h
    · cases hitems : Draft.readItems (levels - 1) items with
      | error e => rw [hitems] at h; cases h
      | ok js =>
        rw [hitems] at h
        cases ending with
        | closed => cases h; exact .array hitems
        | cut | cutAfterComma => cases h
  | object members ending =>
    rw [Draft.read] at h
    split at h
    · cases h
    · cases hmembers : Draft.readMembers (levels - 1) members with
      | error e => rw [hmembers] at h; cases h
      | ok ms =>
        rw [hmembers] at h
        cases ending with
        | closed => cases h; exact .object hmembers
        | cut | cutAfterComma => cases h

end Read

theorem skipName_of_readName {n : Draft} {name : String} (h : n.readName = .ok name) :
    n.skipName = .ok () := by
  cases n with
  | text => rfl
  | _ => cases h

mutual

/-- What can be read can be skipped. -/
theorem skip_of_read : ∀ (d : Draft) {levels : Nat} {j : Json}, d.read levels = .ok j →
    d.skip = .ok ()
  | .null, _, _, _ | .bool _, _, _, _ | .number _, _, _, _ | .text _, _, _, _ => rfl
  | .array items ending, _, _, h => by
    cases readAs h with
    | array hjs =>
      rw [Draft.skip, skipItems_of_read items hjs]
      rfl
  | .object members ending, _, _, h => by
    cases readAs h with
    | object hms =>
      rw [Draft.skip, skipMembers_of_read members hms]
      rfl
  | .missing, _, _, h | .brokenText _ _, _, _, h | .brokenToken _ _, _, _, h => by cases h

theorem skipItems_of_read : ∀ (ds : List Draft) {levels : Nat} {js : List Json},
    Draft.readItems levels ds = .ok js → Draft.skipItems ds = .ok ()
  | [], _, _, _ => rfl
  | d :: ds, _, _, h => by
    obtain ⟨j, js', hd, hds, -⟩ := readItems_cons h
    rw [Draft.skipItems, skip_of_read d hd]
    exact skipItems_of_read ds hds

theorem skipMembers_of_read : ∀ (members : List (Draft × Draft)) {levels : Nat}
    {ms : List (String × Json)}, Draft.readMembers levels members = .ok ms →
    Draft.skipMembers members = .ok ()
  | [], _, _, _ => rfl
  | (n, d) :: members, _, _, h => by
    obtain ⟨name, j, ms', hn, hd, hms, -⟩ := readMembers_cons h
    rw [Draft.skipMembers, skipName_of_readName hn, skip_of_read d hd]
    exact skipMembers_of_read members hms

end

/-! ### Single fields -/

/-- Two readers of one value, from its draft and from the value, that agree but for the kind of
refusal. -/
def Agree {α : Type} (r : Draft → Except Refusal α) (s : Reader α) (d : Draft) (j : Json) : Prop :=
  (r d).toOption = (s j).toOption

section Single

variable {levels : Nat} {d : Draft} {j : Json}

theorem sizeOfDraft_agree (h : d.read levels = .ok j) :
    Agree sizeOfDraft (optional number) d j := by
  cases readAs h <;> rfl

theorem kindOfDraft_agree (h : d.read levels = .ok j) : Agree kindOfDraft (tag .name) d j := by
  cases readAs h <;> rfl

theorem schemeOfDraft_agree (h : d.read levels = .ok j) : Agree schemeOfDraft scheme d j := by
  cases readAs h with
  | @object members ms hms =>
    cases members with
    | nil => cases hms; rfl
    | cons m more =>
      obtain ⟨n, d⟩ := m
      obtain ⟨name, j, ms', hn, hd, hmore, rfl⟩ := readMembers_cons hms
      simp only [Agree, schemeOfDraft, hn, scheme, bind, Except.bind]
      cases more with
      | nil =>
        cases hmore
        simp only [named]
        generalize (Named.ofName? name : Option ColorScheme) = found
        cases readAs hd with
        | object => rw [admits_object]; cases found <;> rfl
        | _ => cases found <;> rfl
      | cons m more =>
        obtain ⟨_, _, _, -, -, -, rfl⟩ := readMembers_cons hmore
        simp only [named]
        generalize (Named.ofName? name : Option ColorScheme) = found
        cases readAs hd <;> cases found <;> rfl
  | _ => rfl

end Single

/-! ### Fields met one after the other -/

theorem toOption_bind {α β : Type} (x : Except Refusal α) (f : α → Except Refusal β) :
    (x >>= f).toOption = x.toOption.bind fun a => (f a).toOption := by
  cases x <;> rfl

theorem toOption_ok {α : Type} (a : α) : (Except.ok a : Except Refusal α).toOption = some a := rfl

/-- What a field holds when the members have been read, and what it may have held before them; none
if it is repeated or cannot be read. -/
def gather {α : Type} (r : Reader α) (n : String) (met : Option α) (ms : List (String × Json)) :
    Option (Option α) :=
  match withName n ms with
  | [] => some met
  | [(_, j)] => if met.isSome then none else (r j).toOption.map some
  | _ => none

section Gather

variable {α : Type} {r : Reader α} {n : String} {met : Option α} {ms : List (String × Json)}

theorem gather_cons_of_ne {name : String} (h : name ≠ n) (j : Json) :
    gather r n met ((name, j) :: ms) = gather r n met ms := by
  unfold gather
  rw [withName_cons_of_ne h]

theorem gather_cons_self (j : Json) :
    gather r n met ((n, j) :: ms) =
      if met.isSome then none else (r j).toOption.bind fun a => gather r n (some a) ms := by
  unfold gather
  rw [withName_cons_self]
  cases met with
  | some a => cases withName n ms <;> rfl
  | none =>
    match withName n ms with
    | [] | [_] | _ :: _ :: _ =>
      dsimp only
      cases r j <;> rfl

theorem gather_missing (h : withName n ms = []) : gather r n met ms = some met := by
  unfold gather
  rw [h]

theorem gather_single {j : Json} (h : withName n ms = [(n, j)]) :
    gather r n none ms = (r j).toOption.map some := by
  unfold gather
  rw [h]
  rfl

theorem gather_repeated (h : 1 < (withName n ms).length) : gather r n met ms = none := by
  unfold gather
  match hms : withName n ms with
  | [] | [_] => simp [hms] at h
  | _ :: _ :: _ => rfl

/-- A field that is not repeated is read by its name. -/
theorem gather_eq_fieldOr {o : Option Json} (h : withName n ms = (o.map (n, ·)).toList) (d : α) :
    (fieldOr d r (ms.lookup n)).toOption = (gather r n none ms).map fun a => a.getD d := by
  rw [lookup_eq_head?, h]
  cases o with
  | none => rw [gather_missing h]; rfl
  | some j =>
    rw [gather_single h, Option.map_map]
    exact Option.map_id'.symm

end Gather

/-! ### Marks -/

theorem splitMark_eq {members : List (Draft × Draft)} {ms : List (String × Json)}
    (h : Draft.readMembers markLevels members = .ok ms) (met : Option MarkKind) :
    (splitMark met members).toOption = (gather (tag .name) "type" met ms).map
      (·, ms.filter fun m => m.1 != "type") := by
  induction members generalizing ms met with
  | nil =>
    cases h
    rfl
  | cons m members ih =>
    obtain ⟨name, j, ms, hn, hd, hms, rfl⟩ := readMembers_cons h
    simp only [splitMark, hn, hd, bind, Except.bind]
    by_cases htype : name = "type"
    · subst htype
      rw [if_pos rfl, gather_cons_self]
      cases met with
      | some kind => rfl
      | none =>
        have hkind := kindOfDraft_agree hd
        rw [Agree] at hkind
        rw [← hkind]
        cases kindOfDraft m.2 with
        | error e => rfl
        | ok kind => exact ih hms (some kind)
    · rw [if_neg htype, gather_cons_of_ne htype, List.filter_cons_of_pos (by simpa using htype)]
      have ih := ih hms met
      generalize splitMark met members = x at ih ⊢
      generalize gather (tag .name) "type" met ms = found at ih ⊢
      cases x with
      | error e =>
        cases found with
        | none => rfl
        | some kind => cases ih
      | ok x =>
        cases found with
        | none => cases ih
        | some kind => cases ih; rfl

theorem tagged_toOption (ms : List (String × Json)) :
    (tagged .name (.object ms)).toOption = (gather (tag .name) "type" none ms).bind
      fun kind : Option MarkKind => kind.map (·, .object (ms.filter fun m => m.1 != "type")) := by
  obtain hmany | ⟨_ | t, ht⟩ := withName_cases "type" ms
  · rw [tagged_error _ (by omega), gather_repeated hmany]
    rfl
  · rw [tagged_error _ (by simp [ht]), gather_missing ht]
    rfl
  · rw [tagged_single _ ht, gather_single ht]
    cases tag (α := MarkKind) .name t <;> rfl

theorem markOfDraft_agree {d : Draft} {j : Json} (h : d.read (maxDepth - 2) = .ok j) :
    Agree markOfDraft mark d j := by
  cases readAs h with
  | @object members ms hms =>
    rw [Agree, markOfDraft, mark, toOption_bind, toOption_bind, splitMark_eq hms,
      tagged_toOption]
    cases gather (tag (α := MarkKind) .name) "type" none ms with
    | none => rfl
    | some kind => cases kind <;> rfl
  | @array items js hjs =>
    cases items with
    | nil => cases hjs; rfl
    | cons d ds =>
      obtain ⟨t, js, hd, hds, rfl⟩ := readItems_cons hjs
      have hkind : (kindOfDraft d).toOption = (tag .name t).toOption := kindOfDraft_agree hd
      have hitems : Draft.readItems markLevels ds = .ok js := hds
      rw [Agree, markOfDraft, mark, tagged, toOption_bind, hkind, hitems, toOption_bind]
      cases tag (α := MarkKind) .name t <;> rfl
  | _ => rfl

theorem marksOfDraft_agree {d : Draft} {j : Json} (h : d.read (maxDepth - 1) = .ok j) :
    Agree marksOfDraft (list mark) d j := by
  cases readAs h with
  | @array items js hjs =>
    have hitems : (items.mapM markOfDraft).toOption = (js.mapM mark).toOption := by
      clear h
      induction items generalizing js with
      | nil =>
        cases hjs
        rfl
      | cons d ds ih =>
        obtain ⟨j, js, hd, hds, rfl⟩ := readItems_cons hjs
        have hmark : (markOfDraft d).toOption = (mark j).toOption := markOfDraft_agree hd
        simp only [List.mapM_cons, toOption_bind, hmark, ih hds]
    rw [Agree, marksOfDraft, list, toOption_bind, hitems]
    cases (js.mapM mark).toOption <;> rfl
  | _ => rfl

/-! ### Charts -/

/-- The fields of a chart if each of them is there, whether or not it was met. -/
def ChartFields.ofParts (scheme : Option (Option ColorScheme))
    (width height : Option (Option (Option Number))) (marks : Option (Option (List ChartMark))) :
    Option ChartFields :=
  scheme.bind fun scheme => width.bind fun width => height.bind fun height =>
    marks.map fun marks => { scheme, width, height, marks }

/-- A chart is read field by field, what was not met by its default. -/
theorem chart_toOption {j : Json} {get : String → Option Json}
    (hget : fields chartFields j = .ok get)
    {s : Option (Option ColorScheme)} {w h : Option (Option (Option Number))}
    {m : Option (Option (List ChartMark))}
    (hscheme : (fieldOr .light scheme (get "colorScheme")).toOption = s.map fun a => a.getD .light)
    (hwidth : (fieldOr none (optional number) (get "width")).toOption = w.map fun a => a.getD none)
    (hheight : (fieldOr none (optional number) (get "height")).toOption =
      h.map fun a => a.getD none)
    (hmarks : (fieldOr [] (list mark) (get "marks")).toOption = m.map fun a => a.getD []) :
    (chart j).toOption = (ChartFields.ofParts s w h m).map ChartFields.toChart := by
  have hnames : fields ["colorScheme", "width", "height", "marks"] j = .ok get := hget
  rw [chart, hnames]
  simp only [toOption_bind, toOption_ok, Option.bind_some, hscheme, hwidth, hheight, hmarks]
  cases s with
  | none => rfl
  | some s =>
    cases w with
    | none => rfl
    | some w =>
      cases h with
      | none => rfl
      | some h => cases m <;> rfl

def gatherChart (c : ChartFields) (ms : List (String × Json)) : Option ChartFields :=
  ChartFields.ofParts (gather scheme "colorScheme" c.scheme ms)
    (gather (optional number) "width" c.width ms) (gather (optional number) "height" c.height ms)
    (gather (list mark) "marks" c.marks ms)

/-- A field is read where it is met. If it was met before or cannot be read nothing is left,
whatever the other fields hold. -/
theorem once_bind_toOption {α β : Type} {r : Draft → Except Refusal α} {s : Reader α} {d : Draft}
    {j : Json} (h : Agree r s d j) {n : String} {met : Option α} {ms : List (String × Json)}
    (G : Option (Option α) → Option β) (hG : G none = none) {k : α → Except Refusal β}
    (hk : ∀ a, (k a).toOption = G (gather s n (some a) ms)) :
    (once met >>= fun _ => r d >>= k).toOption = G (gather s n met ((n, j) :: ms)) := by
  rw [Agree] at h
  rw [gather_cons_self, ← h]
  cases met with
  | some a => exact hG.symm
  | none =>
    cases r d with
    | error e => exact hG.symm
    | ok a => exact hk a

theorem chartMembers_eq {members : List (Draft × Draft)} {ms : List (String × Json)}
    (h : Draft.readMembers (maxDepth - 1) members = .ok ms) (c : ChartFields) :
    (chartMembers c members).toOption = gatherChart c ms := by
  induction members generalizing ms c with
  | nil =>
    cases h
    rfl
  | cons m members ih =>
    obtain ⟨n, d⟩ := m
    obtain ⟨name, j, ms, hn, hd, hms, rfl⟩ := readMembers_cons h
    have hother {α : Type} {r : Reader α} {met : Option α} (n : String) (hne : name ≠ n) :
        gather r n met ((name, j) :: ms) = gather r n met ms := gather_cons_of_ne hne j
    rw [chartMembers, hn]
    change Except.toOption (ite _ _ _) = _
    split_ifs with hname hname hname hname
    · subst hname
      rw [gatherChart, hother "width" (by decide), hother "height" (by decide),
        hother "marks" (by decide)]
      exact once_bind_toOption (schemeOfDraft_agree hd) (fun x => ChartFields.ofParts x _ _ _) rfl
        fun _ => ih hms _
    · subst hname
      rw [gatherChart, hother "colorScheme" (by decide), hother "height" (by decide),
        hother "marks" (by decide)]
      exact once_bind_toOption (sizeOfDraft_agree hd) (fun x => ChartFields.ofParts _ x _ _)
        (by cases gather scheme "colorScheme" c.scheme ms <;> rfl) fun _ => ih hms _
    · subst hname
      rw [gatherChart, hother "colorScheme" (by decide), hother "width" (by decide),
        hother "marks" (by decide)]
      exact once_bind_toOption (sizeOfDraft_agree hd) (fun x => ChartFields.ofParts _ _ x _)
        (by simp [ChartFields.ofParts]) fun _ => ih hms _
    · subst hname
      rw [gatherChart, hother "colorScheme" (by decide), hother "width" (by decide),
        hother "height" (by decide)]
      exact once_bind_toOption (marksOfDraft_agree hd) (fun x => ChartFields.ofParts _ _ _ x)
        (by simp [ChartFields.ofParts]) fun _ => ih hms _
    · rw [skip_of_read d hd, gatherChart, hother "colorScheme" ‹_›, hother "width" ‹_›,
        hother "height" ‹_›, hother "marks" ‹_›]
      exact ih hms c

theorem chart_object_toOption (ms : List (String × Json)) :
    (chart (.object ms)).toOption = (gatherChart {} ms).map ChartFields.toChart := by
  by_cases hrep : ∃ n ∈ chartFields, 1 < (withName n ms).length
  · obtain ⟨n, hn, hlen⟩ := hrep
    have hrefused : fields ["colorScheme", "width", "height", "marks"] (.object ms) =
        .error .wrongShape := fields_object_repeated hn hlen
    have hnone : gatherChart {} ms = none := by
      simp only [chartFields, List.mem_cons, List.not_mem_nil, or_false] at hn
      obtain rfl | rfl | rfl | rfl := hn <;>
        simp [gatherChart, ChartFields.ofParts, gather_repeated hlen]
    rw [chart, hrefused, hnone]
    rfl
  · have hsingle : ∀ n ∈ chartFields,
        ∃ o : Option Json, withName n ms = (o.map (n, ·)).toList := fun n hn =>
      (withName_cases n ms).resolve_left fun hlen => hrep ⟨n, hn, hlen⟩
    have hfield {α : Type} (d : α) (r : Reader α) (n : String) (hn : n ∈ chartFields) :
        (fieldOr d r (ms.lookup n)).toOption = (gather r n none ms).map fun a => a.getD d :=
      (hsingle n hn).elim fun _ ho => gather_eq_fieldOr ho d
    exact chart_toOption (fields_object_single hsingle) (hfield _ _ _ (by decide))
      (hfield _ _ _ (by decide)) (hfield _ _ _ (by decide)) (hfield _ _ _ (by decide))

/-! ### Charts written as arrays -/

def readHead {α : Type} (r : Reader α) : List Json → Option (Option α)
  | [] => some none
  | j :: _ => (r j).toOption.map some

theorem fieldOr_head? {α : Type} (d : α) (r : Reader α) (js : List Json) :
    (fieldOr d r js.head?).toOption = (readHead r js).map fun a => a.getD d := by
  cases js with
  | nil => rfl
  | cons j js =>
    rw [readHead, Option.map_map]
    exact Option.map_id'.symm

section Items

variable {levels : Nat} {items : List Draft} {js : List Json}

theorem readItems_tail (h : Draft.readItems levels items = .ok js) :
    Draft.readItems levels items.tail = .ok js.tail := by
  cases items with
  | nil => cases h; rfl
  | cons d items =>
    obtain ⟨j, js', -, hitems, rfl⟩ := readItems_cons h
    exact hitems

theorem nextItem_toOption (h : Draft.readItems levels items = .ok js) {α : Type}
    {r : Draft → Except Refusal α} {s : Reader α}
    (hagree : ∀ {d j}, d.read levels = .ok j → Agree r s d j) :
    (nextItem r .closed items).toOption = (readHead s js).map (·, items.tail) := by
  cases items with
  | nil => cases h; rfl
  | cons d items =>
    obtain ⟨j, js', hd, -, rfl⟩ := readItems_cons h
    have hfirst : (r d).toOption = (s j).toOption := hagree hd
    rw [nextItem, toOption_bind, hfirst, readHead]
    cases (s j).toOption <;> rfl

theorem readItems_length (h : Draft.readItems levels items = .ok js) :
    items.length = js.length := by
  induction items generalizing js with
  | nil => cases h; rfl
  | cons d items ih =>
    obtain ⟨j, js', -, hitems, rfl⟩ := readItems_cons h
    exact congrArg (· + 1) (ih hitems)

/-- The items are read one by one, and a fifth is one too many. -/
theorem chartItems_toOption (h : Draft.readItems (maxDepth - 1) items = .ok js) :
    (chartItems items .closed).toOption =
      if js.length ≤ 4 then
        ChartFields.ofParts (readHead scheme js) (readHead (optional number) js.tail)
          (readHead (optional number) js.tail.tail) (readHead (list mark) js.tail.tail.tail)
      else none := by
  have hlen : items.tail.tail.tail.tail.length = js.length - 4 := by
    simp only [List.length_tail, readItems_length h]
    omega
  have h₁ := readItems_tail h
  have h₂ := readItems_tail h₁
  have h₃ := readItems_tail h₂
  rw [chartItems]
  simp only [toOption_bind, nextItem_toOption h schemeOfDraft_agree,
    nextItem_toOption h₁ sizeOfDraft_agree, nextItem_toOption h₂ sizeOfDraft_agree,
    nextItem_toOption h₃ marksOfDraft_agree, Option.bind_map, Function.comp_def]
  split_ifs with hshort
  · have hnil : items.tail.tail.tail.tail = [] := List.length_eq_zero_iff.1 (by omega)
    simp only [hnil, ChartFields.ofParts, Option.map_eq_bind]
    rfl
  · obtain ⟨d, ds, hcons⟩ := List.exists_cons_of_length_pos (l := items.tail.tail.tail.tail)
      (by omega)
    simp only [hcons, Except.toOption, Option.bind_fun_none]

end Items

theorem lookup_chartFields (js : List Json) :
    (chartFields.zip js).lookup "colorScheme" = js.head? ∧
      (chartFields.zip js).lookup "width" = js.tail.head? ∧
      (chartFields.zip js).lookup "height" = js.tail.tail.head? ∧
      (chartFields.zip js).lookup "marks" = js.tail.tail.tail.head? := by
  match js with
  | [] | [_] | [_, _] | [_, _, _] | _ :: _ :: _ :: _ :: _ => exact ⟨rfl, rfl, rfl, rfl⟩

/-- A chart written as an array is read item by item, up to four of them. -/
theorem chart_array_toOption {items : List Draft} {js : List Json}
    (h : Draft.readItems (maxDepth - 1) items = .ok js) :
    (chart (.array js)).toOption =
      (chartItems items .closed >>= fun c => pure c.toChart).toOption := by
  rw [toOption_bind, chartItems_toOption h]
  split_ifs with hshort
  · have hget : fields chartFields (.array js) = .ok fun n => (chartFields.zip js).lookup n := by
      rw [fields, if_neg (show ¬chartFields.length < js.length from Nat.not_lt.2 hshort)]
    obtain ⟨hscheme, hwidth, hheight, hmarks⟩ := lookup_chartFields js
    refine (chart_toOption hget (hscheme ▸ fieldOr_head? _ _ _) (hwidth ▸ fieldOr_head? _ _ _)
      (hheight ▸ fieldOr_head? _ _ _) (hmarks ▸ fieldOr_head? _ _ _)).trans ?_
    exact Option.map_eq_bind
  · rw [chart, fields, if_pos (by simpa using hshort)]
    rfl

theorem chartOfDraft_agree {d : Draft} {j : Json} (h : d.read maxDepth = .ok j) :
    Agree chartOfDraft chart d j := by
  cases readAs h with
  | @object members ms hms =>
    rw [Agree, chart_object_toOption, ← chartMembers_eq hms {}, chartOfDraft, toOption_bind]
    cases chartMembers {} members <;> rfl
  | array hjs => exact (chart_array_toOption hjs).symm
  | _ => rfl

/-- A text that has a value describes the chart that the value describes. -/
theorem chartOfText_toOption {t : String} {j : Json} (h : Json.parse t = .ok j) :
    (chartOfText t).toOption = (chart j).toOption := by
  obtain ⟨draft, rest, hscan⟩ : ∃ draft rest, Draft.scan t = (draft, rest) := ⟨_, _, rfl⟩
  simp only [Json.parse, hscan] at h
  simp only [chartOfText, hscan]
  cases hread : draft.read maxDepth with
  | error e => rw [hread] at h; cases h
  | ok j' =>
    cases hend : endsHere rest with
    | error e => rw [hread, hend] at h; cases h
    | ok _ =>
      rw [hread, hend] at h
      cases h
      have hagree : (chartOfDraft draft).toOption = (chart j).toOption := chartOfDraft_agree hread
      rw [toOption_bind, hagree]
      cases (chart j).toOption <;> rfl

end ChartCompiler.Input
