import ChartCompiler.Proofs.Document.Numerals

/-! The two texts of a value are scanned as that value. They are one text laid out in two ways, with
blanks between its parts or without, and the scanner goes through it part by part: a string comes
back as it was, a number is scanned by itself, and a list or an object ends where it was closed. -/

namespace ChartCompiler.Json

/-! ### Strings -/

theorem hexValue?_hexDigit {n : Nat} (h : n < 16) : hexValue? (hexDigit n) = some n := by
  revert n
  decide

/-- An escaped character is one piece, and stands for itself. -/
theorem pieces_escaped (c : Char) (rest : List Char) :
    ∃ p, pieces (escaped c ++ rest) = (p :: (pieces rest).1, (pieces rest).2) ∧
      ∀ ps, joinPieces (p :: ps) = ((joinPieces ps).1.map (c :: ·), (joinPieces ps).2) := by
  unfold escaped
  split_ifs with hq hs hn hr ht hb hf hlow
  · exact ⟨.char '"', rfl, fun ps => by rw [hq]; rfl⟩
  · exact ⟨.char '\\', rfl, fun ps => by rw [hs]; rfl⟩
  · exact ⟨.char '\n', rfl, fun ps => by rw [hn]; rfl⟩
  · exact ⟨.char '\r', rfl, fun ps => by rw [hr]; rfl⟩
  · exact ⟨.char '\t', rfl, fun ps => by rw [ht]; rfl⟩
  · exact ⟨.char '\x08', rfl, fun ps => by rw [hb]; rfl⟩
  · exact ⟨.char '\x0c', rfl, fun ps => by rw [hf]; rfl⟩
  · refine ⟨.unit c.toNat, ?_, fun ps => ?_⟩
    · have hzero : hexValue? '0' = some 0 := rfl
      have hhigh := hexValue?_hexDigit (n := c.toNat / 16) (by omega)
      have hdigit := hexValue?_hexDigit (n := c.toNat % 16) (by omega)
      have hcode : ((0 * 16 + 0) * 16 + c.toNat / 16) * 16 + c.toNat % 16 = c.toNat := by omega
      simp only [List.cons_append, List.nil_append, pieces, hzero, hhigh, hdigit, hcode]
    · rw [joinPieces.eq_def]
      dsimp only
      rw [if_pos (by omega), Char.ofNat_toNat]
  · refine ⟨.char c, ?_, fun ps => rfl⟩
    rw [List.singleton_append, pieces.eq_def]
    split <;> simp_all

theorem pieces_quoted (cs rest : List Char) :
    ∃ ps, pieces (cs.flatMap escaped ++ '"' :: rest) = (ps, .ok rest) ∧
      joinPieces ps = (some cs, false) := by
  induction cs with
  | nil => exact ⟨[], rfl, rfl⟩
  | cons c cs ih =>
    obtain ⟨ps, hps, hjoin⟩ := ih
    obtain ⟨p, hp, hone⟩ := pieces_escaped c (cs.flatMap escaped ++ '"' :: rest)
    refine ⟨p :: ps, ?_, ?_⟩
    · rw [List.flatMap_cons, List.append_assoc, hp, hps]
    · rw [hone, hjoin]
      rfl

theorem scanValue_quoted (s : String) (rest : List Char) (fuel : Nat) :
    scanValue (fuel + 1) (quoted s ++ rest) = (.text (some s), some rest) := by
  obtain ⟨ps, hps, hjoin⟩ := pieces_quoted s.toList rest
  have htext : scanText (s.toList.flatMap escaped ++ '"' :: rest) =
      (.text (some s), some rest) := by
    rw [scanText, hps]
    simp only [hjoin, String.ofList_toList]
  simpa [quoted, scanValue, skipBlanks, isBlank] using htext

/-! ### Values -/

mutual

/-- How the text of a value is scanned, where a number is scanned by itself. -/
def drafted : Json → Draft
  | .null => .null
  | .bool b => .bool b
  | .int i => (Draft.scan (toString i)).1
  | .float x => (Draft.scan x.literal).1
  | .text s => .text (some s)
  | .array js => .array (draftedItems js) .closed
  | .object ms => .object (draftedMembers ms) .closed

def draftedItems : List Json → List Draft
  | [] => []
  | j :: js => drafted j :: draftedItems js

def draftedMembers : List (String × Json) → List (Draft × Draft)
  | [] => []
  | (n, v) :: ms => (.text (some n), drafted v) :: draftedMembers ms

end

def IsBlanks (cs : List Char) : Prop := ∀ c ∈ cs, isBlank c = true

/-- What stands between the parts of a text, at each depth, and behind a colon. -/
structure Layout where
  breaks : Nat → List Char
  gap : List Char
  breaks_blanks : ∀ depth, IsBlanks (breaks depth)
  gap_blanks : IsBlanks gap

namespace Layout

def compact : Layout where
  breaks _ := []
  gap := []
  breaks_blanks _ := List.forall_mem_nil _
  gap_blanks := List.forall_mem_nil _

def indented : Layout where
  breaks := lineBreak
  gap := [' ']
  breaks_blanks depth c hc := by
    rcases List.mem_cons.1 hc with rfl | hc
    · rfl
    · rw [List.eq_of_mem_replicate hc]
      rfl
  gap_blanks c hc := by
    rw [List.mem_singleton.1 hc]
    rfl

mutual

def chars (l : Layout) (depth : Nat) : Json → List Char
  | .null => "null".toList
  | .bool b => boolText b
  | .int i => (toString i).toList
  | .float x => x.literal.toList
  | .text s => quoted s
  | .array [] => "[]".toList
  | .array (j :: js) =>
    '[' :: (l.breaks (depth + 1) ++ (l.chars (depth + 1) j
      ++ (l.items (depth + 1) js ++ (l.breaks depth ++ [']']))))
  | .object [] => "\x7b\x7d".toList
  | .object ((n, v) :: ms) =>
    '{' :: (l.breaks (depth + 1) ++ (quoted n ++ ':' :: (l.gap ++ (l.chars (depth + 1) v
      ++ (l.members (depth + 1) ms ++ (l.breaks depth ++ ['}']))))))

def items (l : Layout) (depth : Nat) : List Json → List Char
  | [] => []
  | j :: js => ',' :: (l.breaks depth ++ (l.chars depth j ++ l.items depth js))

def members (l : Layout) (depth : Nat) : List (String × Json) → List Char
  | [] => []
  | (n, v) :: ms =>
    ',' :: (l.breaks depth ++ (quoted n ++ ':' :: (l.gap ++ (l.chars depth v
      ++ l.members depth ms))))

end

end Layout

mutual

theorem compactChars_eq (depth : Nat) : ∀ j : Json,
    compactChars j = Layout.compact.chars depth j
  | .null | .bool _ | .int _ | .float _ | .text _ | .array [] | .object [] => by
    rw [compactChars, Layout.chars]
  | .array (j :: js) => by
    rw [compactChars, Layout.chars, compactChars_eq (depth + 1) j, compactItems_eq (depth + 1) js]
    rfl
  | .object ((n, v) :: ms) => by
    rw [compactChars, Layout.chars, compactChars_eq (depth + 1) v,
      compactMembers_eq (depth + 1) ms]
    rfl

theorem compactItems_eq (depth : Nat) : ∀ js : List Json,
    compactItems js = Layout.compact.items depth js
  | [] => rfl
  | j :: js => by
    rw [compactItems, Layout.items, compactChars_eq depth j, compactItems_eq depth js]
    rfl

theorem compactMembers_eq (depth : Nat) : ∀ ms : List (String × Json),
    compactMembers ms = Layout.compact.members depth ms
  | [] => rfl
  | (n, v) :: ms => by
    rw [compactMembers, Layout.members, compactChars_eq depth v, compactMembers_eq depth ms]
    rfl

end

mutual

theorem indentedChars_eq (depth : Nat) : ∀ j : Json,
    indentedChars depth j = Layout.indented.chars depth j
  | .null | .bool _ | .int _ | .float _ | .text _ | .array [] | .object [] => by
    rw [indentedChars, Layout.chars]
  | .array (j :: js) => by
    rw [indentedChars, Layout.chars, indentedChars_eq (depth + 1) j,
      indentedItems_eq (depth + 1) js]
    rfl
  | .object ((n, v) :: ms) => by
    rw [indentedChars, Layout.chars, indentedChars_eq (depth + 1) v,
      indentedMembers_eq (depth + 1) ms]
    rfl

theorem indentedItems_eq (depth : Nat) : ∀ js : List Json,
    indentedItems depth js = Layout.indented.items depth js
  | [] => rfl
  | j :: js => by
    rw [indentedItems, Layout.items, indentedChars_eq depth j, indentedItems_eq depth js]
    rfl

theorem indentedMembers_eq (depth : Nat) : ∀ ms : List (String × Json),
    indentedMembers depth ms = Layout.indented.members depth ms
  | [] => rfl
  | (n, v) :: ms => by
    rw [indentedMembers, Layout.members, indentedChars_eq depth v, indentedMembers_eq depth ms]
    rfl

end

/-! ### Scanning -/

variable {bs rest : List Char}

theorem skipBlanks_append (h : IsBlanks bs) (rest : List Char) :
    skipBlanks (bs ++ rest) = skipBlanks rest := List.dropWhile_append_of_pos h

theorem skipBlanks_cons {c : Char} (h : isBlank c = false) (cs : List Char) :
    skipBlanks (c :: cs) = c :: cs := by
  rw [skipBlanks, List.dropWhile_cons, h]
  rfl

theorem scanValue_blanks (h : IsBlanks bs) (fuel : Nat) (rest : List Char) :
    scanValue fuel (bs ++ rest) = scanValue fuel rest := by
  cases fuel with
  | zero => rfl
  | succ fuel => rw [scanValue, scanValue, skipBlanks_append h]

theorem endsNumber_cons {c : Char} (h : isBlank c = true ∨ c ∈ [',', ']', '}']) (cs : List Char) :
    EndsNumber (c :: cs) := by
  simp only [isBlank, Bool.or_eq_true, decide_eq_true_eq, List.mem_cons, List.not_mem_nil, or_false,
    or_assoc] at h
  rcases h with rfl | rfl | rfl | rfl | rfl | rfl | rfl <;>
    exact ⟨noDigit_cons rfl cs, by simp, by simp⟩

/-- A number ends where its list or object goes on or ends. -/
theorem endsNumber_blanks (h : IsBlanks bs) {c : Char} (hc : c ∈ [',', ']', '}']) :
    EndsNumber (bs ++ c :: rest) := by
  cases bs with
  | nil => exact endsNumber_cons (.inr hc) rest
  | cons b bs => exact endsNumber_cons (.inl (h b List.mem_cons_self)) _

theorem endsNumber_nil : EndsNumber [] := ⟨nofun, nofun, nofun, nofun⟩

section Numbers

variable {text : String} {d : Draft}
  (h : ∀ fuel rest, EndsNumber rest → scanValue (fuel + 1) (text.toList ++ rest) = (d, some rest))

include h

theorem scan_alone : Draft.scan text = (d, some []) := by
  have halone := h (2 * text.toList.length + 1) [] endsNumber_nil
  rwa [List.append_nil] at halone

/-- What is scanned alike before whatever follows is scanned as it is alone. -/
theorem scanValue_alone (fuel : Nat) (hr : EndsNumber rest) :
    scanValue (fuel + 1) (text.toList ++ rest) = ((Draft.scan text).1, some rest) := by
  rw [scan_alone h]
  exact h fuel rest hr

end Numbers

theorem scanValue_toString (i : Int) (fuel : Nat) (rest : List Char) (hr : EndsNumber rest) :
    scanValue (fuel + 1) ((toString i).toList ++ rest) =
      (.number (Literal.value { negative := decide (i < 0)
                                whole := values (Nat.toDigits 10 i.natAbs) }), some rest) := by
  rw [toString_int]
  exact (Spells.plain (.whole (isWhole_toDigits i.natAbs))).scanValue hr fuel

/-- An integer that 64 bits hold is scanned as it is. -/
theorem drafted_int {i : Int} (hlow : -(Nat.pow 2 63 : Nat) ≤ i)
    (hhigh : i ≤ Literal.maxSignificand) :
    drafted (.int i) = .number (some (.integer i)) := by
  rw [drafted, scan_alone (scanValue_toString i), value_toDigits hlow hhigh]

theorem exists_scanValue_literal (x : Number) :
    ∃ d, ∀ fuel rest, EndsNumber rest →
      scanValue (fuel + 1) (x.literal.toList ++ rest) = (d, some rest) := by
  cases x with
  | nan | infinite =>
    rw [Number.literal_of_not_finite rfl]
    exact ⟨.null, fun _ _ _ => rfl⟩
  | finite s m e =>
    obtain ⟨cs, l, htext, hl⟩ := literal_spells s m e
    rw [htext]
    exact ⟨.number l.value, fun fuel rest hr => hl.scanValue hr fuel⟩

theorem Spells.signed_head {negative : Bool} {cs : List Char} {l : Literal}
    (h : Spells negative cs l) :
    ∃ c ds, Number.signText negative ++ cs = c :: ds ∧ isBlank c = false ∧ c ≠ ']' := by
  cases negative with
  | true => exact ⟨'-', cs, rfl, rfl, by decide⟩
  | false =>
    obtain ⟨c, ds, rfl, hc⟩ := h.head
    refine ⟨c, ds, rfl, isBlank_of_isDigit hc, ?_⟩
    rintro rfl
    cases hc

/-- Where a value begins, no blank is skipped and no list ends. -/
theorem Layout.chars_head (l : Layout) (depth : Nat) (j : Json) :
    ∃ c cs, l.chars depth j = c :: cs ∧ isBlank c = false ∧ c ≠ ']' := by
  cases j with
  | null => exact ⟨'n', _, rfl, rfl, by decide⟩
  | bool b => cases b <;> exact ⟨_, _, rfl, rfl, by decide⟩
  | int i =>
    rw [chars, toString_int]
    exact Spells.signed_head (.plain (.whole (isWhole_toDigits i.natAbs)))
  | float x =>
    rw [chars]
    cases x with
    | nan | infinite =>
      rw [Number.literal_of_not_finite rfl]
      exact ⟨'n', _, rfl, rfl, by decide⟩
    | finite s m e =>
      obtain ⟨cs, l, htext, hl⟩ := literal_spells s m e
      rw [htext]
      exact hl.signed_head
  | text s => exact ⟨'"', _, rfl, rfl, by decide⟩
  | array js => cases js <;> exact ⟨'[', _, rfl, rfl, by decide⟩
  | object ms => cases ms <;> exact ⟨'{', _, rfl, rfl, by decide⟩

/-! ### Lists and objects -/

section Steps

variable {fuel : Nat} {c : Char} {cs text value : List Char} {d : Draft} {s : Option String}
  {ds : List Draft} {ms : List (Draft × Draft)} {ending : Ending} {after : Option (List Char)}

theorem scanItems_last (hbs : IsBlanks bs)
    (hd : scanValue fuel text = (d, some (bs ++ ']' :: rest))) :
    scanItems (fuel + 1) text = ([d], .closed, some rest) := by
  simp [scanItems, hd, skipBlanks_append hbs, skipBlanks_cons, isBlank]

theorem scanItems_next (hbs : IsBlanks bs) (hblank : isBlank c = false) (hc : c ≠ ']')
    (hd : scanValue fuel text = (d, some (',' :: (bs ++ c :: cs))))
    (h : scanItems fuel (c :: cs) = (ds, ending, after)) :
    scanItems (fuel + 1) text = (d :: ds, ending, after) := by
  simp [scanItems, hd, skipBlanks_append hbs, skipBlanks_cons hblank, skipBlanks_cons, isBlank, hc,
    h]

theorem scanValue_list (hbs : IsBlanks bs) (hblank : isBlank c = false) (hc : c ≠ ']')
    (h : scanItems fuel (c :: cs) = (ds, ending, after)) :
    scanValue (fuel + 1) ('[' :: (bs ++ c :: cs)) = (.array ds ending, after) := by
  simp [scanValue, skipBlanks_append hbs, skipBlanks_cons hblank, skipBlanks_cons, isBlank, hc, h]

theorem scanMembers_last (hbs : IsBlanks bs)
    (hn : scanValue fuel text = (.text s, some (':' :: value)))
    (hd : scanValue fuel value = (d, some (bs ++ '}' :: rest))) :
    scanMembers (fuel + 1) text = ([(.text s, d)], .closed, some rest) := by
  simp [scanMembers, hn, hd, skipBlanks_append hbs, skipBlanks_cons, isBlank]

theorem scanMembers_next (hbs : IsBlanks bs)
    (hn : scanValue fuel text = (.text s, some (':' :: value)))
    (hd : scanValue fuel value = (d, some (',' :: (bs ++ '"' :: cs))))
    (h : scanMembers fuel ('"' :: cs) = (ms, ending, after)) :
    scanMembers (fuel + 1) text = ((.text s, d) :: ms, ending, after) := by
  simp [scanMembers, hn, hd, skipBlanks_append hbs, skipBlanks_cons, isBlank, h]

theorem scanValue_members (hbs : IsBlanks bs)
    (h : scanMembers fuel ('"' :: cs) = (ms, ending, after)) :
    scanValue (fuel + 1) ('{' :: (bs ++ '"' :: cs)) = (.object ms ending, after) := by
  simp [scanValue, skipBlanks_append hbs, skipBlanks_cons, isBlank, h]

end Steps

namespace Layout

variable (l : Layout)

mutual

/-- The text of a value is scanned as that value and no further, with fuel for every character. -/
theorem scanValue_chars : ∀ (j : Json) (depth fuel : Nat) {rest : List Char}, EndsNumber rest →
    2 * (l.chars depth j).length ≤ fuel + 1 →
    scanValue (fuel + 1) (l.chars depth j ++ rest) = (drafted j, some rest)
  | .null, _, _, _, _, _ => rfl
  | .bool b, _, _, _, _, _ => by cases b <;> rfl
  | .int i, depth, fuel, rest, hr, _ => by
    rw [chars, drafted]
    exact scanValue_alone (scanValue_toString i) fuel hr
  | .float x, depth, fuel, rest, hr, _ => by
    obtain ⟨d, hd⟩ := exists_scanValue_literal x
    rw [chars, drafted]
    exact scanValue_alone hd fuel hr
  | .text s, depth, fuel, rest, _, _ => by
    rw [chars]
    exact scanValue_quoted s rest fuel
  | .array [], _, _, _, _, _ => rfl
  | .array (j :: js), depth, fuel, rest, _, hfuel => by
    obtain ⟨c, cs, hhead, hblank, hc⟩ := l.chars_head (depth + 1) j
    simp only [chars, List.length_cons, List.length_append, List.length_nil, hhead] at hfuel
    -- one step for the list and one for its first item, which the bracket has paid for
    obtain ⟨fuel, rfl⟩ : ∃ k, fuel = k + 2 := ⟨fuel - 2, by omega⟩
    have hitem (rest : List Char) (hr : EndsNumber rest) :=
      scanValue_chars j (depth + 1) fuel hr (by rw [hhead, List.length_cons]; omega)
    have hitems := scanItems_items js (depth + 1) (fuel + 1) rest (l.breaks_blanks depth) hitem
      (by omega)
    rw [hhead, List.cons_append] at hitems
    have hlist := scanValue_list (l.breaks_blanks (depth + 1)) hblank hc hitems
    rw [chars, hhead, drafted, draftedItems]
    simpa only [List.cons_append, List.append_assoc, List.nil_append] using hlist
  | .object [], _, _, _, _, _ => rfl
  | .object ((n, v) :: ms), depth, fuel, rest, _, hfuel => by
    simp only [chars, List.length_cons, List.length_append, List.length_nil] at hfuel
    obtain ⟨fuel, rfl⟩ : ∃ k, fuel = k + 2 := ⟨fuel - 2, by omega⟩
    have hvalue (rest : List Char) (hr : EndsNumber rest) :=
      scanValue_chars v (depth + 1) fuel hr (by omega)
    have hmembers := scanMembers_members ms (depth + 1) fuel n rest (l.breaks_blanks depth) hvalue
      (by omega)
    have hobject := scanValue_members (l.breaks_blanks (depth + 1)) hmembers
    rw [chars, drafted, draftedMembers]
    simpa [quoted] using hobject

/-- The items of a list from one of them on, which is scanned as `d`. -/
theorem scanItems_items : ∀ (js : List Json) (depth fuel : Nat) {cs : List Char} {d : Draft}
    {bs : List Char} (rest : List Char), IsBlanks bs →
    (∀ rest, EndsNumber rest → scanValue fuel (cs ++ rest) = (d, some rest)) →
    2 * (l.items depth js).length ≤ fuel →
    scanItems (fuel + 1) (cs ++ (l.items depth js ++ (bs ++ ']' :: rest))) =
      (d :: draftedItems js, .closed, some rest)
  | [], depth, fuel, cs, d, bs, rest, hbs, hd, _ =>
    scanItems_last hbs (hd _ (endsNumber_blanks hbs (by simp)))
  | j :: js, depth, fuel, cs, d, bs, rest, hbs, hd, hfuel => by
    obtain ⟨c, tail, hhead, hblank, hc⟩ := l.chars_head depth j
    simp only [items, List.length_cons, List.length_append, hhead] at hfuel
    obtain ⟨fuel, rfl⟩ : ∃ k, fuel = k + 2 := ⟨fuel - 2, by omega⟩
    have hitem (rest : List Char) (hr : EndsNumber rest) :=
      scanValue_chars j depth fuel hr (by rw [hhead, List.length_cons]; omega)
    have hitems := scanItems_items js depth (fuel + 1) rest hbs hitem (by omega)
    rw [hhead, List.cons_append] at hitems
    refine scanItems_next (l.breaks_blanks depth) hblank hc ?_ hitems
    -- the comma ends the item before it, also where this is a number
    have hvalue := hd (l.items depth (j :: js) ++ (bs ++ ']' :: rest))
      (endsNumber_cons (.inr (by simp)) _)
    rw [hvalue, items, hhead]
    simp only [List.cons_append, List.append_assoc]

theorem scanMembers_members : ∀ (ms : List (String × Json)) (depth fuel : Nat) (n : String)
    {cs : List Char} {d : Draft} {bs : List Char} (rest : List Char), IsBlanks bs →
    (∀ rest, EndsNumber rest → scanValue (fuel + 1) (cs ++ rest) = (d, some rest)) →
    2 * (l.members depth ms).length ≤ fuel + 1 →
    scanMembers (fuel + 2) (quoted n ++ ':' :: (l.gap ++ (cs ++
      (l.members depth ms ++ (bs ++ '}' :: rest))))) =
      ((.text (some n), d) :: draftedMembers ms, .closed, some rest)
  | [], depth, fuel, n, cs, d, bs, rest, hbs, hd, _ => by
    refine scanMembers_last hbs (scanValue_quoted n _ fuel) ?_
    rw [scanValue_blanks l.gap_blanks]
    exact hd _ (endsNumber_blanks hbs (by simp))
  | (m, v) :: ms, depth, fuel, n, cs, d, bs, rest, hbs, hd, hfuel => by
    simp only [members, List.length_cons, List.length_append] at hfuel
    obtain ⟨fuel, rfl⟩ : ∃ k, fuel = k + 1 := ⟨fuel - 1, by omega⟩
    have hvalue (rest : List Char) (hr : EndsNumber rest) :=
      scanValue_chars v depth fuel hr (by omega)
    have hmembers := scanMembers_members ms depth fuel m rest hbs hvalue (by omega)
    refine scanMembers_next (l.breaks_blanks depth) (scanValue_quoted n _ _) ?_ hmembers
    have hnext := hd (l.members depth ((m, v) :: ms) ++ (bs ++ '}' :: rest))
      (endsNumber_cons (.inr (by simp)) _)
    rw [scanValue_blanks l.gap_blanks, hnext, members]
    simp [quoted]

end

end Layout

/-- The text is the value and nothing else. -/
theorem scan_chars (l : Layout) (j : Json) :
    Draft.scan (String.ofList (l.chars 0 j)) = (j.drafted, some []) := by
  have hscan := l.scanValue_chars j 0 (2 * (l.chars 0 j).length + 1) endsNumber_nil (by omega)
  rw [List.append_nil] at hscan
  rw [Draft.scan, String.toList_ofList]
  exact hscan

theorem scan_compact (j : Json) : Draft.scan j.compact = (j.drafted, some []) := by
  rw [compact, compactChars_eq 0]
  exact scan_chars .compact j

theorem scan_indented (j : Json) : Draft.scan j.indented = (j.drafted, some []) := by
  rw [indented, indentedChars_eq]
  exact scan_chars .indented j

end ChartCompiler.Json
