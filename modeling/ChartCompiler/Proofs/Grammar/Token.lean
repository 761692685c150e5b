import ChartCompiler.Expr.Text
import Mathlib.Tactic.SplitIfs
import Mathlib.Order.Basic

/-! The words of the expression language, and how a text falls into them. Spaces separate tokens,
the longest symbol wins, and a number may not run into a name. The spelling of every operator is
written down here on its own, so that a printer can be held against it. -/

namespace ChartCompiler.Grammar

inductive Token
  | word (text : List Char)
  | number (text : List Char)
  | string (value : List Char)
  | op (op : Operator)
  | bang
  | dot
  | comma
  | leftParen
  | rightParen
  | leftBracket
  | rightBracket
  deriving DecidableEq, Repr

def hexDigit? (c : Char) : Option Nat :=
  if c.isDigit then some (c.toNat - 48)
  else if 'a' ≤ c ∧ c ≤ 'f' then some (c.toNat - 87)
  else if 'A' ≤ c ∧ c ≤ 'F' then some (c.toNat - 55)
  else none

def hexChar? (a b c d : Char) : Option Char := do
  let n := 4096 * (← hexDigit? a) + 256 * (← hexDigit? b) + 16 * (← hexDigit? c) + (← hexDigit? d)
  if h : n.isValidChar then some (Char.ofNatAux n h) else none

def escape? : Char → Option Char
  | '\\' => some '\\'
  | '\'' => some '\''
  | 'n' => some '\n'
  | 'r' => some '\r'
  | _ => none

/-- Reads a string literal from behind its opening quote to its closing one, and gives what it
denotes and what follows it. -/
def unquote : List Char → Option (List Char × List Char)
  | [] => none
  | '\'' :: rest => some ([], rest)
  | '\\' :: 'u' :: a :: b :: c :: d :: rest => do
    let x ← hexChar? a b c d
    let (s, rest) ← unquote rest
    return (x :: s, rest)
  | '\\' :: e :: rest => do
    let x ← escape? e
    let (s, rest) ← unquote rest
    return (x :: s, rest)
  | c :: rest => (unquote rest).map fun (s, rest) => (c :: s, rest)

def fraction : List Char → List Char × List Char
  | '.' :: cs => ('.' :: cs.takeWhile Char.isDigit, cs.dropWhile Char.isDigit)
  | cs => ([], cs)

/-- A number without its sign, none if it runs into a name. -/
def number? (cs : List Char) : Option (Token × List Char) :=
  let tail := fraction (cs.dropWhile Char.isDigit)
  if tail.2.head?.any isNameChar then none
  else some (.number (cs.takeWhile Char.isDigit ++ tail.1), tail.2)

/-- The symbols, each behind those that it is the beginning of. -/
def symbols : List (String × Token) :=
  [("===", .op .strictEq), ("!==", .op .strictNe), (">=", .op .gte), ("<=", .op .lte),
   ("&&", .op .and), ("||", .op .or), (">", .op .gt), ("<", .op .lt), ("+", .op .add),
   ("-", .op .sub), ("*", .op .mul), ("/", .op .div), ("%", .op .mod), ("!", .bang), (".", .dot),
   (",", .comma), ("(", .leftParen), (")", .rightParen), ("[", .leftBracket), ("]", .rightBracket)]

def symbol? (cs : List Char) : Option (Token × List Char) :=
  symbols.findSome? fun (s, t) =>
    if s.toList.isPrefixOf cs then some (t, cs.drop s.length) else none

def next? : List Char → Option (Token × List Char)
  | [] => none
  | c :: cs =>
    if isNameStart c then some (.word (c :: cs.takeWhile isNameChar), cs.dropWhile isNameChar)
    else if c.isDigit then number? (c :: cs)
    else if c = '\'' then (unquote cs).map fun (s, rest) => (.string s, rest)
    else symbol? (c :: cs)

theorem unquote_length {cs s rest : List Char} (h : unquote cs = some (s, rest)) :
    rest.length < cs.length := by
  fun_induction unquote cs generalizing s rest with
  | case1 => simp at h
  | case2 rest' => simp_all
  | case3 a b c d rest' ih =>
    simp only [bind, Option.bind_eq_some_iff, pure, Option.some.injEq, Prod.mk.injEq] at h
    obtain ⟨x, -, ⟨s', r⟩, hs, -, rfl⟩ := h
    have := ih hs
    simp only [List.length_cons]
    omega
  | case4 e rest' _ ih =>
    simp only [bind, Option.bind_eq_some_iff, pure, Option.some.injEq, Prod.mk.injEq] at h
    obtain ⟨x, -, ⟨s', r⟩, hs, -, rfl⟩ := h
    have := ih hs
    simp only [List.length_cons]
    omega
  | case5 c rest' _ _ _ ih =>
    simp only [Option.map_eq_some_iff, Prod.mk.injEq] at h
    obtain ⟨⟨s', r⟩, hs, -, rfl⟩ := h
    have := ih hs
    simp only [List.length_cons]
    omega

theorem fraction_length (cs : List Char) : (fraction cs).2.length ≤ cs.length := by
  unfold fraction
  split
  next cs =>
    have := (List.dropWhile_sublist Char.isDigit (l := cs)).length_le
    simp only [List.length_cons]
    omega
  · simp

theorem number?_length {c : Char} {cs rest : List Char} {t : Token} (hc : c.isDigit)
    (h : number? (c :: cs) = some (t, rest)) : rest.length < (c :: cs).length := by
  have hd := (List.dropWhile_sublist Char.isDigit (l := cs)).length_le
  have hf := fraction_length (cs.dropWhile Char.isDigit)
  simp only [number?, List.dropWhile_cons, hc, if_true] at h
  split at h
  · simp at h
  · simp only [Option.some.injEq, Prod.mk.injEq] at h
    obtain ⟨-, rfl⟩ := h
    simp only [List.length_cons]
    omega

theorem symbols_length : ∀ s ∈ symbols, 0 < s.1.length := by decide

theorem symbol?_length {cs rest : List Char} {t : Token} (h : symbol? cs = some (t, rest)) :
    rest.length < cs.length := by
  obtain ⟨⟨s, t'⟩, hs, hp⟩ := List.exists_of_findSome?_eq_some h
  dsimp only at hp
  split_ifs at hp with hp'
  simp only [Option.some.injEq, Prod.mk.injEq] at hp
  obtain ⟨-, rfl⟩ := hp
  have h0 : 0 < s.length := symbols_length _ hs
  have hle := (List.isPrefixOf_iff_prefix.1 hp').length_le
  rw [String.length_toList] at hle
  rw [List.length_drop]
  omega

theorem next?_length {cs rest : List Char} {t : Token} (h : next? cs = some (t, rest)) :
    rest.length < cs.length := by
  cases cs with
  | nil => simp [next?] at h
  | cons c cs =>
    rw [next?] at h
    split_ifs at h with hn hd hq
    · simp only [Option.some.injEq, Prod.mk.injEq] at h
      obtain ⟨-, rfl⟩ := h
      have := (List.dropWhile_sublist isNameChar (l := cs)).length_le
      simp only [List.length_cons]
      omega
    · exact number?_length hd h
    · simp only [Option.map_eq_some_iff, Prod.mk.injEq] at h
      obtain ⟨⟨s, r⟩, hs, -, rfl⟩ := h
      have := unquote_length hs
      simp only [List.length_cons]
      omega
    · exact symbol?_length h

def tokens? (cs : List Char) : Option (List Token) :=
  match cs with
  | [] => some []
  | ' ' :: cs => tokens? cs
  | cs =>
    match _h : next? cs with
    | some (t, rest) => (tokens? rest).map (t :: ·)
    | none => none
termination_by cs.length
decreasing_by
  · simp
  · exact next?_length _h

theorem tokens?_nil : tokens? [] = some [] := by rw [tokens?]

theorem tokens?_space (cs : List Char) : tokens? (' ' :: cs) = tokens? cs := by rw [tokens?]

/-- A text falls into the token that it begins with and the tokens of what follows. -/
theorem tokens?_of_next? {cs rest : List Char} {t : Token} (h : next? cs = some (t, rest)) :
    tokens? cs = (tokens? rest).map (t :: ·) := by
  rw [tokens?]
  · split
    next h' => rw [h] at h'; cases h'; rfl
    next h' => rw [h] at h'; cases h'
  · rintro rfl
    simp [next?] at h
  · rintro cs' rfl
    cases h

end ChartCompiler.Grammar
