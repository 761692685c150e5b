import ChartCompiler.Proofs.Grammar.Printed

/-! What each layer of the grammar reads once its depth is large enough. A reader settles at a depth
when it gives one answer from there on; each lemma passes a settled part on to the layer around it,
so that the depth never has to be met exactly. -/

namespace ChartCompiler.Grammar

def Settles {α : Type} (read : Nat → Option α) (n : Nat) (a : α) : Prop :=
  ∀ m, n ≤ m → read m = some a

namespace Settles

variable {α β : Type} {read : Nat → Option α} {n : Nat} {a : α}

theorem mono {n' : Nat} (h : Settles read n a) (hn : n ≤ n') : Settles read n' a :=
  fun m hm => h m (Nat.le_trans hn hm)

theorem at_depth {m : Nat} (h : Settles read n a) (hm : n ≤ m) : read m = some a := h m hm

/-- A reader that looks one call deep settles one step later. -/
theorem succ {outer : Nat → Option β} {b : β} (h : ∀ m, n ≤ m → outer (m + 1) = some b) :
    Settles outer (n + 1) b := by
  intro m hm
  obtain ⟨k, rfl⟩ : ∃ k, m = k + 1 := ⟨m - 1, by omega⟩
  exact h k (by omega)

end Settles

/-- Tokens that go on none of the operators given, and are no selector and no arguments. -/
def Stops (ops : List Operator) (ts : List Token) : Prop :=
  ∀ t ∈ ts.head?, t ≠ .dot ∧ t ≠ .leftBracket ∧ t ≠ .leftParen ∧ ∀ o ∈ ops, t ≠ .op o

namespace Stops

variable {ops : List Operator} {ts : List Token}

theorem nil (ops : List Operator) : Stops ops [] := by simp [Stops]

theorem mono {ops' : List Operator} (h : Stops ops ts) (hs : ops' ⊆ ops) : Stops ops' ts := by
  intro t ht
  obtain ⟨hd, hl, hp, ho⟩ := h t ht
  exact ⟨hd, hl, hp, fun o h => ho o (hs h)⟩

theorem rightParen (ops : List Operator) (ts : List Token) : Stops ops (.rightParen :: ts) := by
  simp [Stops]

theorem rightBracket (ops : List Operator) (ts : List Token) :
    Stops ops (.rightBracket :: ts) := by simp [Stops]

theorem comma (ops : List Operator) (ts : List Token) : Stops ops (.comma :: ts) := by
  simp [Stops]

theorem op {o : Operator} (h : o ∉ ops) (ts : List Token) : Stops ops (.op o :: ts) := by
  simp only [Stops, List.head?_cons, Option.mem_def, Option.some.injEq, ne_eq]
  rintro t rfl
  simp only [reduceCtorEq, not_false_eq_true, Token.op.injEq, true_and]
  rintro o' ho' rfl
  exact h ho'

theorem no_call (h : Stops ops ts) : ts.head? ≠ some .leftParen := fun hp => (h _ hp).2.2.1 rfl

end Stops

section layers

variable {n : Nat} {ts rest : List Token} {a : Term × List Token} {ops : List Operator}
  {tighter : List (List Operator)}

attribute [local simp] level chain unary postfixed selectors primary arguments moreArguments

theorem level_nil (h : Settles (unary · ts) n a) : Settles (level · [] ts) (n + 1) a :=
  .succ fun m hm => by rw [level]; exact h.at_depth hm

theorem level_cons {l : Term} (h : Settles (level · tighter ts) n (l, rest))
    (hc : Settles (chain · ops tighter l rest) n a) :
    Settles (level · (ops :: tighter) ts) (n + 1) a :=
  .succ fun m hm => by
    rw [level, h.at_depth hm]
    exact hc.at_depth hm

theorem chain_stop (l : Term) (h : Stops ops rest) :
    Settles (chain · ops tighter l rest) 1 (l, rest) :=
  .succ fun m _ => by
    by_cases hop : ∃ o rest', rest = .op o :: rest'
    · obtain ⟨o, rest', rfl⟩ := hop
      have ho : o ∉ ops := fun ho => (h (.op o) (by simp)).2.2.2 o ho rfl
      rw [chain, if_neg ho]
    · rw [chain]
      exact fun o rest' hr => hop ⟨o, rest', hr⟩

theorem chain_op {o : Operator} {l r : Term} (ho : o ∈ ops)
    (hr : Settles (level · tighter ts) n (r, rest))
    (hc : Settles (chain · ops tighter (.binary o l r) rest) n a) :
    Settles (chain · ops tighter l (.op o :: ts)) (n + 1) a :=
  .succ fun m hm => by
    rw [chain, if_pos ho, hr.at_depth hm]
    exact hc.at_depth hm

theorem unary_not {e : Term} (h : Settles (unary · ts) n (e, rest)) :
    Settles (unary · (.bang :: ts)) (n + 1) (.not e, rest) :=
  .succ fun m hm => by rw [unary, h.at_depth hm, Option.map_some]

theorem unary_minus (x : List Char) :
    Settles (unary · (.op .sub :: .number x :: rest)) 1
      (.number (String.ofList ('-' :: x)), rest) :=
  .succ fun m _ => by rw [unary]

/-- What begins with a primary begins with neither a negation nor a sign. -/
theorem unary_postfixed (h : Settles (postfixed · ts) n a) :
    Settles (unary · ts) (n + 1) a :=
  .succ fun m hm => by
    have hlate := h.at_depth (m := n + 2) (by omega)
    rw [unary]
    · exact h.at_depth hm
    · rintro rest rfl
      simp at hlate
    · rintro x rest rfl
      simp at hlate

theorem postfixed_primary {e : Term} (h : Settles (primary · ts) n (e, rest))
    (hs : Settles (selectors · e rest) n a) : Settles (postfixed · ts) (n + 1) a :=
  .succ fun m hm => by
    rw [postfixed, h.at_depth hm]
    exact hs.at_depth hm

theorem selectors_stop (e : Term) (h : Stops ops rest) :
    Settles (selectors · e rest) 1 (e, rest) :=
  .succ fun m _ => by
    rw [selectors]
    · rintro p rest rfl
      exact (h .dot (by simp)).1 rfl
    · rintro rest rfl
      exact (h .leftBracket (by simp)).2.1 rfl

theorem selectors_member {e : Term} {p : List Char}
    (h : Settles (selectors · (.member e (String.ofList p)) ts) n a) :
    Settles (selectors · e (.dot :: .word p :: ts)) (n + 1) a :=
  .succ fun m hm => by rw [selectors]; exact h.at_depth hm

theorem selectors_index {e i : Term} (hi : Settles (level · levels ts) n (i, .rightBracket :: rest))
    (h : Settles (selectors · (.index e i) rest) n a) :
    Settles (selectors · e (.leftBracket :: ts)) (n + 1) a :=
  .succ fun m hm => by
    rw [selectors, hi.at_depth hm]
    exact h.at_depth hm

theorem primary_constant {w : List Char} {e : Term} (h : constant? w = some e) :
    Settles (primary · (.word w :: rest)) 1 (e, rest) :=
  .succ fun m _ => by simp [h]

theorem primary_ident {w : List Char} (h : constant? w = none) (hr : rest.head? ≠ some .leftParen) :
    Settles (primary · (.word w :: rest)) 1 (.ident (String.ofList w), rest) :=
  .succ fun m _ => by
    rcases rest with _ | ⟨t, rest⟩
    · simp [h]
    · cases t <;> simp_all

theorem primary_call {w : List Char} {es : List Term} (h : constant? w = none)
    (ha : Settles (arguments · ts) n (es, rest)) :
    Settles (primary · (.word w :: .leftParen :: ts)) (n + 1)
      (.call (String.ofList w) es, rest) :=
  .succ fun m hm => by simp [h, ha.at_depth hm]

theorem primary_number (x : List Char) :
    Settles (primary · (.number x :: rest)) 1 (.number (String.ofList x), rest) :=
  .succ fun m _ => by rw [primary]

theorem primary_string (s : List Char) :
    Settles (primary · (.string s :: rest)) 1 (.string (String.ofList s), rest) :=
  .succ fun m _ => by rw [primary]

theorem primary_parens {e : Term} (h : Settles (level · levels ts) n (e, .rightParen :: rest)) :
    Settles (primary · (.leftParen :: ts)) (n + 1) (e, rest) :=
  .succ fun m hm => by rw [primary, h.at_depth hm]

theorem arguments_nil : Settles (arguments · (.rightParen :: rest)) 1 ([], rest) :=
  .succ fun m _ => by rw [arguments]

theorem arguments_cons {e : Term} {es : List Term} {more : List Token}
    (h : Settles (level · levels ts) n (e, more))
    (hm : Settles (moreArguments · more) n (es, rest)) :
    Settles (arguments · ts) (n + 1) (e :: es, rest) :=
  .succ fun m hn => by
    have hlate := h.at_depth (m := n + 10) (by omega)
    rw [arguments, h.at_depth hn]
    · simp [hm.at_depth hn]
    · rintro rest rfl
      simp [levels] at hlate

theorem moreArguments_nil : Settles (moreArguments · (.rightParen :: rest)) 1 ([], rest) :=
  .succ fun m _ => by rw [moreArguments]

theorem moreArguments_cons {e : Term} {es : List Term} {more : List Token}
    (h : Settles (level · levels ts) n (e, more))
    (hm : Settles (moreArguments · more) n (es, rest)) :
    Settles (moreArguments · (.comma :: ts)) (n + 1) (e :: es, rest) :=
  .succ fun m hn => by
    rw [moreArguments, h.at_depth hn]
    simp [hm.at_depth hn]

/-- A unary expression is one of any level whose operators do not go on behind it. -/
theorem level_unary {e : Term} (h : Settles (unary · ts) n (e, rest)) (hn : 0 < n) :
    ∀ lv : List (List Operator), Stops lv.flatten rest →
      Settles (level · lv ts) (n + 1 + lv.length) (e, rest)
  | [], _ => level_nil h
  | ops :: tighter, hs => by
    have htight := level_unary h hn tighter (hs.mono (by simp))
    have hstop : Settles (chain · ops tighter e rest) 1 (e, rest) :=
      chain_stop e (hs.mono (by simp))
    exact (level_cons htight (hstop.mono (by omega))).mono (by simp only [List.length_cons]; omega)

end layers

end ChartCompiler.Grammar
