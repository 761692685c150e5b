import ChartCompiler.Proofs.Build.Declared
import ChartCompiler.Proofs.Grammar.RoundTrip

/-! How a document spells what its author wrote. Texts of the author get into expressions as fields
of the row, as strings in quotes, and in the names of the signals of a mark. The first two are read
back whatever they are. A signal is called by the name of its mark as it stands, so it is read back
only where this is a name. -/

namespace ChartCompiler

open Grammar Trendline

namespace Expr

structure WellNamed (e : Expr) : Prop where
  names : ∀ n ∈ e.names, isName n.toList
  calls : ∀ f ∈ e.calls, isName f.toList

variable {e : Expr} {V : Vocabulary}

theorem functions_plain : ∀ f ∈ functions ++ scaleFunctions, isName f.toList ∧ f ∉ reserved := by
  decide

theorem allReadable_iff {es : List Expr} : AllReadable es ↔ ∀ e ∈ es, e.Readable := by
  induction es with
  | nil => simp [AllReadable]
  | cons e es ih => simp [AllReadable, ih]

theorem readable_datum (f : String) : (datum f).Readable :=
  ⟨⟨by decide, by decide⟩, fun _ ⟨_, h, _⟩ => nomatch h⟩

/-- A written expression can be read if its signals are called by names that stand for no value, and
its numbers are finite. -/
theorem Written.readable (hsignal : ∀ n, V.signal n → n ∉ reserved)
    (hnumber : ∀ v, V.number v → v.isFinite) (h : e.Written V)
    (hnames : ∀ p ∈ e.parts, ∀ n ∈ p.ident?, isName n.toList) : e.Readable := by
  have hplain {f : String} (hf : f ∈ functions ++ scaleFunctions) : IsPlainName f :=
    functions_plain f hf
  induction h with
  | signal h => exact ⟨hnames _ List.mem_cons_self _ rfl, hsignal _ h⟩
  | datum f => exact readable_datum f
  | nestedDatum f => exact ⟨readable_datum "datum", fun _ ⟨_, h, _⟩ => nomatch h⟩
  | index _ _ he hi =>
    rw [parts, List.forall_mem_cons, List.forall_mem_append] at hnames
    exact ⟨he hnames.2.1, hi hnames.2.2⟩
  | nat h => exact Number.ofNat_isFinite h
  | number h => exact hnumber _ h
  | string | bool | null => trivial
  | not _ he =>
    rw [parts, List.forall_mem_cons] at hnames
    exact he hnames.2
  | binary _ _ hl hr =>
    rw [parts, List.forall_mem_cons, List.forall_mem_append] at hnames
    exact ⟨hl hnames.2.1, hr hnames.2.2⟩
  | call hf _ hargs =>
    rw [parts, List.forall_mem_cons] at hnames
    refine ⟨hplain (List.mem_append_left _ hf), allReadable_iff.2 fun a ha => hargs a ha ?_⟩
    exact fun p hp => hnames.2 p (mem_partsOfArgs.2 ⟨a, ha, hp⟩)
  | scale hf _ _ hargs =>
    rw [parts, List.forall_mem_cons] at hnames
    refine ⟨hplain (List.mem_append_right _ hf), trivial, allReadable_iff.2 fun a ha =>
      hargs a ha fun p hp => hnames.2 p ?_⟩
    exact mem_partsOfArgs.2 ⟨a, List.mem_cons_of_mem _ ha, hp⟩

end Expr

theorem tokens?_word {w : List Char} (h : isName w) : tokens? w = some [.word w] := by
  have := Splits.next (next?_word h (.nil isNameChar))
  simpa [Splits, tokens?_nil] using this

theorem isNameChar_of_isNameStart {c : Char} (h : isNameStart c) : isNameChar c := by
  simp only [isNameStart, isNameChar, Char.isAlphanum, Bool.or_eq_true] at h ⊢
  tauto

/-- Behind a text and in front of nothing a name makes a name exactly if the text is one. -/
theorem isName_append {a s : String} (hs : isName s.toList) :
    isName (a ++ s).toList ↔ a = "" ∨ isName a.toList := by
  rw [String.toList_append]
  cases ha : a.toList with
  | nil => simp [hs, String.toList_eq_nil_iff.1 ha]
  | cons c cs =>
    have hne : a ≠ "" := by
      rintro rfl
      cases ha
    have hchars : s.toList.all isNameChar := by
      cases hs' : s.toList with
      | nil => rfl
      | cons c' cs' =>
        rw [hs', isName, Bool.and_eq_true] at hs
        rw [List.all_cons, isNameChar_of_isNameStart hs.1, hs.2, Bool.and_self]
    simp [isName, hne, hchars]

namespace ChartMark

/-- What is pointed at or picked on a mark is read: the mark is a line with a tooltip or a popover,
or a trendline of it has one or is shown for the series pointed at only. -/
def ReadsSignals (m : ChartMark) : Prop :=
  (∃ l, m = line l ∧ hasInteractive l.children) ∨
    m.toSeriesMark.HasTrendline fun t => t.isInteractive ∨ t.displayOnHover

def signalSuffixes : List String :=
  ["_hoveredId", "_hoveredSeries", "_selectedId", "_selectedSeries"]

def signalNames (m : ChartMark) : List String :=
  signalSuffixes.map (m.toSeriesMark.name ++ ·) ++
    signalSuffixes.map (sharedName m.toSeriesMark.name ++ ·)

variable {m : ChartMark} {ts : List Trendline} {n : String}

theorem isName_of_mem_signalNames (hn : n ∈ m.signalNames) :
    isName n.toList ↔ m.toSeriesMark.name = "" ∨ isName m.toSeriesMark.name.toList := by
  have hsuffixes : ∀ s ∈ signalSuffixes, isName s.toList ∧ isName ("Trendline" ++ s).toList := by
    decide
  rcases List.mem_append.1 hn with hn | hn
  · obtain ⟨s, hs, rfl⟩ := List.mem_map.1 hn
    exact isName_append (hsuffixes s hs).1
  · obtain ⟨s, hs, rfl⟩ := List.mem_map.1 hn
    rw [sharedName, String.append_assoc]
    exact isName_append (hsuffixes s hs).2

theorem not_reserved_of_mem_signalNames (hn : n ∈ m.signalNames) : n ∉ reserved := by
  have hsuffixes : ∀ s ∈ signalSuffixes, IsSuffix s := by decide
  have hreserved : ∀ r ∈ reserved, '_' ∉ r.toList := by decide
  intro hr
  rcases List.mem_append.1 hn with hn | hn <;> obtain ⟨s, hs, rfl⟩ := List.mem_map.1 hn <;>
    exact append_suffix_ne (hsuffixes s hs) (hreserved _ hr) rfl

theorem own_mem_signalNames {s : String} (hs : s ∈ signalSuffixes) :
    m.toSeriesMark.name ++ s ∈ m.signalNames :=
  List.mem_append_left _ (List.mem_map_of_mem hs)

theorem shared_mem_signalNames {s : String} (hs : s ∈ signalSuffixes) :
    sharedName m.toSeriesMark.name ++ s ∈ m.signalNames :=
  List.mem_append_right _ (List.mem_map_of_mem hs)

@[simp] theorem withScheme_readsSignals (scheme : ColorScheme) (m : ChartMark) :
    (m.withScheme scheme).ReadsSignals ↔ m.ReadsSignals := by
  refine or_congr ?_ (withScheme_hasTrendline _ _)
  cases m <;> simp [withScheme]

@[simp] theorem withScheme_signalNames (scheme : ColorScheme) (m : ChartMark) :
    (m.withScheme scheme).signalNames = m.signalNames := by
  simp [signalNames]

theorem readsSignals_of_trendline (hts : m.toSeriesMark.trendlines = .ok ts)
    {p : Trendline → Bool} (hp : ∀ t, p t → t.isInteractive ∨ t.displayOnHover) (h : ts.any p) :
    m.ReadsSignals := by
  obtain ⟨t, ht, hpt⟩ := List.any_eq_true.1 h
  exact .inr ⟨ts, hts, t, ht, hp t hpt⟩

/-- The signals that a mark declares are its own, and it reads them. -/
theorem readsSignals_of_mem (hts : m.toSeriesMark.trendlines = .ok ts)
    (hn : n ∈ m.toCall.additions.signals.map Signal.name) : m.ReadsSignals ∧ n ∈ m.signalNames := by
  have htip (t : Trendline) (h : hasTooltip t.children) : t.isInteractive ∨ t.displayOnHover :=
    .inl (hasInteractive_of_hasTooltip h)
  have hpop (t : Trendline) (h : hasPopover t.children) : t.isInteractive ∨ t.displayOnHover :=
    .inl (hasInteractive_of_hasPopover h)
  rcases (mem_signalNames hts).1 hn with hshared | ⟨l, rfl, hline⟩
  · rcases Trendline.mem_signalNames.1 hshared with ⟨hany, rfl | rfl⟩ | ⟨hany, rfl⟩ | ⟨hany, rfl | rfl⟩
    · exact ⟨readsSignals_of_trendline hts htip hany, shared_mem_signalNames (by decide)⟩
    · exact ⟨readsSignals_of_trendline hts htip hany, shared_mem_signalNames (by decide)⟩
    · exact ⟨readsSignals_of_trendline hts (fun _ h => .inr h) hany, own_mem_signalNames (by decide)⟩
    · exact ⟨readsSignals_of_trendline hts hpop hany, shared_mem_signalNames (by decide)⟩
    · exact ⟨readsSignals_of_trendline hts hpop hany, shared_mem_signalNames (by decide)⟩
  · have hreads (h : hasInteractive l.children) : (line l).ReadsSignals := .inl ⟨l, rfl, h⟩
    rcases SeriesMark.mem_lineSignalNames.1 hline with ⟨hint, rfl⟩ | ⟨hpicked, rfl | rfl⟩
    · exact ⟨hreads hint, own_mem_signalNames (m := line l) (by decide)⟩
    · exact ⟨hreads (hasInteractive_of_hasPopover hpicked), own_mem_signalNames (m := line l) (by decide)⟩
    · exact ⟨hreads (hasInteractive_of_hasPopover hpicked), own_mem_signalNames (m := line l) (by decide)⟩

end ChartMark

/-- A trendline that is shown on hover is there for the series pointed at on its mark. -/
theorem Document.evaluates_hoveredSeries {d : Document} {m : SeriesMark} {t : Trendline}
    (hgroup : group m t ∈ d.marks) (hhover : t.displayOnHover) :
    d.Evaluates (.strictEq (.signal (m.name ++ "_hoveredSeries")) (.datum Names.seriesId)) := by
  obtain ⟨earlier, later, hmarks⟩ := List.append_of_mem hgroup
  have hline : Placed d.marks (group m t).partition? [] (line m t) := .inside (.top hmarks) rfl
  have hchannel : ("strokeOpacity", lineOpacity m.name (.fixed t.opacity) t.displayOnHover) ∈
      (line m t).channels := by
    rw [Mark.channels_of_rules rfl (by simp) (by simp)]
    simp
  rw [lineOpacity, if_pos hhover] at hchannel
  exact .channel ⟨_, _, _, _, hline, hchannel, List.mem_cons_self⟩ List.mem_cons_self

namespace Chart

variable {c : Chart} {d : Document} {e : Expr}

/-- What the expressions of a chart's document are written with: the row and the signals of every
chart, the signals of marks that read any, and the bounds of trendlines. -/
def vocabulary (c : Chart) : Vocabulary where
  signal n := n ∈ ["datum", "width", "height", Names.backgroundColor] ∨
    ∃ m ∈ c.marks, m.ReadsSignals ∧ n ∈ m.signalNames
  scale _ := True
  number v := ∃ m ∈ c.marks, m.toSeriesMark.HasTrendline fun t => t.HasBound v

theorem written_of_evaluates (h : c.build = .ok d) (he : d.Evaluates e) :
    e.Written c.vocabulary := by
  have hcovered : ∀ m ∈ c.marks, (m.withScheme c.scheme).Covered c.vocabulary.toScope := by
    intro m hm
    obtain ⟨ts, hts⟩ := trendlines_of_build h m hm
    have hts : (m.withScheme c.scheme).toSeriesMark.trendlines = .ok ts := by simpa using hts
    exact {
      datum := .inl (by decide)
      width := .inl (by decide)
      height := .inl (by decide)
      background := .inl (by decide)
      metric := trivial
      signals := fun n hn => by
        obtain ⟨hreads, hn⟩ := ChartMark.readsSignals_of_mem hts hn
        exact .inr ⟨m, hm, by simpa using hreads, by simpa using hn⟩
      scales := fun _ _ => trivial
      hovered := fun hpop => by
        rw [ChartMark.withScheme_hasTrendline] at hpop
        rw [ChartMark.withScheme_name]
        obtain ⟨ts, hts, t, ht, hpop⟩ := hpop
        have hreads : m.ReadsSignals := .inr ⟨ts, hts, t, ht, .inl (hasInteractive_of_hasPopover hpop)⟩
        exact .inr ⟨m, hm, hreads, ChartMark.shared_mem_signalNames (by decide)⟩
      lineWidth := fun _ _ => trivial
      opacity := fun _ _ => trivial }
  have hwritten := additions_written h hcovered fun m hm v hv => ⟨m, hm, hv⟩
  obtain ⟨-, rfl⟩ := (c.build_ok_iff d).1 h
  exact Document.evaluates_written hwritten he

/-- What is pointed at is read on every mark that reads signals. -/
theorem evaluates_signal (h : c.build = .ok d) {m : ChartMark} (hm : m ∈ c.marks)
    (hreads : m.ReadsSignals) : ∃ e, d.Evaluates e ∧ ∃ n ∈ m.signalNames, n ∈ e.names := by
  rcases hreads with ⟨l, rfl, hint⟩ | ⟨ts, hts, t, ht, hint | hhover⟩
  · let l' : SeriesMark := { l with scheme := c.scheme }
    have hadded : .derive l'.highlightedSource Names.filteredTable
        [.filter (.highlighted l'.name (hasPopover l'.children))] ∈ c.sourcesOf (.line l) := by
      simp [sourcesOf, ChartMark.withScheme, ChartMark.toCall, Call.additions, SeriesMark.lineBase,
        SeriesMark.lineSources, l', hint]
    exact ⟨_, .source (sources_subset_build h hm hadded) List.mem_cons_self List.mem_cons_self,
      _, ChartMark.own_mem_signalNames (m := .line l) (by decide), Expr.hovered_mem_names _ _⟩
  · obtain ⟨e, he, hn⟩ := evaluates_hovered_of_interactive h hm ⟨ts, hts, t, ht, hint⟩
    exact ⟨e, he, _, ChartMark.shared_mem_signalNames (by decide), hn⟩
  · have hgroup := (trendlines_subset_build h hm hts).2
      (List.mem_append_left _ (List.mem_map_of_mem ht))
    refine ⟨_, Document.evaluates_hoveredSeries hgroup hhover, _,
      ChartMark.own_mem_signalNames (s := "_hoveredSeries") (by decide), ?_⟩
    rw [ChartMark.withScheme_name]
    exact List.mem_cons_self

def FiniteRanges (c : Chart) : Prop :=
  ∀ m ∈ c.marks, ∀ v, (m.toSeriesMark.HasTrendline fun t => t.HasBound v) → v.isFinite

theorem not_reserved_of_vocabulary {n : String} (hn : c.vocabulary.signal n) : n ∉ reserved := by
  have hbase : ∀ n ∈ ["datum", "width", "height", Names.backgroundColor], n ∉ reserved := by decide
  rcases hn with hn | ⟨m, -, -, hn⟩
  · exact hbase n hn
  · exact ChartMark.not_reserved_of_mem_signalNames hn

/-- Every expression of a document calls signals and functions by names, exactly if every mark that
reads signals is called by a name or by nothing. What calls them so is read back from its text, with
one token for each signal, whatever fields and strings stand in it. -/
theorem wellNamed_iff (h : c.build = .ok d) :
    ((∀ e, d.Evaluates e → e.WellNamed) ↔ ∀ m ∈ c.marks, m.ReadsSignals →
      m.toSeriesMark.name = "" ∨ isName m.toSeriesMark.name.toList) ∧
    ∀ e, d.Evaluates e → e.WellNamed →
      (∀ n ∈ e.names, tokens? n.toList = some [.word n.toList]) ∧
      (c.FiniteRanges → Grammar.read e.render = some e.term) := by
  refine ⟨⟨fun hnamed m hm hreads => ?_, fun hmarks e he => ⟨?_, ?_⟩⟩, fun e he hnamed => ⟨?_, ?_⟩⟩
  · obtain ⟨e, he, n, hn, hne⟩ := evaluates_signal h hm hreads
    exact (ChartMark.isName_of_mem_signalNames hn).1 ((hnamed e he).names n hne)
  · intro n hn
    have hbase : ∀ n ∈ ["datum", "width", "height", Names.backgroundColor], isName n.toList := by
      decide
    have hdatum : c.vocabulary.signal "datum" := .inl List.mem_cons_self
    have hresolves := (written_of_evaluates h he).resolves hdatum
    rcases hresolves.signal n hn with hn | ⟨m, hm, hreads, hn⟩
    · exact hbase n hn
    · exact (ChartMark.isName_of_mem_signalNames hn).2 (hmarks m hm hreads)
  · exact fun f hf => (Expr.functions_plain f ((written_of_evaluates h he).calls f hf)).1
  · exact fun n hn => tokens?_word (hnamed.names n hn)
  · intro hranges
    have hreadable : e.Readable := by
      refine (written_of_evaluates h he).readable (fun n hn => not_reserved_of_vocabulary hn) ?_ ?_
      · rintro v ⟨m, hm, hv⟩
        exact hranges m hm v hv
      · exact fun p hp n hn => hnamed.names n (List.mem_filterMap.2 ⟨p, hp, hn⟩)
    exact Expr.read_of_readable hreadable

/-- Only the mark is called by a name; no field of it is one. -/
theorem wellNamed_quoted_fields :
    let c : Chart := { marks := [.line {
      name := "revenue", dimension := "fiscal year", color := .field "it's", staticPoint := some "a.b"
      children := [.tooltip [], .trendline [] { dimensionRange := some (some 1, none) }] }] }
    ∃ d, c.build = .ok d ∧
      ∀ e, d.Evaluates e → e.WellNamed ∧ Grammar.read e.render = some e.term := by
  intro c
  have h : c.build = .ok _ := rfl
  have hnamed := (wellNamed_iff h).1.2 fun m hm _ => by
    rw [List.mem_singleton.1 hm]
    exact .inr (by decide)
  have hranges : c.FiniteRanges := by
    rintro m hm v ⟨ts, hts, t, ht, hv⟩
    rw [List.mem_singleton.1 hm] at hts
    obtain rfl := Except.ok.inj hts
    rw [List.mem_singleton.1 ht] at hv
    rcases hv with hv | hv
    · obtain rfl := Option.some.inj hv
      decide
    · cases hv
  exact ⟨_, h, fun e he => ⟨hnamed e he, ((wellNamed_iff h).2 e he (hnamed e he)).2 hranges⟩⟩

/-- The name of the only line has a space in it. -/
theorem not_wellNamed_spaced_mark :
    ¬∀ (c : Chart) (d : Document), c.build = .ok d → ∀ e, d.Evaluates e → e.WellNamed := by
  intro hnamed
  let m : ChartMark := .line { name := "my line", children := [.tooltip []] }
  have h : ({ marks := [m] } : Chart).build = .ok _ := rfl
  obtain ⟨e, he, n, hn, hne⟩ :=
    evaluates_signal h (List.mem_singleton_self m) (.inl ⟨_, rfl, rfl⟩)
  have hname := (ChartMark.isName_of_mem_signalNames hn).1 ((hnamed _ _ h e he).names n hne)
  revert hname
  decide

end Chart

end ChartCompiler
