import ChartCompiler.Proofs.Build.Calls

/-! Sources stand behind those they read. What one call adds reads the filtered table and its own
sources only, whatever else a document holds, so runs of calls keep the order even where calls share
names or fail. -/

namespace ChartCompiler

/-- The sources that a transform reads besides the one it belongs to. -/
def Transform.reads : Transform → List String
  | .lookup l => [l.source]
  | _ => []

namespace Source

def originReads : Origin → List String
  | .inline _ => []
  | .derived n => [n]
  | .concatenated ns => ns

def reads (s : Source) : List String :=
  originReads s.origin ++ s.transforms.flatMap Transform.reads

/-- Every source reads only those before it. -/
def Closed (ss : List Source) : Prop :=
  ∀ earlier s later, ss = earlier ++ s :: later → ∀ n ∈ s.reads, n ∈ earlier.map name

def ReadsKnown : List String → List Source → Prop
  | _, [] => True
  | known, s :: ss => s.reads ⊆ known ∧ ReadsKnown (known ++ [s.name]) ss

theorem readsKnown_append (known : List String) (ss ts : List Source) :
    ReadsKnown known (ss ++ ts) ↔
      ReadsKnown known ss ∧ ReadsKnown (known ++ ss.map name) ts := by
  induction ss generalizing known with
  | nil => simp [ReadsKnown]
  | cons s ss ih => simp [ReadsKnown, ih, and_assoc]

theorem ReadsKnown.mono {known known' : List String} (hk : known ⊆ known') {ss : List Source}
    (h : ReadsKnown known ss) : ReadsKnown known' ss := by
  induction ss generalizing known known' with
  | nil => trivial
  | cons s ss ih =>
    refine ⟨List.Subset.trans h.1 hk, ih ?_ h.2⟩
    exact List.append_subset.2
      ⟨List.Subset.trans hk (List.subset_append_left _ _), List.subset_append_right _ _⟩

theorem readsKnown_flatMap {β : Type} {known : List String} {f : β → List Source} {bs : List β}
    (h : ∀ b ∈ bs, ReadsKnown known (f b)) : ReadsKnown known (bs.flatMap f) := by
  induction bs with
  | nil => trivial
  | cons b bs ih =>
    obtain ⟨hb, hbs⟩ := List.forall_mem_cons.1 h
    rw [List.flatMap_cons, readsKnown_append]
    exact ⟨hb, (ih hbs).mono (List.subset_append_left _ _)⟩

theorem ReadsKnown.closed {ss : List Source} (h : ReadsKnown [] ss) : Closed ss := by
  rintro earlier s later rfl
  rw [readsKnown_append] at h
  exact h.2.1

@[simp] theorem name_derive (n source : String) (ts : List Transform) :
    (derive n source ts).name = n := rfl

@[simp] theorem reads_derive (n source : String) (ts : List Transform) :
    (derive n source ts).reads = source :: ts.flatMap Transform.reads := rfl

end Source

open Source

theorem DerivedField.Simple.reads {f : DerivedField} (h : f.Simple) :
    f.transforms.flatMap Transform.reads = [] :=
  h.flatMap_transforms (fun _ _ => rfl) fun _ => rfl

namespace Transform

@[simp] theorem filter_reads (test : Expr) : (filter test).reads = [] := rfl

@[simp] theorem inRange_reads (dimension : String) (range : Option Number × Option Number) :
    (inRange dimension range).flatMap Transform.reads = [] := by
  rw [inRange]
  cases Expr.all _ <;> rfl

@[simp] theorem statistical_reads (m : SeriesMark) (method : FitMethod) (params : Bool) :
    (statistical m method params).flatMap Transform.reads = [] := by
  cases method <;> rfl

@[simp] theorem curveFormula_reads (method : FitMethod) (dimension : String) :
    (curveFormula method dimension).toList.flatMap Transform.reads = [] := by
  rw [curveFormula]
  cases curve method dimension <;> rfl

end Transform

namespace Trendline

variable (m : SeriesMark) (t : Trendline) (ts : List Trendline)

/-- Only the rows read another source of their trendline, its coefficients. -/
theorem sources_readsKnown : ReadsKnown [Names.filteredTable] (sources m t) := by
  have hseries := (DerivedField.simple_seriesId m.facets.all).reads
  have hparams : (Transform.lookupParams t.name m.facets.all).reads = [t.paramsSource] := rfl
  rw [sources]
  split_ifs <;> simp [ReadsKnown, hseries, hparams]

/-- A trendline has the source that its line is drawn from. -/
theorem lineSource_mem : t.lineSource ∈ (sources m t).map Source.name := by
  rw [sources, lineSource]
  split_ifs <;> simp

/-- An interactive trendline has a source with its value in each row. -/
theorem rowSource_mem (h : t.isInteractive) : t.rowSource ∈ (sources m t).map Source.name := by
  rw [sources]
  split_ifs <;> simp

theorem allSources_readsKnown : ReadsKnown [Names.filteredTable] (allSources m ts) := by
  rw [allSources, readsKnown_append]
  refine ⟨readsKnown_flatMap fun t _ => sources_readsKnown m t, ?_⟩
  rw [combinedSources]
  split_ifs with hnone
  · trivial
  · refine ⟨?_, by simp, trivial⟩
    intro n hn
    simp only [reads, originReads, List.flatMap_nil, List.append_nil, List.mem_map,
      List.mem_filter] at hn
    obtain ⟨t, ⟨ht, hint⟩, rfl⟩ := hn
    refine List.mem_append_right _ ?_
    rw [List.map_flatMap]
    exact List.mem_flatMap.2 ⟨t, ht, rowSource_mem m t hint⟩

end Trendline

theorem SeriesMark.lineSources_readsKnown (m : SeriesMark) :
    ReadsKnown [Names.filteredTable] m.lineSources := by
  rw [lineSources]
  cases m.staticPoint <;> split_ifs <;> simp [ReadsKnown]

theorem SeriesMark.trendlineAdditions_readsKnown (m : SeriesMark) :
    ReadsKnown [Names.filteredTable] m.trendlineAdditions.sources :=
  trendlineAdditions_induction (P := fun a => ReadsKnown [Names.filteredTable] a.sources) trivial
    (Trendline.allSources_readsKnown m)

theorem Call.sources_readsKnown (c : Call) :
    ReadsKnown [Names.filteredTable] c.additions.sources := by
  cases c with
  | line m =>
    rw [additions, Additions.append_sources, Additions.append_sources,
      SeriesMark.lineFinish_sources, List.append_nil, readsKnown_append]
    exact ⟨m.lineSources_readsKnown,
      m.trendlineAdditions_readsKnown.mono (List.subset_append_left _ _)⟩
  | bar b => exact b.toSeriesMark.trendlineAdditions_readsKnown
  | trendlines m => exact m.toSeriesMark.trendlineAdditions_readsKnown

namespace Document

variable (scheme : ColorScheme) (width height : Option Number)

/-- The transforms of the table read nothing. -/
theorem table_reads {fs : List DerivedField} (h : ∀ f ∈ fs, f.Simple) :
    (tableOf (fs.foldl addField [.identifier Names.markId])).reads = [] := by
  rw [foldl_addField]
  refine List.flatMap_eq_nil_iff.2 fun t ht => ?_
  rcases List.mem_append.1 ht with ht | ht
  · rw [List.mem_singleton.1 ht]
    rfl
  · obtain ⟨f, hf, ht⟩ := List.mem_flatMap.1 ht
    exact List.flatMap_eq_nil_iff.1 (h f (keptFields_subset _ _ f hf)).reads t ht

/-- In every document that calls reach from that of an empty chart, each source reads only sources
that stand before it. -/
theorem run_closed (cs : List Call) : Closed (run cs (start scheme width height)).sources := by
  have htable : (tableOf ((cs.flatMap (·.additions.fields)).foldl addField
      [.identifier Names.markId])).reads = [] := by
    refine table_reads fun f hf => ?_
    obtain ⟨c, -, hf⟩ := List.mem_flatMap.1 hf
    exact c.fields_simple f hf
  have hcalls : ReadsKnown [Names.filteredTable] (cs.flatMap (·.additions.sources)) :=
    readsKnown_flatMap fun c _ => c.sources_readsKnown
  rw [sources_run]
  refine ReadsKnown.closed ⟨?_, ?_, hcalls.mono ?_⟩
  · rw [htable]
    exact List.nil_subset _
  · simp [filtered, tableOf]
  · simp [filtered]

end Document

end ChartCompiler
