import ChartCompiler.Command
import ChartCompiler.Proofs.Document.Scanned
import ChartCompiler.Proofs.Document.Shown

/-! What a run leaves behind. The options choose where the description comes from, where the
document goes and which of its two texts is written; whether there is a document at all is up to the
description. A run that ends without one has touched no file. -/

namespace ChartCompiler.Command

/-- The text is a chart description, and its chart can be drawn as that document. -/
def Describes (text : String) (d : Document) : Prop :=
  ∃ chart, Input.chartOfText text = .ok chart ∧ chart.build = .ok d

def World.input (w : World) (o : Options) : Option String :=
  if o.input = "-" then w.stdin else w.read o.input

def World.readAfter (w : World) (r : Response) (path : String) : Option String :=
  match r.file with
  | some (written, content) => if path = written then some content else w.read path
  | none => w.read path

variable {w : World} {args : List String} {o : Options} {text : String} {d : Document}

def Options.deliver (o : Options) (d : Document) : Response :=
  match o.output with
  | some path => { exit := 0, file := some (path, o.print d) }
  | none => { exit := 0, stdout := o.print d ++ "\n" }

structure Response.IsFailure (r : Response) : Prop where
  exit : r.exit = 1
  stdout : r.stdout = ""
  file : r.file = none

theorem Response.failed_isFailure (what : String) (cause : Option String) :
    (failed what cause).IsFailure := ⟨rfl, rfl, rfl⟩

/-! ### One response -/

theorem Describes.respond (h : Describes text d) (o : Options) :
    o.respond (some text) = o.deliver d := by
  obtain ⟨chart, hread, hbuild⟩ := h
  simp only [Options.respond, hread, hbuild]
  rfl

/-- A text describes one document. -/
theorem Describes.unique {d' : Document} (h : Describes text d) (h' : Describes text d') :
    d = d' := by
  obtain ⟨chart, hread, hbuild⟩ := h
  obtain ⟨chart', hread', hbuild'⟩ := h'
  obtain rfl := Except.ok.inj (hread.symm.trans hread')
  exact Except.ok.inj (hbuild.symm.trans hbuild')

theorem respond_isFailure (h : ¬∃ d, Describes text d) (o : Options) :
    (o.respond (some text)).IsFailure := by
  simp only [Options.respond]
  cases hread : Input.chartOfText text with
  | error e => exact Response.failed_isFailure _ _
  | ok chart =>
    dsimp only
    cases hbuild : chart.build with
    | error e => exact Response.failed_isFailure _ _
    | ok d => exact absurd ⟨d, chart, hread, hbuild⟩ h

theorem deliver_ifWritable (h : ∀ path ∈ o.output, w.writable path) :
    (o.deliver d).ifWritable w.writable = o.deliver d := by
  unfold Options.deliver Response.ifWritable
  cases hout : o.output with
  | none => rfl
  | some path => exact if_pos (h path hout)

theorem Response.IsFailure.ifWritable {r : Response} (h : r.IsFailure) (writable : String → Bool) :
    r.ifWritable writable = r := by
  simp [Response.ifWritable, h.file]

theorem run_eq (hargs : Options.ofArgs args = some o) :
    run w args = (o.respond (w.input o)).ifWritable w.writable := by
  simp only [run, hargs, World.input]

/-- Two ways to end: the document is handed over, or nothing is. -/
theorem run_cases (hargs : Options.ofArgs args = some o) (hin : w.input o = some text)
    (hout : ∀ path ∈ o.output, w.writable path) :
    (∃ d, Describes text d ∧ run w args = o.deliver d) ∨
      (¬∃ d, Describes text d) ∧ (run w args).IsFailure := by
  rw [run_eq hargs, hin]
  by_cases h : ∃ d, Describes text d
  · obtain ⟨d, hd⟩ := h
    exact .inl ⟨d, hd, by rw [hd.respond, deliver_ifWritable hout]⟩
  · refine .inr ⟨h, ?_⟩
    rw [(respond_isFailure h o).ifWritable]
    exact respond_isFailure h o

/-! ### What is left behind -/

theorem deliver_exit (o : Options) (d : Document) : (o.deliver d).exit = 0 := by
  unfold Options.deliver
  split <;> rfl

theorem deliver_stdout (o : Options) (d : Document) :
    (o.deliver d).stdout = if o.output.isNone then o.print d ++ "\n" else "" := by
  unfold Options.deliver
  cases o.output <;> rfl

theorem readAfter_deliver (w : World) (o : Options) (d : Document) (path : String) :
    w.readAfter (o.deliver d) path =
      if o.output = some path then some (o.print d) else w.read path := by
  unfold Options.deliver World.readAfter
  cases o.output with
  | none => rfl
  | some written => simp only [Option.some.injEq, eq_comm]

theorem Response.IsFailure.readAfter {r : Response} (h : r.IsFailure) (w : World) (path : String) :
    w.readAfter r path = w.read path := by
  simp only [World.readAfter, h.file]

/-- Of the document's two texts, the one with more blanks is the other one but for these. -/
theorem print_withoutBlanks (o : Options) (d : Document) :
    Json.withoutBlanks (o.print d).toList = ({ o with pretty := false }.print d).toList := by
  have hcompact : ({ o with pretty := false }.print d) = d.toJson.compact := rfl
  rw [hcompact, Options.print]
  split
  · exact Json.withoutBlanks_indented d.toJson
  · exact Json.withoutBlanks_compact d.toJson

/-- Either text is read to its end, and what is read shows the document. -/
theorem print_shows (o : Options) (d : Document) :
    ∃ j, d.ShownBy j ∧ Json.Draft.scan (o.print d) = (j.drafted, some []) := by
  refine ⟨d.toJson, d.toJson_shown, ?_⟩
  unfold Options.print
  split
  · exact Json.scan_indented d.toJson
  · exact Json.scan_compact d.toJson

/-- A run with arguments that are understood, an input that can be read and an output that can be
written ends with 0 just when the input describes a document, whatever else is asked for. Then the
document is written, with a line break to standard output or as it is to the file that is named, and
it differs from the one written without `--pretty` in blanks only. Otherwise it ends with 1 and
nothing is written. -/
theorem run_exit_iff (hargs : Options.ofArgs args = some o) (hin : w.input o = some text)
    (hout : ∀ path ∈ o.output, w.writable path) :
    ((run w args).exit = 0 ↔ ∃ d, Describes text d) ∧
    (∀ d, Describes text d →
      (run w args).stdout = (if o.output.isNone then o.print d ++ "\n" else "") ∧
      (∀ path, w.readAfter (run w args) path =
        if o.output = some path then some (o.print d) else w.read path) ∧
      Json.withoutBlanks (o.print d).toList = ({ o with pretty := false }.print d).toList) ∧
    ((run w args).exit ≠ 0 →
      (run w args).exit = 1 ∧ (run w args).stdout = "" ∧
        ∀ path, w.readAfter (run w args) path = w.read path) := by
  rcases run_cases hargs hin hout with ⟨d, hd, hrun⟩ | ⟨hnone, hfail⟩
  · rw [hrun]
    refine ⟨iff_of_true (deliver_exit o d) ⟨d, hd⟩, fun d' hd' => ?_,
      fun hexit => absurd (deliver_exit o d) hexit⟩
    obtain rfl := hd.unique hd'
    exact ⟨deliver_stdout o d, readAfter_deliver w o d, print_withoutBlanks o d⟩
  · have hexit : (run w args).exit ≠ 0 := by rw [hfail.exit]; decide
    exact ⟨iff_of_false hexit hnone, fun d hd => absurd ⟨d, hd⟩ hnone,
      fun _ => ⟨hfail.exit, hfail.stdout, hfail.readAfter w⟩⟩

/-- Only `description.json` can be read, and it holds an empty description; only `chart.json` can be
written. -/
def describedWorld : World where
  stdin := none
  read := fun path => if path = "description.json" then some "\x7b\x7d" else none
  writable := fun path => path = "chart.json"

theorem run_exit_iff_described :
    let response :=
      run describedWorld ["-v", "--pretty", "--output", "chart.json", "description.json"]
    ∃ d, Describes "\x7b\x7d" d ∧ response.exit = 0 ∧ response.stdout = "" ∧
      describedWorld.readAfter response "chart.json" = some d.toJson.indented ∧
      describedWorld.readAfter response "description.json" = some "\x7b\x7d" := by
  intro response
  obtain ⟨d, hd⟩ : ∃ d, Describes "\x7b\x7d" d := ⟨_, {}, rfl, rfl⟩
  have hargs : Options.ofArgs ["-v", "--pretty", "--output", "chart.json", "description.json"] =
      some { input := "description.json", output := some "chart.json", pretty := true,
             verbose := true } := by decide +kernel
  obtain ⟨hexit, hwritten, -⟩ := run_exit_iff (w := describedWorld) hargs rfl
    (by intro path hpath; cases hpath; rfl)
  obtain ⟨hstdout, hfiles, -⟩ := hwritten d hd
  exact ⟨d, hd, hexit.2 ⟨d, hd⟩, hstdout, hfiles "chart.json", hfiles "description.json"⟩

end ChartCompiler.Command
