import ChartCompiler.Build.Marks
import ChartCompiler.Input.ChartText
import ChartCompiler.Json.Printer

/-! The command: it reads a chart description from a file or from standard input and writes the
compiled document to standard output or to a file. Nothing is written before the document is
complete. -/

namespace ChartCompiler.Command

structure Options where
  /-- A file, or `-` for standard input. -/
  input : String := "-"
  output : Option String := none
  pretty : Bool := false
  /-- Asks for a log of the run, which the document does not depend on. -/
  verbose : Bool := false
  deriving DecidableEq, Repr

/-- The options that have been met. None may be given twice. -/
structure Given where
  input : Option String := none
  output : Option String := none
  pretty : Bool := false
  verbose : Bool := false

def Given.toOptions (g : Given) : Options where
  input := g.input.getD "-"
  output := g.output
  pretty := g.pretty
  verbose := g.verbose

namespace Given

def addInput (g : Given) (file : String) : Option Given :=
  if g.input.isNone then some { g with input := some file } else none

/-- An output has a name. -/
def addOutput (g : Given) (file : String) : Option Given :=
  if g.output.isNone && !file.isEmpty then some { g with output := some file } else none

def addPretty (g : Given) : Option Given :=
  if g.pretty then none else some { g with pretty := true }

def addVerbose (g : Given) : Option Given :=
  if g.verbose then none else some { g with verbose := true }

end Given

/-- One argument, read by how it begins. -/
inductive Argument
  /-- All that follows are files. -/
  | separator
  /-- A long option, with the value after `=`. -/
  | long (name : List Char) (value : Option (List Char))
  /-- Short options in one argument. -/
  | short (letters : List Char)
  | file (name : List Char)
  deriving DecidableEq, Repr

def Argument.of (arg : String) : Argument :=
  match arg.toList with
  | ['-', '-'] => .separator
  | '-' :: '-' :: cs =>
    match cs.dropWhile (· ≠ '=') with
    | _ :: value => .long (cs.takeWhile (· ≠ '=')) (some value)
    | [] => .long cs none
  | ['-'] => .file ['-']
  | '-' :: cs => .short cs
  | cs => .file cs

/-- Short options one after the other. What follows `o` is its value; the answer tells whether it is
still to come. -/
def shortOptions : Given → List Char → Option (Given × Bool)
  | g, [] => some (g, false)
  | g, 'v' :: cs => g.addVerbose.bind fun g => shortOptions g cs
  | g, ['o'] => some (g, true)
  | g, 'o' :: '=' :: cs => (g.addOutput (String.ofList cs)).map (·, false)
  | g, 'o' :: cs => (g.addOutput (String.ofList cs)).map (·, false)
  | _, _ => none

mutual

def readOptions : Given → List String → Option Given
  | g, [] => some g
  | g, arg :: args =>
    match Argument.of arg with
    | .separator => args.foldlM Given.addInput g
    | .long name value =>
      if name = "pretty".toList ∧ value.isNone then g.addPretty.bind fun g => readOptions g args
      else if name = "verbose".toList ∧ value.isNone then
        g.addVerbose.bind fun g => readOptions g args
      else if name = "output".toList then
        match value with
        | some v => (g.addOutput (String.ofList v)).bind fun g => readOptions g args
        | none => readOutput g args
      else none
    | .short letters =>
      match shortOptions g letters with
      | some (g, false) => readOptions g args
      | some (g, true) => readOutput g args
      | none => none
    | .file name => (g.addInput (String.ofList name)).bind fun g => readOptions g args

/-- The arguments after an option that waits for its value, which must not look like an option. -/
def readOutput : Given → List String → Option Given
  | _, [] => none
  | g, arg :: args =>
    match Argument.of arg with
    | .file name => (g.addOutput (String.ofList name)).bind fun g => readOptions g args
    | _ => none

end

def Options.ofArgs (args : List String) : Option Options :=
  (readOptions {} args).map Given.toOptions

structure Response where
  exit : Nat
  stdout : String := ""
  /-- The lines of the message about what went wrong. -/
  stderr : List String := []
  /-- A file and its content. -/
  file : Option (String × String) := none
  deriving DecidableEq, Repr

namespace Response

/-- For arguments that are not understood. A call for help or for the version is one of these here.
-/
def usage : Response :=
  { exit := 2, stderr := ["Usage: chart [--pretty] [--verbose] [--output FILE] [INPUT]"] }

/-- The response to what went wrong, and to its cause, which is indented below it. A file's name may
hold line breaks, and so may a cause. -/
def failed (what : String) (cause : Option String := none) : Response where
  exit := 1
  stderr := ("Error: " ++ what).splitOn "\n" ++
    match cause with
    | some text => "" :: "Caused by:" :: (text.splitOn "\n").map ("    " ++ ·)
    | none => []

def ifWritable (writable : String → Bool) (r : Response) : Response :=
  match r.file with
  | some (path, _) => if writable path then r else failed ("Failed to write " ++ path)
  | none => r

end Response

def Options.print (o : Options) (d : Document) : String :=
  if o.pretty then d.toJson.indented else d.toJson.compact

def Options.inputName (o : Options) : String := if o.input = "-" then "stdin" else o.input

/-- Only an error of the build comes with its cause. What the system says of a file and the reader
of a text, and the log of a run, are not part of a response. -/
def Options.respond (o : Options) (input : Option String) : Response :=
  match input with
  | none => .failed ("Failed to read chart description from " ++ o.inputName)
  | some text =>
    match Input.chartOfText text with
    | .error _ => .failed "Invalid chart description"
    | .ok chart =>
      match chart.build with
      | .error e => .failed "Failed to build specification" (some e.message)
      | .ok d =>
        match o.output with
        | some path => { exit := 0, file := some (path, o.print d) }
        | none => { exit := 0, stdout := o.print d ++ "\n" }

structure World where
  stdin : Option String
  /-- The content of a file that can be read. -/
  read : String → Option String
  writable : String → Bool

def run (w : World) (args : List String) : Response :=
  match Options.ofArgs args with
  | none => .usage
  | some o =>
    (o.respond (if o.input = "-" then w.stdin else w.read o.input)).ifWritable w.writable

end ChartCompiler.Command
