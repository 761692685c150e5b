import ChartCompiler.Command

/-! The command line. It only moves texts between files and `Command`. -/

namespace ChartCompiler.Command

def attempt {α : Type} (action : IO α) : IO (Option α) :=
  try return some (← action)
  catch _ => return none

def readInput (o : Options) : IO (Option String) := attempt do
  if o.input = "-" then (← IO.getStdin).readToEnd else IO.FS.readFile o.input

def serve (args : List String) : IO Response := do
  match Options.ofArgs args with
  | none => return .usage
  | some o => do
    let response := o.respond (← readInput o)
    match response.file with
    | some (path, content) => do
      let written ← attempt (IO.FS.writeFile path content)
      return response.ifWritable fun _ => written.isSome
    | none => return response

end ChartCompiler.Command

def main (args : List String) : IO UInt32 := do
  let response ← ChartCompiler.Command.serve args
  IO.print response.stdout
  for line in response.stderr do
    IO.eprintln line
  return response.exit.toUInt32
