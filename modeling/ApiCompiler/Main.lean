import ApiCompiler.CommandLine.Commands
import ApiCompiler.Declarations
import ApiCompiler.Json.Reader

/-!
# The command line program

The first argument is a file of declarations; the others are a command with its targets and options.
-/

set_option autoImplicit false

open ApiCompiler

def readFile? (path : String) : IO (Option String) := do
  try
    return some (← IO.FS.readFile path)
  catch _ =>
    return none

def worldOf (text : String) : Except Failure World :=
  match Json.read text with
  | some v => World.ofDeclarations v.items
  | none => .error .malformedJson

/-- Writes a file below directories that are made when they are missing. -/
def writeFile (path text : String) : IO Unit := do
  let parts := Text.split '/' path
  if parts.length > 1 then IO.FS.createDirAll ("/".intercalate parts.dropLast)
  IO.FS.writeFile path text

/-- Shows an outcome and gives its exit code. -/
def finish (o : CommandLine.Outcome) : IO UInt32 := do
  IO.print o.output
  for (path, text) in o.files do
    writeFile path text
  match o.failure with
  | some f => IO.eprintln f.message
  | none => pure ()
  return o.exitCode.toUInt32

/-- Runs the program. -/
def main (args : List String) : IO UInt32 := do
  match args with
  | [] => return 2
  | path :: args =>
    match (← readFile? path).map worldOf with
    | none => return 2
    | some (.error f) =>
      IO.eprintln f.message
      return 2
    | some (.ok w) =>
      let config := (CommandLine.readArguments args).bind fun (_, o) => o.config
      let file ← match config with
        | some c => readFile? (CommandLine.plainPath c)
        | none => pure none
      finish (CommandLine.run w (fun _ => file) args)
