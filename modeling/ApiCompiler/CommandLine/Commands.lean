import ApiCompiler.CommandLine.Arguments
import ApiCompiler.CommandLine.Console
import ApiCompiler.Compilation.Compile
import ApiCompiler.Settings.Reader

/-!
# Commands

What the commands do, as a function of the source of their settings, the declared types, the files
that can be read, and the arguments: what is written to the console and to files, and the exit code.
Wrong usage, unusable settings and targets that cannot be imported end with code 2; faulty
declarations end with code 1 and a message.
-/

set_option autoImplicit false

namespace ApiCompiler.CommandLine

/-- What a command comes to. A failure that no command handles is passed on. -/
structure Outcome where
  exitCode : Nat
  output : String := ""
  files : Table String := []
  failure : Option Failure := none

namespace Outcome

def usage : Outcome := { exitCode := 2 }

def ofFailure (f : Failure) : Outcome :=
  match f.family with
  | .declaration | .shape | .cycle =>
    { exitCode := 1, output := Console.linesText ["error: " ++ f.message] }
  | .value | .importing | .missingModule => usage
  | _ => { exitCode := 1, failure := some f }

def ofSettingsFailure (f : Failure) : Outcome :=
  match f.family with
  | .value | .validation | .jsonText | .tomlText => usage
  | _ => { exitCode := 1, failure := some f }

end Outcome

/-- A path without empty parts and parts that stand for the same place. -/
def plainPath (path : String) : String :=
  let parts := (Text.split '/' path).filter fun part => part ≠ "" ∧ part ≠ "."
  let start := if path.toList.head? = some '/' then "/" else ""
  start ++ "/".intercalate parts

section

variable {γ δ : Type} (src : Settings.Source γ δ)

/-- The settings of a command: those of its file, changed by its options. -/
def settingsOf (files : String → Option γ) (o : Options) : Except Outcome Settings := do
  let settings ← match o.config with
    | none => pure {}
    | some path =>
      match files (plainPath path) with
      | none => throw Outcome.usage
      | some content =>
        match src.ofFile (plainPath path) content with
        | .ok s => pure s
        | .error f => throw (Outcome.ofSettingsFailure f)
  let settings := if o.includeHidden then { settings with includeHidden := true } else settings
  return { settings with
    title := o.title.getD settings.title
    version := o.version.getD settings.version }

def compileFor (w : World) (files : String → Option γ) (o : Options) :
    Except Outcome Compiled := do
  let settings ← settingsOf src files o
  match (w.compile (o.targets.map .path) settings).1 with
  | .ok c => return c
  | .error f => throw (Outcome.ofFailure f)

def runCompile (w : World) (files : String → Option γ) (o : Options) :
    Except Outcome Outcome := do
  match TextFormat.ofName? o.format with
  | none => throw Outcome.usage
  | some format =>
    let c ← compileFor src w files o
    let text ← match format.print c.rendered with
      | .ok text => pure text
      | .error f => throw { exitCode := 1, failure := some f }
    match o.out.filter (· ≠ "") with
    | none => return { exitCode := 0, output := Console.linesText [text] }
    | some path =>
      let path := plainPath path
      let line := "Wrote " ++ format.name ++ " document to: " ++ Console.plain path ++ " (" ++
        Notice.count c.operationCount ++ " operations, " ++ Notice.count c.modelCount ++ " models)"
      return { exitCode := 0, output := Console.linesText [line], files := [(path, text)] }

def routeBefore (a b : String × String × Operation) : Bool :=
  if a.1 = b.1 then decide (a.2.1 ≤ b.2.1) else decide (a.1 ≤ b.1)

def runRoutes (w : World) (files : String → Option γ) (o : Options) :
    Except Outcome Outcome := do
  let c ← compileFor src w files o
  let rows := (c.document.operations.mergeSort routeBefore).map fun (path, verb, op) =>
    [Text.upper verb, path, op.operationId, ", ".intercalate op.tags].map Console.plain
  return {
    exitCode := 0
    output := Console.linesText (("Operations: " ++ Notice.count c.operationCount) ::
      Console.table ["METHOD", "PATH", "OPERATION", "TAGS"] rows) }

def runModels (w : World) (files : String → Option γ) (o : Options) :
    Except Outcome Outcome := do
  let c ← compileFor src w files o
  let lines := (Table.sorted c.document.definitions).map fun (name, model) =>
    "  " ++ name ++ "  " ++ model.kind.name ++ ", " ++ Notice.count model.properties.length ++
      " properties"
  let rest := if c.unresolved.isEmpty then []
    else ["Unresolved: " ++ ", ".intercalate c.unresolved]
  return {
    exitCode := 0
    output := Console.linesText (("Models: " ++ Notice.count c.modelCount) :: lines ++ rest) }

/-- Runs a command with settings from a source. -/
def runWith (w : World) (files : String → Option γ) (arguments : List String) : Outcome :=
  match readArguments arguments with
  | none => .usage
  | some (command, o) =>
    let outcome := match command with
      | .compile => runCompile src w files o
      | .routes => runRoutes src w files o
      | .models => runModels src w files o
    match outcome with
    | .ok r => r
    | .error r => r

end

def run (w : World) (files : String → Option String) (arguments : List String) : Outcome :=
  runWith Settings.texts w files arguments

end ApiCompiler.CommandLine
