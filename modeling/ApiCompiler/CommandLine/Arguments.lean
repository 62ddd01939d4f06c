import ApiCompiler.TextFormat

/-!
# Command line arguments

The command and its options from a list of words. Options and targets may be mixed; a value follows
its option or an equals sign; two hyphens end the options. A word that does not fit is refused, and
so is a command without targets.
-/

set_option autoImplicit false

namespace ApiCompiler.CommandLine

inductive Command where
  | compile | routes | models
  deriving DecidableEq, Repr

def Command.ofName? : String → Option Command
  | "compile" => some .compile
  | "routes" => some .routes
  | "models" => some .models
  | _ => none

structure Options where
  targets : List String := []
  config : Option String := none
  includeHidden : Bool := false
  title : Option String := none
  version : Option String := none
  format : String := "json"
  out : Option String := none
  verbose : Bool := false

/-- What an option does: it sets a value, or it is a switch. -/
inductive OptionForm where
  | value (set : String → Options → Options)
  | switch (set : Options → Options)

def optionsOf : Command → Table OptionForm
  | .compile => [
    ("--config", .value fun v o => { o with config := some v }),
    ("--include-hidden", .switch fun o => { o with includeHidden := true }),
    ("--no-include-hidden", .switch fun o => { o with includeHidden := false }),
    ("--title", .value fun v o => { o with title := some v }),
    ("--version", .value fun v o => { o with version := some v }),
    ("--format", .value fun v o => { o with format := v }),
    ("--out", .value fun v o => { o with out := some v }),
    ("--verbose", .switch fun o => { o with verbose := true }),
    ("-v", .switch fun o => { o with verbose := true })]
  | .routes => [
    ("--config", .value fun v o => { o with config := some v }),
    ("--include-hidden", .switch fun o => { o with includeHidden := true }),
    ("--no-include-hidden", .switch fun o => { o with includeHidden := false })]
  | .models => [("--config", .value fun v o => { o with config := some v })]

/-- Divides a long option at its equals sign. -/
def splitOption (word : String) : String × Option String :=
  let cs := word.toList
  if cs.contains '=' then
    let name := cs.takeWhile (· != '=')
    (String.ofList name, some (String.ofList (cs.drop (name.length + 1))))
  else (word, none)

/-- The short switches that a word of one hyphen and letters stands for. -/
def shortSwitches (table : Table OptionForm) (word : String) : Option (List (Options → Options)) :=
  (word.toList.drop 1).mapM fun c =>
    match table.get? (String.ofList ['-', c]) with
    | some (.switch set) => some set
    | _ => none

def isOption (word : String) : Bool :=
  match word.toList with
  | '-' :: _ :: _ => true
  | _ => false

def readWords (table : Table OptionForm) (o : Options) : List String → Option Options
  | [] => some o
  | "--" :: rest => some { o with targets := o.targets ++ rest }
  | word :: rest =>
    if !isOption word then readWords table { o with targets := o.targets ++ [word] } rest
    else if "--".toList.isPrefixOf word.toList then
      match splitOption word with
      | (name, given) =>
        match table.get? name, given, rest with
        | some (.value set), some v, rest => readWords table (set v o) rest
        | some (.value set), none, v :: rest => readWords table (set v o) rest
        | some (.switch set), none, rest => readWords table (set o) rest
        | _, _, _ => none
    else
      match shortSwitches table word with
      | some sets => readWords table (sets.foldl (fun o set => set o) o) rest
      | none => none
termination_by words => words.length

def readArguments : List String → Option (Command × Options)
  | [] => none
  | name :: words => do
    let command ← Command.ofName? name
    let o ← readWords (optionsOf command) {} words
    if o.targets.isEmpty then none else return (command, o)

end ApiCompiler.CommandLine
