import ApiCompiler.Failure
import ApiCompiler.Checked
import ApiCompiler.Settings
import ApiCompiler.Text.Blank

/-!
# Sources of settings

Settings from the content of a file. The suffix of the file's name decides about the format;
settings stand at the top of the file or in the section `tool.routespec`. Entries that are no
settings, or whose names begin with an underscore, are left out. How a format is read, and what its
data is like, is up to a source of settings.
-/

set_option autoImplicit false

namespace ApiCompiler

/-- The formats of settings files. -/
inductive FileFormat where
  | yaml | json | toml
  deriving DecidableEq, Repr

def FileFormat.ofSuffix? : String → Option FileFormat
  | ".yaml" | ".yml" => some .yaml
  | ".json" => some .json
  | ".toml" => some .toml
  | _ => none

namespace Settings

/-- The names of the settings. -/
def names : List String := [
  "title", "version", "description", "host", "base_path", "schemes", "consumes", "produces",
  "include_hidden", "security_definitions", "type_overrides"]

/-- How the content of files becomes data, what the data is like, and how given settings are
checked. -/
structure Source (γ δ : Type) where
  decode : FileFormat → γ → Except Failure δ
  /-- The entries of a map. -/
  entries? : δ → Option (List (δ × δ))
  text? : δ → Option String
  isNull : δ → Bool
  /-- Data that counts as empty. -/
  isEmpty : δ → Bool
  /-- The map without entries. -/
  noEntries : δ
  /-- What a kind of data is called in messages. -/
  kindName : δ → String
  /-- What calling a method fails for that the data does not have. -/
  lacks : δ → String → Failure
  check : List (String × δ) → Checked Settings
  entries_noEntries : entries? noEntries = some []
  lacks_other : ∀ d method, ¬ (lacks d method).OfValue

/-- The last part of a path. -/
def fileName (path : String) : String :=
  (Text.split '/' path).getLastD ""

/-- The suffix of a file name: from its last point on, which is neither its first character nor its
last one. -/
def suffix (name : String) : String :=
  let reversed := name.toList.reverse
  let tail := reversed.takeWhile (· != '.')
  let stem := reversed.drop (tail.length + 1)
  if tail = [] ∨ stem = [] then "" else String.ofList ('.' :: tail.reverse)

def formatOf? (path : String) : Option FileFormat := FileFormat.ofSuffix? (suffix (fileName path))

namespace Source

variable {γ δ : Type} (src : Source γ δ)

/-- The data of a file; an empty YAML document has no entries. -/
def fileData (path : String) (content : γ) : Except Failure δ :=
  match formatOf? path with
  | none =>
    let kind := suffix (fileName path)
    .error (.unsupportedFile (if kind = "" then fileName path else kind))
  | some .yaml => do
    let d ← src.decode .yaml content
    return if src.isEmpty d then src.noEntries else d
  | some format => src.decode format content

/-- The data at a text as key. -/
def find? (key : String) (es : List (δ × δ)) : Option δ :=
  (es.find? fun e => src.text? e.1 == some key).map Prod.snd

/-- The part of a file's data that holds the settings: the section of the program, or all of it when
there is none. -/
def part (data : δ) (es : List (δ × δ)) : Except Failure δ :=
  match src.find? "tool" es with
  | none => .ok data
  | some tools =>
    match src.entries? tools with
    | none => .error (src.lacks tools "get")
    | some tools =>
      match src.find? "routespec" tools with
      | none => .ok data
      | some d => .ok (if src.isNull d then data else d)

/-- The entries that are settings. Every key has to be a text. -/
def known : List (δ × δ) → Except Failure (List (String × δ))
  | [] => .ok []
  | (k, d) :: es =>
    match src.text? k with
    | none => .error (src.lacks k "startswith")
    | some name => do
      let more ← known es
      return if name.toList.head? ≠ some '_' ∧ name ∈ names then (name, d) :: more else more

def ofEntries (es : List (δ × δ)) : Except Failure Settings := do
  let given ← src.known es
  (src.check given).toExcept

/-- The settings that data gives, which has to be a map. -/
def ofData (d : δ) : Except Failure Settings :=
  match src.entries? d with
  | some es => src.ofEntries es
  | none => .error (src.lacks d "items")

def ofFile (path : String) (content : γ) : Except Failure Settings := do
  let data ← src.fileData path content
  match src.entries? data with
  | some es => src.ofData (← src.part data es)
  | none => throw (.notAMapping path (src.kindName data))

end Source

end Settings

end ApiCompiler
