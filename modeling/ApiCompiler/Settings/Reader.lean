import ApiCompiler.Json.Reader
import ApiCompiler.Settings.Source
import ApiCompiler.Toml.Reader
import ApiCompiler.Yaml.Reader

/-!
# Reading settings

Settings from a map of entries and from the text of a settings file, with the readers of the three
formats.
-/

set_option autoImplicit false

namespace ApiCompiler

namespace Settings

/-- Reads settings from entries, in the order of the settings. -/
def check (es : List (Scalar × Value)) : Checked Settings :=
  let d : Settings := {}
  Settings.mk
    <$> Check.field "title" (some d.title) .text es
    <*> Check.field "version" (some d.version) .text es
    <*> Check.field "description" (some d.description) .text es
    <*> Check.field "host" (some d.host) (.optional .text) es
    <*> Check.field "base_path" (some d.basePath) .text es
    <*> Check.field "schemes" (some d.schemes) (.list .text) es
    <*> Check.field "consumes" (some d.consumes) (.list .text) es
    <*> Check.field "produces" (some d.produces) (.list .text) es
    <*> Check.field "include_hidden" (some d.includeHidden) .bool es
    <*> Check.field "security_definitions" (some d.securityDefinitions) (.table .settings) es
    <*> Check.field "type_overrides" (some d.typeOverrides) (.table .text) es

/-- Line breaks of any kind as single line feeds. -/
def plainBreaks : List Char → List Char
  | '\r' :: '\n' :: cs => '\n' :: plainBreaks cs
  | '\r' :: cs => '\n' :: plainBreaks cs
  | c :: cs => c :: plainBreaks cs
  | [] => []

/-- How deep a JSON text may nest, as far as the interpreter's stack goes. -/
def nestingBound : Nat := 960

def decode (format : FileFormat) (text : String) : Except Failure FileData :=
  let joined := plainBreaks text.toList
  match format with
  | .yaml => Yaml.read (String.ofList joined)
  | .json =>
    if nestingBound < Json.deepest 0 .between joined then .error .nestedTooDeep
    else match Json.read (String.ofList joined) with
      | some v => .ok (.ofValue v)
      | none => .error .malformedJson
  | .toml => (Toml.read text).map .ofValue

/-- Settings from texts. -/
def texts : Source String FileData where
  decode
  entries? := FileData.entries?
  text? := FileData.text?
  isNull := FileData.isNull
  isEmpty := FileData.isEmpty
  noEntries := .map []
  kindName := FileData.kindName
  lacks d method := .missingAttribute d.holderName method
  check given := check (given.map fun (name, d) => (.text name, d.asValue))
  entries_noEntries := rfl
  lacks_other _ _ := by simp [Failure.OfValue, Failure.family]

def ofEntries (es : List (Scalar × Value)) : Except Failure Settings :=
  texts.ofEntries (FileData.ofEntries es)

def ofFile (path text : String) : Except Failure Settings := texts.ofFile path text

end Settings

end ApiCompiler
