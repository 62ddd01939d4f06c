import ApiCompiler.Schema
import ApiCompiler.Text.Quoted

/-!
# Failures

Everything that can go wrong, by cause. The wording of a failure is a function of its cause;
`family` groups the causes by the way in which a caller handles them.
-/

set_option autoImplicit false

namespace ApiCompiler

/-- What is wrong with a setting or a field of a record. -/
inductive FaultKind where
  | missing | textExpected | listExpected | mapExpected | boolExpected | boolUnreadable
  | notAllowed
  deriving DecidableEq, Repr

def FaultKind.code : FaultKind → String
  | .missing => "missing"
  | .textExpected => "string_type"
  | .listExpected => "list_type"
  | .mapExpected => "dict_type"
  | .boolExpected => "bool_type"
  | .boolUnreadable => "bool_parsing"
  | .notAllowed => "literal_error"

/-- A fault and the place where it is: field names and positions, outermost first. -/
structure Fault where
  place : List Scalar
  kind : FaultKind
  deriving DecidableEq, Repr

/-- Why an annotation stands for no type. -/
inductive AnnotationFault where
  | unknownName (name : String)
  /-- A class takes another number of arguments. -/
  | argumentCount (cls : String) (given expected : Nat)
  | takesNoArguments (name : String)
  deriving DecidableEq, Repr

def AnnotationFault.message : AnnotationFault → String
  | .unknownName name => "name '" ++ name ++ "' is not defined"
  | .argumentCount cls given expected =>
    "Too " ++ (if expected < given then "many" else "few") ++ " arguments for " ++ cls ++
      "; actual " ++ Number.intText given ++ ", expected " ++ Number.intText expected
  | .takesNoArguments name => "type '" ++ name ++ "' is not subscriptable"

/-- Groups of failures. -/
inductive Failure.Family where
  | declaration | shape | cycle | value | member | type | depth
  | importing | missingModule | validation | jsonText | yamlText | tomlText | declarationText
  deriving DecidableEq, Repr

/-- The cause of a failure. -/
inductive Failure where
  | notAService (shown : String)
  /-- An annotation of a method stands for no type. -/
  | unresolvedSignature (owner : String) (fault : AnnotationFault)
  | severalCreators (type : String)
  | noCreator (type : String)
  | creatorWithoutParam (type : String)
  /-- Two request types share a model name. -/
  | modelNameTaken (name existing added : String)
  | argumentWithoutParam (owner argument : String)
  /-- A request token wraps something else than an array. -/
  | tokenWithoutArray (owner : String) (kind : SchemaKind)
  | cyclic (chain : List String)
  | unknownPrimitive (name : Option String)
  | unknownFormat (name : String)
  | missingAttribute (holder name : String)
  /-- A word that stands for no truth value. -/
  | unknownWord (word : String)
  /-- A text without characters where its first one is asked for. -/
  | noCharacter
  /-- Something has no members to look through. -/
  | noMembers
  /-- Resolution of a type does not come to an end. -/
  | endless
  /-- A text nests deeper than its reader does. -/
  | nestedTooDeep
  | notImportable (path : String)
  | missingMember (module member : String)
  | missingModule (name : String)
  /-- A plain module has no modules inside. -/
  | notAPackage (name parent : String)
  | notAMapping (file kind : String)
  | unsupportedFile (shown : String)
  | invalid (faults : List Fault)
  /-- A text that is no number, or a number or a part of a date that its type does not allow. -/
  | outOfRange (what : String)
  | malformedJson
  /-- Malformed YAML text, or a value that YAML text cannot hold. -/
  | malformedYaml
  | malformedToml
  /-- A key that JSON text cannot hold. -/
  | keyWithoutText (kind : String)
  | unknownTypeForm (form : String)
  /-- A type does not take the arguments that it is given. -/
  | notGeneric (arguments : Nat)
  | unknownDeclaration (kind : String)
  deriving DecidableEq, Repr

namespace Failure

def family : Failure → Family
  | .notAService _ | .unresolvedSignature .. | .severalCreators _ | .noCreator _
  | .creatorWithoutParam _ | .modelNameTaken .. | .argumentWithoutParam .. => .declaration
  | .tokenWithoutArray .. => .shape
  | .cyclic _ => .cycle
  | .unknownPrimitive _ | .unknownFormat _ | .notAMapping .. | .unsupportedFile _
  | .outOfRange _ => .value
  | .missingAttribute .. | .unknownWord _ | .noCharacter => .member
  | .noMembers | .keyWithoutText _ => .type
  | .endless | .nestedTooDeep => .depth
  | .notImportable _ | .missingMember .. => .importing
  | .missingModule _ | .notAPackage .. => .missingModule
  | .invalid _ => .validation
  | .malformedJson => .jsonText
  | .malformedYaml => .yamlText
  | .malformedToml => .tomlText
  | .unknownTypeForm _ | .notGeneric _ | .unknownDeclaration _ => .declarationText

def message : Failure → String
  | .notAService shown => shown ++ " is not an @api class"
  | .unresolvedSignature owner fault =>
    "cannot resolve annotations of " ++ owner ++ ": " ++ fault.message
  | .severalCreators type =>
    type ++ " has more than one @json_creator constructor. There must be only one."
  | .noCreator type => type ++ " doesn't have any constructor marked with @json_creator."
  | .creatorWithoutParam type => type ++ " creator arguments don't have ApiParam metadata."
  | .modelNameTaken name existing added =>
    "model name " ++ Text.quoted name ++ " is already used by " ++ existing ++
      ", cannot register " ++ added
  | .argumentWithoutParam owner argument =>
    owner ++ ": argument " ++ Text.quoted argument ++ " has no ApiParam metadata"
  | .tokenWithoutArray owner kind =>
    owner ++ ": request token must wrap an array, got " ++ kind.name
  | .cyclic chain => "sub-resource cycle: " ++ " -> ".intercalate chain
  | .unknownPrimitive name =>
    "unknown primitive type name: " ++ (name.map Text.quoted).getD "None"
  | .unknownFormat name =>
    "unknown format: " ++ Text.quoted name ++ " (expected json or yaml)"
  | .missingAttribute holder name =>
    "'" ++ holder ++ "' object has no attribute '" ++ name ++ "'"
  | .unknownWord word => Text.quoted word
  | .noCharacter => "string index out of range"
  | .noMembers => "vars() argument must have __dict__ attribute"
  -- What nests without end is a type, and the depth is exceeded where its text is asked for.
  | .endless => "maximum recursion depth exceeded while getting the repr of an object"
  | .nestedTooDeep => "maximum recursion depth exceeded"
  | .notImportable path => "not an importable object path: " ++ Text.quoted path
  | .missingMember module member =>
    Text.quoted module ++ " has no attribute " ++ Text.quoted member
  | .missingModule name => "No module named " ++ Text.quoted name
  | .notAPackage name parent =>
    "No module named " ++ Text.quoted name ++ "; " ++ Text.quoted parent ++ " is not a package"
  | .notAMapping file kind => file ++ ": expected a mapping of settings, got " ++ kind
  | .unsupportedFile shown => "unsupported config file type: " ++ Text.quoted shown
  | .invalid _ => "invalid settings"
  | .outOfRange what => what
  | .malformedJson => "malformed JSON text"
  | .malformedYaml => "malformed YAML text"
  | .malformedToml => "malformed TOML text"
  | .keyWithoutText kind => "keys must be str, int, float, bool or None, not " ++ kind
  | .unknownTypeForm form => "unknown type form " ++ Text.quoted form
  | .notGeneric n => "a type does not take " ++ Number.intText n ++ " arguments"
  | .unknownDeclaration kind => "unknown declaration kind " ++ Text.quoted kind

/-- Failures for a bad value: of a setting, of a file, or of the text of a file. -/
def OfValue (f : Failure) : Prop :=
  f.family = .value ∨ f.family = .validation ∨ f.family = .jsonText ∨ f.family = .tomlText

instance (f : Failure) : Decidable f.OfValue :=
  inferInstanceAs (Decidable (f.family = .value ∨ f.family = .validation ∨ f.family = .jsonText ∨
    f.family = .tomlText))

end Failure

end ApiCompiler
