import ApiCompiler.Schema
import ApiCompiler.Text.Quoted

/-!
# Notices

What a compilation reports besides its result. A notice has a cause; its level and its wording are
functions of the cause.
-/

set_option autoImplicit false

namespace ApiCompiler

/-- How much a notice matters. -/
inductive Level where
  | debug | warning | error
  deriving DecidableEq, Repr

def Level.name : Level → String
  | .debug => "DEBUG"
  | .warning => "WARNING"
  | .error => "ERROR"

inductive Notice where
  /-- A primitive type name that is not known; a plain text is used. -/
  | unknownPrimitive (name : String)
  /-- Allowed values given as a range. -/
  | rangeIgnored (raw : String)
  /-- A type without a schema kind of its own; `shown` is its text. -/
  | untyped (shown reason : String)
  | modelResolved (name : String) (properties : Nat)
  /-- A definition was extended by an object of the same name. -/
  | modelMerged (name : String) (properties : Nat)
  | modelReplaced (name : String) (before after : SchemaKind)
  | operationReplaced (verb path after before : String)
  | implicitBody (name : String)
  | unknownLocation (location : String)
  | serviceLoaded (name : String) (methods : Nat)
  | hiddenSkipped (name : String)
  | notExposed (service method : String)
  | scanning (shown : String)
  | unresolvedReferences (names : List String)
  deriving Repr

namespace Notice

def level : Notice → Level
  | .untyped .. | .operationReplaced .. | .implicitBody _ | .unknownLocation _ => .warning
  | .unresolvedReferences _ => .error
  | _ => .debug

def count (n : Nat) : String := Number.intText n

/-- What is said of a type that has no schema kind. -/
def unmappable (shown reason : String) : String :=
  "cannot resolve schema for " ++ shown ++ (if reason = "" then "" else " (" ++ reason ++ ")")

def message : Notice → String
  | .unknownPrimitive name => "unknown primitive name " ++ Text.quoted name ++ ", using string"
  | .rangeIgnored raw =>
    "range allowable values " ++ Text.quoted raw ++ " are not supported; ignored"
  | .untyped shown reason => unmappable shown reason ++ "; using an untyped object schema"
  | .modelResolved name n => "resolved model " ++ name ++ " (" ++ count n ++ " properties)"
  | .modelMerged name n => "merged model " ++ name ++ " (" ++ count n ++ " properties)"
  | .modelReplaced name before after =>
    "replaced model " ++ name ++ " (" ++ before.name ++ " -> " ++ after.name ++ ")"
  | .operationReplaced verb path after before =>
    verb ++ " " ++ path ++ " declared twice; " ++ after ++ " replaces " ++ before
  | .implicitBody name =>
    "implicit body parameter " ++ Text.quoted name ++ " is not supported; skipped"
  | .unknownLocation location => "Unknown implicit parameter type: [" ++ location ++ "]"
  | .serviceLoaded name n => "loaded " ++ name ++ " with " ++ count n ++ " routed methods"
  | .hiddenSkipped name => "skipping hidden declaration " ++ name
  | .notExposed service method => service ++ "." ++ method ++ " is not an exposed route"
  | .scanning shown => "scanning " ++ shown
  | .unresolvedReferences names =>
    "unresolved model references: " ++ ", ".intercalate names

end Notice

end ApiCompiler
