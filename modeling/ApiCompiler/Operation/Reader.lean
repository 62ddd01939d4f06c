import ApiCompiler.Operation
import ApiCompiler.Schema.Reader

/-!
# Reading operations

Parameters, responses and operations from records of their fields. As with schemas, inner records
are read before outer ones.
-/

set_option autoImplicit false

namespace ApiCompiler

/-- Reads a parameter; without a shape it is a text. -/
def Parameter.ofEntries (es : List (Scalar × Value)) : Except Failure Parameter := do
  let shape ← match Value.lookup (.text "shape") es with
    | some v => Schema.ofValue v
    | none => .ok { kind := .string }
  let checked : Checked Parameter :=
    (fun name location required description default access enum pattern =>
        { name, location, required, description, default, access, enum, pattern, shape })
      <$> Check.field "name" none .text es
      <*> Check.field "location" none (.oneOf Location.ofName?) es
      <*> Check.field "required" (some false) .bool es
      <*> Check.field "description" (some "") .text es
      <*> Check.field "default" (some .null) .good es
      <*> Check.field "access" (some "") .text es
      <*> Check.field "enum" (some []) (.list .text) es
      <*> Check.field "pattern" (some none) (.optional .text) es
  checked.toExcept

def Response.ofEntries (es : List (Scalar × Value)) : Except Failure Response := do
  let shape ← match Value.lookup (.text "shape") es with
    | some (.map s) => some <$> Schema.ofValue (.map s)
    | _ => .ok none
  let headers ← match Value.lookup (.text "headers") es with
    | some (.map s) => Schema.named s
    | _ => .ok []
  let checked : Checked Response :=
    (fun description => { description, shape, headers })
      <$> Check.field "description" (some "") .text es
  checked.toExcept

namespace Operation

def parametersOf : List Value → Except Failure (List Parameter)
  | [] => .ok []
  | .map es :: rest => do return (← Parameter.ofEntries es) :: (← parametersOf rest)
  | _ :: rest => parametersOf rest

def responsesOf : List (Scalar × Value) → Except Failure (Table Response)
  | [] => .ok []
  | (.text k, .map es) :: rest => do return (k, ← Response.ofEntries es) :: (← responsesOf rest)
  | _ :: rest => responsesOf rest

def ofEntries (es : List (Scalar × Value)) : Except Failure Operation := do
  let parameters ← match Value.lookup (.text "parameters") es with
    | some (.list vs) => parametersOf vs
    | _ => .ok []
  let responses ← match Value.lookup (.text "responses") es with
    | some (.map rs) => responsesOf rs
    | _ => .ok []
  let checked : Checked Operation :=
    (fun operationId summary description tags consumes produces security schemes deprecated =>
        { operationId, summary, description, tags, consumes, produces, parameters, responses,
          security, schemes, deprecated })
      <$> Check.field "operation_id" none .text es
      <*> Check.field "summary" (some "") .text es
      <*> Check.field "description" (some "") .text es
      <*> Check.field "tags" (some []) (.list .text) es
      <*> Check.field "consumes" (some []) (.list .text) es
      <*> Check.field "produces" (some []) (.list .text) es
      <*> Check.field "security" (some []) (.list .text) es
      <*> Check.field "schemes" (some []) (.list .text) es
      <*> Check.field "deprecated" (some false) .bool es
  checked.toExcept

end Operation

end ApiCompiler
