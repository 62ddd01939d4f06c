import ApiCompiler.Checked

/-!
# Reading schemas

A schema from a record of its fields. The schemas inside are read before the one that holds them, so
the places of faults are relative to the innermost schema with a fault.
-/

set_option autoImplicit false

namespace ApiCompiler.Schema

/-- Reads the fields of a schema whose inner schemas have been read. -/
def check (es : List (Scalar × Value)) (items values : Option Schema) (properties : Table Schema) :
    Checked Schema :=
  (fun kind format ref required enum description default access reference =>
      ({ kind, format, items, values, ref, properties, required, enum, description, default, access,
         reference } : Schema))
    <$> Check.field "kind" none (.oneOf SchemaKind.ofName?) es
    <*> Check.field "format" (some none) (.optional .text) es
    <*> Check.field "ref" (some none) (.optional .text) es
    <*> Check.field "required" (some []) (.list .text) es
    <*> Check.field "enum" (some []) (.list .good) es
    <*> Check.field "description" (some "") .text es
    <*> Check.field "default" (some .null) .good es
    <*> Check.field "access" (some "") .text es
    <*> Check.field "reference" (some none) (.optional .text) es

mutual

/-- Reads a schema; anything but a record is read as a record without fields. -/
def ofValue : Value → Except Failure Schema
  | .map es => do
    let (items, values, properties) ← inner es
    (check es items values properties).toExcept
  | _ => (check [] none none []).toExcept

/-- Reads the schemas inside of a record as they come: those of its items, values and properties. -/
def inner : List (Scalar × Value) → Except Failure (Option Schema × Option Schema × Table Schema)
  | [] => .ok (none, none, [])
  | (.text "items", .map es) :: rest => do
    let s ← ofValue (.map es)
    let (_, values, properties) ← inner rest
    return (some s, values, properties)
  | (.text "values", .map es) :: rest => do
    let s ← ofValue (.map es)
    let (items, _, properties) ← inner rest
    return (items, some s, properties)
  | (.text "properties", .map es) :: rest => do
    let t ← named es
    let (items, values, _) ← inner rest
    return (items, values, t)
  | _ :: rest => inner rest

def named : List (Scalar × Value) → Except Failure (Table Schema)
  | [] => .ok []
  | (.text k, v) :: rest => do
    let s ← ofValue v
    return (k, s) :: (← named rest)
  | _ :: rest => named rest

end

end ApiCompiler.Schema
