import ApiCompiler.Table
import ApiCompiler.Text.Blank
import ApiCompiler.Text.Case
import ApiCompiler.Value

/-!
# Schemas

One payload shape: a primitive, an array, a map, a reference to a named model, or an object. A field
that does not belong to the kind may still be set; rendering and traversal say what becomes of it.
`Schema.same` is sameness up to the order of properties, with values compared as `Value.same` does;
`Schema.identical` is for schemas that nothing tells apart.
-/

set_option autoImplicit false

namespace ApiCompiler

/-- The kinds of a schema; the first five are primitive. -/
inductive SchemaKind where
  | string | integer | number | boolean | file
  | array | map | ref | object
  deriving DecidableEq, Repr

namespace SchemaKind

def name : SchemaKind → String
  | .string => "string"
  | .integer => "integer"
  | .number => "number"
  | .boolean => "boolean"
  | .file => "file"
  | .array => "array"
  | .map => "map"
  | .ref => "ref"
  | .object => "object"

def all : List SchemaKind :=
  [.string, .integer, .number, .boolean, .file, .array, .map, .ref, .object]

def ofName? (s : String) : Option SchemaKind := all.find? fun k => k.name == s

/-- Kinds that a form field can carry directly. -/
def isSimple : SchemaKind → Bool
  | .string | .number | .integer | .boolean => true
  | _ => false

end SchemaKind

/-- A payload shape. No default value is the null value; `reference` names the declared type that a
named model comes from. -/
structure Schema where
  kind : SchemaKind
  format : Option String := none
  items : Option Schema := none
  values : Option Schema := none
  ref : Option String := none
  properties : List (String × Schema) := []
  required : List String := []
  enum : List Value := []
  description : String := ""
  default : Value := .null
  access : String := ""
  reference : Option String := none

namespace Schema

def primitive (kind : SchemaKind) (format : Option String) (enum : List Value) : Schema :=
  { kind, format, enum }

def arrayOf (items : Schema) : Schema := { kind := .array, items := some items }

def mapOf (values : Schema) : Schema := { kind := .map, values := some values }

/-- A reference to a named model. -/
def refTo (name : String) : Schema := { kind := .ref, ref := some name }

/-- An object without known properties. -/
def opaqueObject : Schema := { kind := .object }

instance : Inhabited Schema := ⟨opaqueObject⟩

/-- A simple value, or an array of simple values. -/
def isSimple (s : Schema) : Bool :=
  s.kind.isSimple ||
    (s.kind == .array && match s.items with
      | some items => items.kind.isSimple
      | none => false)

mutual

/-- The model names that a schema refers to, from left to right. -/
def references : Schema → List String
  | ⟨kind, _, items, values, ref, properties, _, _, _, _, _, _⟩ =>
    (if kind = .ref then (ref.toList.filter (· ≠ "")) else []) ++ optionReferences items ++
      optionReferences values ++ tableReferences properties

/-- The model names that an optional schema refers to. -/
def optionReferences : Option Schema → List String
  | none => []
  | some s => references s

/-- The model names that the values of a table refer to. -/
def tableReferences : List (String × Schema) → List String
  | [] => []
  | (_, s) :: rest => references s ++ tableReferences rest

end

mutual

/-- Sameness of schemas, field by field; the order of properties does not matter. -/
def same : Schema → Schema → Bool
  | ⟨kind, format, items, values, ref, properties, required, enum, description, default, access,
      reference⟩, t =>
    kind == t.kind && format == t.format && sameOption items t.items &&
      sameOption values t.values && ref == t.ref &&
      (properties.length == t.properties.length && sameTable properties t.properties) &&
      required == t.required && Value.sameList enum t.enum && description == t.description &&
      Value.same default t.default && access == t.access && reference == t.reference

/-- Sameness of optional schemas. -/
def sameOption : Option Schema → Option Schema → Bool
  | none, none => true
  | some s, some t => same s t
  | _, _ => false

/-- Every entry of the first table has a same entry in the second. -/
def sameTable : List (String × Schema) → List (String × Schema) → Bool
  | [], _ => true
  | (k, s) :: rest, t =>
    (match Table.get? t k with
      | some u => same s u
      | none => false) && sameTable rest t

end

mutual

/-- Identity of schemas, field by field, down to the order of properties. -/
def identical : Schema → Schema → Bool
  | ⟨kind, format, items, values, ref, properties, required, enum, description, default, access,
      reference⟩, t =>
    kind == t.kind && format == t.format && identicalOption items t.items &&
      identicalOption values t.values && ref == t.ref && identicalTable properties t.properties &&
      required == t.required && Value.identicalList enum t.enum && description == t.description &&
      Value.identical default t.default && access == t.access && reference == t.reference

/-- Identity of optional schemas. -/
def identicalOption : Option Schema → Option Schema → Bool
  | none, none => true
  | some s, some t => identical s t
  | _, _ => false

/-- Identity of tables, entry by entry in order. -/
def identicalTable : List (String × Schema) → List (String × Schema) → Bool
  | [], [] => true
  | (k, s) :: rest, (l, t) :: others => k == l && identical s t && identicalTable rest others
  | _, _ => false

end

/-- The container that a hint names around a schema: an array for lists and sets, a map for maps,
and the schema itself otherwise. The hint is read without regard to blanks around it and case. -/
def inContainer (s : Schema) (hint : String) : Schema :=
  let hint := Text.lower (Text.trim hint)
  if hint = "list" ∨ hint = "set" then arrayOf s
  else if hint = "map" then mapOf s
  else s

end Schema

end ApiCompiler
