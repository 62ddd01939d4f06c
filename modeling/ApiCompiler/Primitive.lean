import ApiCompiler.Failure
import ApiCompiler.Notice

/-!
# Primitive type names

The names of primitive types in overrides and implicit parameters, read without regard to case and
blanks around them. A name that is not known stands for a plain text, or is a failure where names
are checked.
-/

set_option autoImplicit false

namespace ApiCompiler.Primitive

/-- Kind and format by primitive name. -/
def table : Table (SchemaKind × Option String) := [
  ("string", .string, none),
  ("integer", .integer, some "int32"),
  ("int", .integer, some "int32"),
  ("long", .integer, some "int64"),
  ("number", .number, none),
  ("float", .number, some "float"),
  ("double", .number, some "double"),
  ("boolean", .boolean, none),
  ("date", .string, some "date"),
  ("date-time", .string, some "date-time"),
  ("uuid", .string, some "uuid"),
  ("file", .file, none),
  ("byte", .string, some "byte"),
  ("binary", .string, some "binary")]

/-- The schema of a primitive name; the name `object` stands for an object without properties. -/
def find? (name : String) : Option Schema :=
  let key := Text.lower (Text.trim name)
  if key = "object" then some .opaqueObject
  else (table.get? key).map fun (kind, format) => .primitive kind format []

/-- The schema of a primitive name, a plain text when it is not known. -/
def schema (name : String) : Schema × List Notice :=
  match find? name with
  | some s => (s, [])
  | none => (.primitive .string none [], [.unknownPrimitive name])

def check (name : Option String) : Except Failure Schema :=
  match find? (name.getD "") with
  | some s => .ok s
  | none => .error (.unknownPrimitive name)

end ApiCompiler.Primitive
