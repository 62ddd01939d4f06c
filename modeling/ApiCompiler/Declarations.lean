import ApiCompiler.Service.Reader
import ApiCompiler.Types.Declare

/-!
# Declaration files

The declarations of a file, one after the other. A declaration may name what is declared before it,
and its annotations also what is declared after it.
-/

set_option autoImplicit false

namespace ApiCompiler

namespace World

def readField (w : World) (v : Value) : Except Failure FieldDecl := do
  let type ← w.readType (v.field "type")
  return {
    name := textField v "name"
    type
    hasDefault := (v.field "default").isTrue
    hasFactory := (v.field "factory").isTrue
    shown := (v.field "alias").text?
    description := textField v "description" }

def enumBaseOf : String → EnumBase
  | "IntEnum" => .intEnum
  | "StrEnum" => .strEnum
  | "Flag" => .flag
  | "IntFlag" => .intFlag
  | "str" => .str
  | "int" => .int
  | _ => .plain

def classKindOf (v : Value) : Option ClassKind :=
  match textField v "kind" with
  | "class" | "service" | "token" => some .plain
  | "dataclass" => some .dataclass
  | "pydantic" => some .model
  | "typeddict" => some (.typedDict (match v.field "total" with | .bool false => false | _ => true))
  | "namedtuple" => some .namedTuple
  | "enum" => some (.enumeration (enumBaseOf (textField v "base")))
  | _ => none

/-- The first item of a pair. -/
def pairKey : Value → Option String
  | .list (.text k :: _) => some k
  | _ => none

/-- The second item of a pair. -/
def pairValue : Value → Option Value
  | .list [_, v] => some v
  | _ => none

/-- The bases of a class. A token without an element and without bases stands below the token class
itself. -/
def readBases (w : World) (v : Value) : Except Failure (List TypeExpr) := do
  let bases ← w.readTypes (v.field "bases")
  if textField v "kind" = "token" then
    if isSet v "element" then
      let element ← w.readType (v.field "element")
      return .makeApplied (.builtin .typeToken) [element] :: bases
    else return if bases.isEmpty then [.builtin .typeToken] else bases
  else return bases

/-- The type variables that a class is generic over. -/
def readTypeVars (w : World) (v : Value) : List Nat :=
  (v.field "params").textItems.filterMap fun name =>
    match w.names.get? name with
    | some (.typeVar i) => some i
    | _ => none

def readClass (w : World) (kind : ClassKind) (v : Value) : Except Failure ClassSpec := do
  let id := textField v "id"
  let bases ← w.readBases v
  let fields ← readAll w.readField (v.field "fields").items
  let methods ← readAll w.readMethod ((v.field "methods").items ++ (v.field "constructors").items)
  return {
    id
    name := textFieldOr v "name" id
    outer := (v.field "outer").text?
    kind, bases
    typeVars := w.readTypeVars v
    fields, methods
    attributes := (v.field "attrs").items.filterMap pairKey
    members := (v.field "members").items.filterMap pairValue
    service := if isSet v "api" then some (readServiceInfo (v.field "api")) else none
    path := (v.field "path").text? }

/-- Adds a declaration. -/
def declare (w : World) (v : Value) : Except Failure World := do
  let id := textField v "id"
  match textField v "kind" with
  | "typevar" => return w.addTypeVar id (textFieldOr v "name" id)
  | "newtype" =>
    let _ ← w.readType (v.field "of")
    return w.addNewType id (textFieldOr v "name" id)
  | "alias" => return w.addName id (← w.readType (v.field "of"))
  | other =>
    match classKindOf v with
    | some kind => return w.addClass (← w.readClass kind v)
    | none => throw (.unknownDeclaration other)

/-- Adds declarations one after the other. -/
def declareAll (w : World) : List Value → Except Failure World
  | [] => .ok w
  | v :: vs => do declareAll (← w.declare v) vs

def ofDeclarations (decls : List Value) : Except Failure World := declareAll {} decls

end World

end ApiCompiler
