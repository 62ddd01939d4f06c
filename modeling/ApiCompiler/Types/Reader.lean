import ApiCompiler.Failure
import ApiCompiler.Types.World

/-!
# Reading types

Types as declaration files write them: a name, or a record whose first entry says how the type is
put together. A name that stands for nothing yet is kept, to be looked up later.
-/

set_option autoImplicit false

namespace ApiCompiler

namespace Value

/-- The value of a field of a record; the null value when there is none. -/
def field (name : String) : Value → Value
  | .map es => (lookup (.text name) es).getD .null
  | _ => .null

def hasField (name : String) : Value → Bool
  | .map es => (lookup (.text name) es).isSome
  | _ => false

def text? : Value → Option String
  | .text s => some s
  | _ => none

/-- The items of a list; none for any other value. -/
def items : Value → List Value
  | .list vs => vs
  | _ => []

def textItems (v : Value) : List String := v.items.filterMap text?

def isTrue : Value → Bool
  | .bool b => b
  | _ => false

def scalar? : Value → Option Scalar
  | .scalar s => some s
  | _ => none

end Value

namespace World

/-- Names of types that are neither classes nor declared. -/
def specialNames : Table TypeExpr := [
  ("None", .null), ("...", .ellipsis), ("NoReturn", .noReturn), ("Never", .never)]

def lookupName (w : World) (name : String) : TypeExpr :=
  match specialNames.get? name with
  | some t => t
  | none =>
    match Builtin.all.find? fun c => c.name == name with
    | some c => .builtin c
    | none =>
      match GenericName.all.find? fun g => "typing." ++ g.name == name with
      | some g => .generic g
      | none => (w.names.get? name).getD (.forward name)

/-- Puts a type together from parts by the word for its form. -/
def typeOfForm (form : String) (parts : List TypeExpr) (values : List Scalar) :
    Except Failure TypeExpr :=
  let part := parts.headD .null
  match form with
  | "union" => .ok (.makeUnion parts)
  | "optional" => .ok (.makeOptional part)
  | "or" => .ok (.makeEithers parts)
  | "literal" => .ok (.makeLiteral values)
  | "annotated" => .ok (.makeAnnotated part 1)
  | "classvar" => .ok (.classVar part.asType)
  | "required" => .ok (.required part.asType)
  | "notrequired" => .ok (.notRequired part.asType)
  | form => .error (.unknownTypeForm form)

mutual

def readType (w : World) : Value → Except Failure TypeExpr
  | .text name => .ok (w.lookupName name)
  | .map ((.text form, arg) :: rest) => do
    if form = "g" then
      let head ← readType w arg
      let args ← readArguments w rest
      match head with
      | .forward name => return .pending name args
      | head =>
        match w.subscript head args with
        | some t => return t
        | none => throw (.notGeneric args.length)
    else if form = "literal" then typeOfForm form [] (arg.items.filterMap Value.scalar?)
    else if form = "union" ∨ form = "or" then typeOfForm form (← readTypes w arg) []
    else if form = "a" then throw (.unknownTypeForm form)
    else typeOfForm form [← readType w arg] []
  | _ => .ok .null

def readTypes (w : World) : Value → Except Failure (List TypeExpr)
  | .list vs => readTypeList w vs
  | _ => .ok []

def readTypeList (w : World) : List Value → Except Failure (List TypeExpr)
  | [] => .ok []
  | v :: vs => do return (← readType w v) :: (← readTypeList w vs)

/-- Reads the arguments among the entries of a record. -/
def readArguments (w : World) : List (Scalar × Value) → Except Failure (List TypeExpr)
  | [] => .ok []
  | (.text "a", v) :: _ => readTypes w v
  | _ :: rest => readArguments w rest

end

end World

end ApiCompiler
