import ApiCompiler.Types.Role
import ApiCompiler.Types.Text

/-!
# Shapes of types

How the schema of a type is made from the schemas of its parts. `World.shape` looks at one level of
a type only, and every type has exactly one shape: the cases are tried in a fixed order, in which an
override comes after tokens and unions and before everything else.
-/

set_option autoImplicit false

namespace ApiCompiler

/-- Types with the schemas that stand for them. -/
abbrev Overrides := List (TypeExpr × Schema)

namespace Overrides

def find? (overrides : Overrides) (t : TypeExpr) : Option Schema :=
  (List.find? (fun (u, _) => u.same t) overrides).map Prod.snd

def insert (t : TypeExpr) (s : Schema) : Overrides → Overrides
  | [] => [(t, s)]
  | (u, s') :: rest => if u.same t then (u, s) :: rest else (u, s') :: insert t s rest

end Overrides

/-- How a schema is made. -/
inductive Shape where
  /-- The schema does not depend on other types. -/
  | fixed (s : Schema)
  /-- The schema is that of another type. -/
  | alike (t : TypeExpr)
  /-- An array; its items are not known when there is no type. -/
  | array (item : Option TypeExpr)
  /-- A map; its values are not known when there is no type. -/
  | map (value : Option TypeExpr)
  | model
  /-- No schema kind fits. -/
  | unmappable (reason : String)

namespace World

/-- Kind and format of primitive classes; a class comes before the classes above it. -/
def primitiveClasses : List (Builtin × SchemaKind × Option String) := [
  (.bool, .boolean, none),
  (.int, .integer, some "int64"),
  (.float, .number, some "double"),
  (.decimal, .number, none),
  (.str, .string, none),
  (.bytes, .string, some "byte"),
  (.bytearray, .string, some "byte"),
  (.datetime, .string, some "date-time"),
  (.date, .string, some "date"),
  (.time, .string, none),
  (.uuid, .string, some "uuid")]

/-- Classes that hold items. -/
def arrayClasses : List Builtin := [
  .list, .tuple, .set, .frozenset, .deque, .sequence, .mutableSequence, .abstractSet, .mutableSet,
  .collection, .iterable, .iterator]

/-- Classes that hold values under keys. -/
def mapClasses : List Builtin := [.dict, .orderedDict, .defaultDict, .mapping, .mutableMapping]

/-- The schema of a primitive class, a class below one, or a class of files. -/
def primitiveSchema? (w : World) (t : TypeExpr) : Option Schema :=
  if !t.isClass then none
  else match primitiveClasses.find? fun (c, _, _) => w.isBelow t c with
    | some (_, kind, format) => some (.primitive kind format [])
    | none =>
      if w.isBelow t .baseStream || t.same (.builtin .stream) ||
          t.same (.builtin .binaryStream) then
        some (.primitive .file none [])
      else none

/-- The schema of an enumeration: integers when its members are, texts otherwise. -/
def enumerationSchema? (w : World) (t : TypeExpr) : Option Schema :=
  if w.isEnumeration t then
    let values := ((w.declaredLineage t).head?.map ClassDecl.enumValues).getD []
    some (.primitive (if w.isBelow t .int then .integer else .string) none values)
  else none

def isBoolLiteral : Scalar → Bool
  | .bool _ => true
  | _ => false

/-- An integer. -/
def isIntLiteral : Scalar → Bool
  | .int _ => true
  | _ => false

def literalSchema (values : List Scalar) : Schema :=
  let kind : SchemaKind :=
    if values.all isBoolLiteral then .boolean
    else if values.all isIntLiteral then .integer
    else .string
  .primitive kind none (values.map .scalar)

/-- The type of the items of an array. The items of a tuple need to be of one type. -/
def itemType (cls : Builtin) (args : List TypeExpr) : Option TypeExpr :=
  if cls = .tuple then
    let items := args.filter fun t => !t.same .ellipsis
    match TypeExpr.distinct items with
    | [t] => some t
    | _ => none
  else args.head?

/-- The known class that a type is, or is an application of. -/
def containerClass? (t : TypeExpr) : Option Builtin :=
  match t, origin? t with
  | .builtin c, _ => some c
  | _, some (.builtin c) => some c
  | _, _ => none

/-- The shape of a type that is neither a token nor a union nor overridden. -/
def ownShape (w : World) (t : TypeExpr) : Shape :=
  match t with
  | .any | .builtin .object | .typeVar _ => .unmappable ""
  | .literal values => .fixed (literalSchema values)
  | t =>
    match w.enumerationSchema? t <|> w.primitiveSchema? t with
    | some s => .fixed s
    | none =>
      match containerClass? t with
      | some .stream => .fixed (.primitive .file none [])
      | some c =>
        if arrayClasses.contains c then .array (itemType c (arguments t))
        else if mapClasses.contains c then
          match arguments t with
          | [_, value] => .map (some value)
          | _ => .map none
        else .model
      | none => .model

def shape (w : World) (overrides : Overrides) (t : TypeExpr) : Shape :=
  match t.bare with
  | .null | .noneType => .unmappable "no content"
  | t =>
    match w.tokenElement t with
    | some e => .alike e
    | none =>
      match t with
      | .union ts | .either ts =>
        match ts.filter fun m => !m.same .noneType with
        | [m] => .alike m
        | _ => .unmappable "union of several types"
      | t =>
        match overrides.find? t with
        | some s => .fixed s
        | none => w.ownShape t

end World

end ApiCompiler
