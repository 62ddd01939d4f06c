import ApiCompiler.Types.World

/-!
# Roles of types

Types that stand for something else or mean something to a service: tokens for their element, async
results for their payload, request handles, types without content, and services themselves.
-/

set_option autoImplicit false

namespace ApiCompiler.World

/-- The classes whose arguments are the payload of an async result. -/
def asyncWrappers : List Builtin := [.future, .task, .concurrentFuture, .awaitable]

/-- The payload of an async result, and any other type as it is. -/
def unwrapAsync (t : TypeExpr) : TypeExpr :=
  match origin? t, arguments t with
  | some (.builtin .coroutine), args =>
    match args with
    | [_, _, result] => result
    | _ => .any
  | some (.builtin c), args =>
    if asyncWrappers.contains c then args.headD .any else t
  | _, _ =>
    match t with
    | .builtin c => if asyncWrappers.contains c then .any else t
    | t => t

def isRequestHandle (w : World) (t : TypeExpr) : Bool := w.isBelow t .requestHandle

def isNoContent : TypeExpr → Bool
  | .null | .noneType | .noReturn => true
  | _ => false

/-- The metadata of a service; a class below a service is no service for that. -/
def serviceInfo? (w : World) (t : TypeExpr) : Option ServiceInfo :=
  match t with
  | .declared i => (w.class? i).bind ClassDecl.service
  | _ => none

def isService (w : World) (t : TypeExpr) : Bool := (w.serviceInfo? t).isSome

/-- A class is declared below the token class. -/
def isToken (w : World) (t : TypeExpr) : Bool :=
  t.isClass && !t.same (.builtin .typeToken) && w.isBelow t .typeToken

/-- The bases that a class keeps as they are written. It keeps none when they are classes alone, as
those of an enumeration are. A dictionary and a named tuple keep the name of their kind instead,
which stands for no token. -/
def keptBases (c : ClassDecl) : Option (List TypeExpr) :=
  match c.kind with
  | .plain | .dataclass | .model =>
    if c.bases.all TypeExpr.isClass && c.typeVars.isEmpty then none else some c.bases
  | .typedDict _ | .namedTuple => some []
  | .enumeration _ => none

/-- The bases that the nearest class keeps. Of the known classes, the token class and the streams
keep theirs, and none of these is a token with an element. -/
def writtenBases (w : World) (t : TypeExpr) : List TypeExpr :=
  ((w.lineage t).findSome? fun
    | .declared i => (w.class? i).bind keptBases
    | .builtin .typeToken | .builtin .stream | .builtin .binaryStream | .builtin .textStream =>
      some []
    | _ => none).getD []

/-- The element that bases give to a token. -/
def elementIn (bases : List TypeExpr) : Option TypeExpr :=
  bases.findSome? fun
    | .applied (.builtin .typeToken) (e :: _) => some e
    | _ => none

/-- The element of a token, looked for in a bounded number of classes above. -/
def elementAbove (w : World) : Nat → TypeExpr → Option TypeExpr
  | 0, _ => none
  | bound + 1, t =>
    if w.isToken t then
      match elementIn (w.writtenBases t) with
      | some e => some e
      | none => ((w.lineage t).drop 1).find? w.isToken |>.bind (elementAbove w bound)
    else none

/-- The element that a token class stands for. -/
def tokenElement (w : World) (t : TypeExpr) : Option TypeExpr :=
  w.elementAbove (w.lineage t).length t

end ApiCompiler.World
