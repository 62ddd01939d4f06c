import ApiCompiler.Notice
import ApiCompiler.Types.Role
import ApiCompiler.Types.Fields

/-!
# Loading services

A service as the compiler consumes it: its routed methods in order, base classes first and overrides
in place, with their annotations resolved. A method takes its request either from its own arguments
or from the creator of a request type, the one method that is marked as building it from a request.
-/

set_option autoImplicit false

namespace ApiCompiler

/-- An argument of a loaded method. -/
structure Argument where
  name : String
  annotation : TypeExpr
  param : Option ParamInfo
  body : Bool
  requestHandle : Bool

/-- The arguments of the creator of a request type. -/
structure RequestBody where
  name : String
  reference : String
  arguments : List Argument

/-- A loaded method. No return annotation is the null value. -/
structure Method where
  decl : MethodDecl
  declaringType : String
  declaringName : String
  arguments : List Argument
  returnType : TypeExpr
  requestElement : Option TypeExpr
  requestBody : Option RequestBody
  subResource : Option TypeExpr

namespace Method

def name (m : Method) : String := m.decl.name

/-- The name under which the request model of a method may be kept. -/
def identifier (m : Method) : String := m.declaringType ++ "_" ++ m.name

/-- The method behind its class. -/
def place (m : Method) : String := m.declaringType ++ "." ++ m.name

/-- The metadata of the operation, as if empty when there is none. -/
def operation (m : Method) : OperationInfo := m.decl.operation.getD {}

end Method

/-- A loaded service. -/
structure Service where
  type : TypeExpr
  name : String
  info : ServiceInfo
  path : Option String
  methods : List Method

namespace World

/-- Resolves annotations, or finds the first fault in them. -/
def resolveAll (w : World) : List TypeExpr → Except AnnotationFault (List TypeExpr)
  | [] => .ok []
  | t :: ts => do return (← w.resolveWritten t) :: (← resolveAll w ts)

def checkAnnotations (w : World) (owner : String) (m : MethodDecl) : Except Failure Unit :=
  match w.resolveAll m.annotations with
  | .ok _ => .ok ()
  | .error fault => .error (.unresolvedSignature (owner ++ "." ++ m.name) fault)

/-- An annotation as it is resolved; anything where there is none. -/
def resolved (w : World) : Option TypeExpr → TypeExpr
  | none => .any
  | some t =>
    match w.resolveWritten t with
    | .ok u => u
    | .error _ => t

/-- The names of a first argument that stands for the object or the class. -/
def leadNames : List String := ["self", "cls"]

/-- The arguments that a request gives values for. -/
def requestArguments (m : MethodDecl) : List ArgumentDecl :=
  let args := match m.leads, m.arguments with
    | false, a :: rest => if a.name ∈ leadNames then rest else a :: rest
    | _, args => args
  args.filter fun a => a.kind == .plain

def argumentsOf (w : World) (owner : String) (m : MethodDecl) : Except Failure (List Argument) := do
  w.checkAnnotations owner m
  return (requestArguments m).map fun a =>
    let annotation := (w.resolved a.annotation).bare
    { name := a.name, annotation, param := a.params.head?, body := a.body
      requestHandle := w.isRequestHandle annotation }

/-- Types that hold no members to look through. -/
def hasNoMembers : TypeExpr → Bool
  | .null | .ellipsis | .noReturn | .never | .either _ => true
  | _ => false

/-- The creators of a class with the name of the class that holds them. -/
def creatorsOf (w : World) (t : TypeExpr) : List (String × MethodDecl) :=
  match t with
  | .declared i | .applied (.container i) _ =>
    match w.class? i with
    | some c => (c.functions.filter fun (_, m) => m.creator).map fun (_, m) => (c.qualname, m)
    | none => []
  | _ => []

/-- The arguments of the single creator of a request type. -/
def creatorArguments (w : World) (t : TypeExpr) : Except Failure (List Argument) := do
  if hasNoMembers t then throw .noMembers
  match w.creatorsOf t with
  | [] => throw (.noCreator (← w.simpleName t))
  | [(owner, m)] =>
    let args ← w.argumentsOf owner m
    match args with
    | { param := none, .. } :: _ => throw (.creatorWithoutParam (← w.simpleName t))
    | _ => return args
  | _ => throw (.severalCreators (← w.simpleName t))

def requestBodyOf (w : World) (t : TypeExpr) : Except Failure RequestBody := do
  let name ← w.simpleName t
  let reference ← w.qualifiedName t
  let arguments ← w.creatorArguments t
  return { name, reference, arguments }

/-- Where the request of a method comes from besides its arguments: the element of a token, or the
creator of a request type. -/
def requestOf (w : World) (m : MethodDecl) (arguments : List Argument) :
    Except Failure (Option TypeExpr × Option RequestBody) :=
  match m.operation.map OperationInfo.request with
  | some request =>
    match request with
    | .null => fromBody
    | t =>
      match w.tokenElement t with
      | some e => .ok (some e, none)
      | none => (w.requestBodyOf t).map fun b => (none, some b)
  | none => fromBody
where
  fromBody : Except Failure (Option TypeExpr × Option RequestBody) :=
    match arguments with
    | [a] => if a.body then (w.requestBodyOf a.annotation).map fun b => (none, some b)
      else .ok (none, none)
    | _ => .ok (none, none)

/-- Loads a method of the class `t` that is declared in the class called `owner`. -/
def loadMethod (w : World) (t : TypeExpr) (owner : String) (m : MethodDecl) :
    Except Failure Method := do
  let arguments ← w.argumentsOf owner m
  let returnType := match m.returns with
    | some r => w.resolved (some r)
    | none => .null
  let (requestElement, requestBody) ← w.requestOf m arguments
  let payload := unwrapAsync returnType
  return {
    decl := m
    declaringType := ← w.qualifiedName t
    declaringName := ← w.simpleName t
    arguments, returnType, requestElement, requestBody
    subResource := if w.isService payload then some payload else none }

/-- The functions that a class itself has, with the name of the class. -/
def ownFunctions (w : World) (t : TypeExpr) : Table (String × MethodDecl) :=
  match t with
  | .builtin c => c.functions.map fun name => (name, (c.qualname, { name }))
  | .declared i => ((w.class? i).map fun c =>
      c.functions.map fun (name, m) => (name, (c.qualname, m))).getD []
  | _ => []

/-- The public methods of a class with the names of the classes that declare them: those furthest
above first, overrides in place. Members that are no functions are passed over. -/
def publicMethods (w : World) (t : TypeExpr) : Table (String × MethodDecl) :=
  (w.lineage t).reverse.foldl (fun acc u =>
    Table.merge acc ((w.ownFunctions u).filter fun (name, _) => !isHidden name)) []

/-- The methods of a class with route metadata. -/
def routedMethods (w : World) (t : TypeExpr) : List (String × MethodDecl) :=
  (w.publicMethods t).values.filter fun (_, m) => m.marked

def loadMethods (w : World) (t : TypeExpr) :
    List (String × MethodDecl) → Except Failure (List Method)
  | [] => .ok []
  | (owner, m) :: rest => do return (← w.loadMethod t owner m) :: (← loadMethods w t rest)

/-- How a type that is no service is called: a class by its quoted name. -/
def notServiceText (w : World) (t : TypeExpr) : String :=
  match t.isClass, w.qualifiedName t with
  | true, .ok name => Text.quoted name
  | _, _ => w.shown t

def loadService (w : World) (t : TypeExpr) : Except Failure Service := do
  match w.serviceInfo? t with
  | none => throw (.notAService (w.notServiceText t))
  | some info =>
    let methods ← w.loadMethods t (w.routedMethods t)
    let name ← w.qualifiedName t
    let path := match t with
      | .declared i => (w.class? i).bind ClassDecl.path
      | _ => none
    return { type := t, name, info, path, methods }

end World

end ApiCompiler
