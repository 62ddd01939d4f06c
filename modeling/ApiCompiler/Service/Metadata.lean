import ApiCompiler.Failure
import ApiCompiler.Types.Expr

/-!
# Declaration metadata

What is attached to services, methods and arguments, and the declared form of a method: its
arguments with their annotations, its return type, and the marks on it. A type that is not given is
the null value.
-/

set_option autoImplicit false

namespace ApiCompiler

/-- Metadata of a service. -/
structure ServiceInfo where
  value : String := ""
  tags : List String := []
  hidden : Bool := false
  authorizations : List String := []

namespace ServiceInfo

/-- The tags of a service: the explicit ones, each once, or the value without slashes. -/
def tagNames (s : ServiceInfo) : List String :=
  match s.tags.filter (· ≠ "") with
  | [] => [String.ofList (s.value.toList.filter (· != '/'))].filter (· ≠ "")
  | tags => tags.foldl (fun acc t => if t ∈ acc then acc else acc ++ [t]) []

def authorizationNames (s : ServiceInfo) : List String := s.authorizations.filter (· ≠ "")

end ServiceInfo

/-- Metadata of an argument. -/
structure ParamInfo where
  name : String := ""
  description : String := ""
  required : Bool := false
  default : Value := .null
  access : String := ""
  allowedValues : String := ""

/-- A parameter that stands in a table beside the method instead of in its arguments. -/
structure ImplicitParam where
  name : String
  location : String := "query"
  typeName : String := "string"
  description : String := ""
  required : Bool := false
  default : Value := .null
  access : String := ""
  allowedValues : String := ""

/-- A declared response header. -/
structure HeaderInfo where
  name : String
  description : String := ""
  type : TypeExpr := .null
  container : String := ""

/-- A declared response. -/
structure ResponseInfo where
  code : Int
  message : String := ""
  type : TypeExpr := .null
  container : String := ""
  headers : List HeaderInfo := []

/-- Metadata of an operation. -/
structure OperationInfo where
  summary : String := ""
  notes : String := ""
  nickname : String := ""
  tags : List String := []
  response : TypeExpr := .null
  responseContainer : String := ""
  request : TypeExpr := .null
  verb : String := ""
  hidden : Bool := false
  authorizations : List String := []
  responseHeaders : List HeaderInfo := []
  protocols : String := ""

/-- How an argument is passed. -/
inductive ArgumentKind where
  | plain | rest | restByName
  deriving DecidableEq, Repr

/-- A declared argument. An argument without annotation has none. -/
structure ArgumentDecl where
  name : String
  annotation : Option TypeExpr := none
  params : List ParamInfo := []
  body : Bool := false
  kind : ArgumentKind := .plain

/-- A declared method. `marked` says that there is route metadata on it; `leads` says that its first
argument is the object or class that it belongs to. -/
structure MethodDecl where
  name : String
  marked : Bool := false
  /-- The path as it is given, which may turn out to be no text. -/
  path : Option Value := none
  operation : Option OperationInfo := none
  verb : Option String := none
  customVerb : Option String := none
  jsonRequest : Bool := false
  consumes : List String := []
  produces : List String := []
  implicitParams : List ImplicitParam := []
  responses : List ResponseInfo := []
  deprecated : Bool := false
  creator : Bool := false
  leads : Bool := true
  arguments : List ArgumentDecl := []
  returns : Option TypeExpr := none

namespace MethodDecl

/-- The path of a method, which has to be a text if there is one. -/
def pathText (m : MethodDecl) : Except Failure (Option String) :=
  match m.path with
  | none => .ok none
  | some (.text s) => .ok (some s)
  | some v => .error (.missingAttribute v.holderName "startswith")

/-- The annotations of a method in the order of its arguments, the return type last. -/
def annotations (m : MethodDecl) : List TypeExpr :=
  m.arguments.filterMap ArgumentDecl.annotation ++ m.returns.toList

end MethodDecl

end ApiCompiler
