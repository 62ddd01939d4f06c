import ApiCompiler.Failure
import ApiCompiler.Types.World
import ApiCompiler.Value.Shown

/-!
# Texts and names of types

The text of a type as messages show it, the names that a type has, and the name of the model that is
built from it. Not every type has a name.
-/

set_option autoImplicit false

namespace ApiCompiler

namespace World

/-- The name of a member of the declaring module. -/
def global (name : String) : String := module ++ "." ++ name

/-- The declared name of a class, a type variable or a distinct name. -/
def declaredName (w : World) (i : Nat) : String :=
  match w.decls[i]? with
  | some (.typeVar n) => n
  | some (.newType n) => n
  | some (.cls c) => c.name
  | none => ""

/-- The name of a declared class with the names of the classes around it. -/
def declaredQualname (w : World) (i : Nat) : String :=
  match w.class? i with
  | some c => c.qualname
  | none => w.declaredName i

def commaList (texts : List String) : String := ", ".intercalate texts

/-- Arguments in brackets; there is a form for none at all. -/
def inBrackets (head : String) (args : List String) : String :=
  head ++ "[" ++ (if args.isEmpty then "()" else commaList args) ++ "]"

mutual

/-- The name of a declared class with arguments filled in. -/
def filledName (w : World) : TypeExpr → String
  | .null => "NoneType"
  | .ellipsis => "..."
  | .noReturn => "NoReturn"
  | .never => "Never"
  | .builtin c => c.qualname
  | .generic g => g.name
  | .declared i => w.declaredQualname i
  | .filled i args => w.declaredName i ++ "[" ++ commaList (filledNames w args) ++ "]"
  | .typeVar i => "~" ++ w.declaredName i
  | .newType i => global (w.declaredName i)
  | .applied head args =>
    (match head with
      | .builtin c => c.qualname
      | .generic g => g.name
      | .declared i | .container i => w.declaredName i) ++
      "[" ++ commaList (filledNames w args) ++ "]"
  | .union ts | .either ts => "Union[" ++ commaList (filledNames w ts) ++ "]"
  | .literal vs => "Literal[" ++ commaList (vs.map Scalar.argumentText) ++ "]"
  | .annotated t _ => "Annotated[" ++ filledName w t ++ ", str]"
  | .classVar t => "ClassVar[" ++ filledName w t ++ "]"
  | .required t => "Required[" ++ filledName w t ++ "]"
  | .notRequired t => "NotRequired[" ++ filledName w t ++ "]"
  | .forward name => "ForwardRef(" ++ Text.quoted name ++ ")"
  | .pending name args => name ++ "[" ++ commaList (filledNames w args) ++ "]"

def filledNames (w : World) : List TypeExpr → List String
  | [] => []
  | t :: ts => filledName w t :: filledNames w ts

end

mutual

def text (w : World) : TypeExpr → String
  | .null => "None"
  | .ellipsis => "..."
  | .noReturn => "typing.NoReturn"
  | .never => "typing.Never"
  | .builtin c => c.text
  | .generic g => "typing." ++ g.name
  | .declared i => global (w.declaredQualname i)
  | .filled i args => global (w.declaredName i ++ "[" ++ commaList (filledNames w args) ++ "]")
  | .typeVar i => "~" ++ w.declaredName i
  | .newType i => global (w.declaredName i)
  | .applied head args =>
    inBrackets
      (match head with
        | .builtin c => c.text
        | .generic g => "typing." ++ g.name
        | .declared i | .container i => global (w.declaredQualname i))
      (texts w args)
  | .union ts =>
    match ts with
    | [.noneType, t] | [t, .noneType] => "typing.Optional[" ++ text w t ++ "]"
    | ts => "typing.Union[" ++ commaList (texts w ts) ++ "]"
  | .either ts => " | ".intercalate (memberTexts w ts)
  | .literal vs => "typing.Literal[" ++ commaList (vs.map Scalar.argumentText) ++ "]"
  | .annotated t m =>
    "typing.Annotated[" ++ text w t ++ String.join (List.replicate m ", 'meta'") ++ "]"
  | .classVar t => "typing.ClassVar[" ++ text w t ++ "]"
  | .required t => "typing.Required[" ++ text w t ++ "]"
  | .notRequired t => "typing.NotRequired[" ++ text w t ++ "]"
  | .forward name => "ForwardRef(" ++ Text.quoted name ++ ")"
  | .pending name args => inBrackets name (texts w args)

def texts (w : World) : List TypeExpr → List String
  | [] => []
  | t :: ts => text w t :: texts w ts

/-- The texts of types between bars, where the class of the null value is written as the value. -/
def memberTexts (w : World) : List TypeExpr → List String
  | [] => []
  | t :: ts =>
    (match t with
      | .noneType => "None"
      | t => text w t) :: memberTexts w ts

end

/-- A type as messages show it: a class between angle brackets. -/
def shown (w : World) (t : TypeExpr) : String :=
  match t with
  | .any => w.text t
  | .ellipsis => "Ellipsis"
  | .builtin _ | .filled .. => "<class '" ++ w.text t ++ "'>"
  | .declared i =>
    match (w.class? i).map ClassDecl.kind with
    | some (.enumeration base) =>
      (if base = .flag ∨ base = .intFlag then "<flag " else "<enum ") ++
        Text.quoted (w.declaredName i) ++ ">"
    | _ => "<class '" ++ w.text t ++ "'>"
  | t => w.text t

/-- What an object without some member is called. -/
def holderName : TypeExpr → String
  | .null => "NoneType"
  | .ellipsis => "ellipsis"
  | .typeVar _ => "TypeVar"
  | .either _ => "types.UnionType"
  | .forward _ | .pending .. => "ForwardRef"
  | _ => "type"

def isOptional (ts : List TypeExpr) : Bool :=
  ts.length == 2 && ts.any (TypeExpr.same .noneType)

def simpleName (w : World) (t : TypeExpr) : Except Failure String :=
  match t with
  | .null | .ellipsis | .either _ | .forward _ | .pending .. =>
    .error (.missingAttribute (holderName t) "__name__")
  | .noReturn => .ok "NoReturn"
  | .never => .ok "Never"
  | .builtin c => .ok c.qualname
  | .generic g => .ok g.name
  | .declared i | .typeVar i | .newType i => .ok (w.declaredName i)
  | .filled .. => .ok (w.filledName t)
  | .applied (.builtin c) _ => .ok c.qualname
  | .applied (.generic g) _ => .ok g.name
  | .applied (.declared i) _ | .applied (.container i) _ => .ok (w.declaredName i)
  | .union ts => .ok (if isOptional ts then "Optional" else "Union")
  | .literal _ => .ok "Literal"
  | .annotated .. => .ok "Annotated"
  | .classVar _ => .ok "ClassVar"
  | .required _ => .ok "Required"
  | .notRequired _ => .ok "NotRequired"

/-- The name of a type in its module. -/
def qualname (w : World) (t : TypeExpr) : Except Failure String :=
  match t with
  | .null | .ellipsis | .either _ | .forward _ | .pending .. | .typeVar _ =>
    .error (.missingAttribute (holderName t) "__qualname__")
  | .declared i => .ok (w.declaredQualname i)
  | t => w.simpleName t

def moduleName (t : TypeExpr) : Except Failure String :=
  match t with
  | .null | .ellipsis => .error (.missingAttribute (holderName t) "__module__")
  | .builtin c | .applied (.builtin c) _ => .ok c.module
  | .declared _ | .filled .. | .typeVar _ | .newType _ | .applied (.declared _) _
  | .applied (.container _) _ => .ok module
  | .either _ => .ok "types"
  | .annotated t _ => moduleName t
  | _ => .ok "typing"

/-- Module and name of a type. -/
def qualifiedName (w : World) (t : TypeExpr) : Except Failure String := do
  let m ← moduleName t
  let q ← w.qualname t
  return m ++ "." ++ q

def removeWord (word : List Char) : Nat → List Char → List Char
  | 0, cs => cs
  | _, [] => []
  | bound + 1, c :: cs =>
    if word.isPrefixOf (c :: cs) then removeWord word bound ((c :: cs).drop word.length)
    else c :: removeWord word bound cs

def label (w : World) (t : TypeExpr) : String :=
  match t with
  | .declared i => w.declaredName i
  | .builtin c => c.qualname
  | .filled .. => w.filledName t
  | t =>
    let cs := (w.text t).toList
    String.ofList (removeWord "typing.".toList cs.length cs)

/-- The name of the model of a type: its qualified name, with the labels of its arguments. -/
def modelName (w : World) (t : TypeExpr) : Except Failure String :=
  match origin? t, arguments t with
  | some cls, a :: args => do
    return inBrackets (← w.qualifiedName cls) ((a :: args).map w.label)
  | _, _ => w.qualifiedName t

end World

end ApiCompiler
