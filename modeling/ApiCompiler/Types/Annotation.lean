import ApiCompiler.Types.Text

/-!
# Resolving annotations

An annotation may name what is declared after it, also in front of arguments. Once all is declared,
the names are replaced by what they stand for, from left to right; the first that stands for
nothing, or does not take its arguments, is the fault of the annotation.
-/

set_option autoImplicit false

namespace ApiCompiler.World

/-- What a type that takes no arguments is called. -/
def plainName (w : World) (t : TypeExpr) : String :=
  match w.simpleName t with
  | .ok name => name
  | .error _ => w.text t

/-- A type with arguments in brackets, or why it does not take them. -/
def applyTo (w : World) (t : TypeExpr) (args : List TypeExpr) : Except AnnotationFault TypeExpr :=
  match w.subscript t args with
  | some u => .ok u
  | none =>
    match w.parameters t with
    | [] => .error (.takesNoArguments (w.plainName t))
    | vars => .error (.argumentCount (w.shown t) args.length vars.length)

mutual

/-- Replaces the names of things declared later. -/
def resolveNames (w : World) (names : Table TypeExpr) :
    TypeExpr → Except AnnotationFault TypeExpr
  | .forward name =>
    match names.get? name with
    | some t => .ok t.asType
    | none => .error (.unknownName name)
  | .pending name args =>
    match names.get? name with
    | some t => do w.applyTo t (← resolveNamesList w names args)
    | none => .error (.unknownName name)
  | .applied head args => do return .applied head (← resolveNamesList w names args)
  | .filled i args => do return .filled i (← resolveNamesList w names args)
  | .union ts => do return .makeUnion (← resolveNamesList w names ts)
  | .either ts => do return .makeEithers (← resolveNamesList w names ts)
  | .annotated t m => do return .makeAnnotated (← resolveNames w names t) m
  | .classVar t => do return .classVar (← resolveNames w names t)
  | .required t => do return .required (← resolveNames w names t)
  | .notRequired t => do return .notRequired (← resolveNames w names t)
  | t => .ok t

def resolveNamesList (w : World) (names : Table TypeExpr) :
    List TypeExpr → Except AnnotationFault (List TypeExpr)
  | [] => .ok []
  | t :: ts => do return (← resolveNames w names t) :: (← resolveNamesList w names ts)

end

/-- What an annotation in the declaring module stands for. -/
def resolveWritten (w : World) (t : TypeExpr) : Except AnnotationFault TypeExpr :=
  w.resolveNames w.names t.asType

end ApiCompiler.World
