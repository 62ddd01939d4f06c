import ApiCompiler.Types.Expr

/-!
# Substitution in types

The type variables of a type, and the replacement of variables by types. A type in which something
is replaced is put together anew, so that its unions are flat and without repetitions.
-/

set_option autoImplicit false

namespace ApiCompiler.TypeExpr

mutual

/-- The type variables of a type in order, with repetitions. Those of a class do not count. -/
def varsIn : TypeExpr → List Nat
  | .typeVar i => [i]
  | .applied _ args | .pending _ args => varsInList args
  | .union ts | .either ts => varsInList ts
  | .annotated t _ | .classVar t | .required t | .notRequired t => varsIn t
  | _ => []

def varsInList : List TypeExpr → List Nat
  | [] => []
  | t :: ts => varsIn t ++ varsInList ts

end

def parametersOf (ts : List TypeExpr) : List Nat :=
  (varsInList ts).foldl (fun acc i => if i ∈ acc then acc else acc ++ [i]) []

mutual

/-- Replaces type variables. -/
def replaceVars (f : Nat → TypeExpr) : TypeExpr → TypeExpr
  | .typeVar i => f i
  | .applied head args => makeApplied head (replaceVarsList f args)
  | .pending name args => .pending name (replaceVarsList f args)
  | .union ts => makeUnion (replaceVarsList f ts)
  | .either ts => makeEithers (replaceVarsList f ts)
  | .annotated t m => makeAnnotated (replaceVars f t) m
  | .classVar t => .classVar (replaceVars f t)
  | .required t => .required (replaceVars f t)
  | .notRequired t => .notRequired (replaceVars f t)
  | t => t

def replaceVarsList (f : Nat → TypeExpr) : List TypeExpr → List TypeExpr
  | [] => []
  | t :: ts => replaceVars f t :: replaceVarsList f ts

end

mutual

/-- Replaces type variables also inside of model classes that are filled in, and model classes that
are generic themselves. -/
def fillVars (f : Nat → TypeExpr) (fill : Nat → TypeExpr) : TypeExpr → TypeExpr
  | .typeVar i => f i
  | .declared i => fill i
  | .filled i args => .filled i (fillVarsList f fill args)
  | .applied head args => makeApplied head (fillVarsList f fill args)
  | .pending name args => .pending name (fillVarsList f fill args)
  | .union ts => makeUnion (fillVarsList f fill ts)
  | .either ts => makeEithers (fillVarsList f fill ts)
  | .annotated t m => makeAnnotated (fillVars f fill t) m
  | .classVar t => .classVar (fillVars f fill t)
  | .required t => .required (fillVars f fill t)
  | .notRequired t => .notRequired (fillVars f fill t)
  | t => t

/-- Replaces type variables in a list of types, inside of model classes too. -/
def fillVarsList (f : Nat → TypeExpr) (fill : Nat → TypeExpr) : List TypeExpr → List TypeExpr
  | [] => []
  | t :: ts => fillVars f fill t :: fillVarsList f fill ts

end

mutual

/-- The type without annotations and key markers, at any depth. -/
def plain : TypeExpr → TypeExpr
  | .annotated t _ => plain t
  | .required t => plain t
  | .notRequired t => plain t
  | .applied head args => .applied head (plainList args)
  | .union ts => makeUnion (plainList ts)
  | .either ts => makeEithers (plainList ts)
  | .classVar t => .classVar (plain t)
  | t => t

/-- The types of a list without annotations and key markers. -/
def plainList : List TypeExpr → List TypeExpr
  | [] => []
  | t :: ts => plain t :: plainList ts

end

/-- The type variables bound to arguments. -/
def binding (vars : List Nat) (args : List TypeExpr) (i : Nat) : Option TypeExpr :=
  ((vars.zip args).find? fun (j, _) => j == i).map Prod.snd

end ApiCompiler.TypeExpr
