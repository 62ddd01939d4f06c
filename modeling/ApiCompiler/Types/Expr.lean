import ApiCompiler.Types.Builtin
import ApiCompiler.Value

/-!
# Type expressions

Types as declarations use them: known and declared classes, applications of generic classes and
names, unions, literals, and the wrappers around a type. Declared classes, type variables and
distinct names are known by their position among the declarations, so each is the same as itself
only. `TypeExpr.same` is sameness of types: unions and literals are compared as sets, all else part
by part.
-/

set_option autoImplicit false

namespace ApiCompiler

/-- What can stand before arguments in brackets. -/
inductive Head where
  | builtin (c : Builtin)
  | generic (g : GenericName)
  | declared (i : Nat)
  /-- A declared class below a class of items; it takes any arguments. -/
  | container (i : Nat)
  deriving DecidableEq, Repr

/-- Heads that keep their arguments as they are given; the others take the class of the null value
for the null value. -/
def Head.isContainer : Head → Bool
  | .builtin c => c != .stream && c != .typeToken
  | .container _ => true
  | _ => false

/-- A type expression. -/
inductive TypeExpr where
  /-- The null value in place of a type. -/
  | null
  /-- Three dots, for the rest of a tuple. -/
  | ellipsis
  | noReturn
  | never
  | builtin (c : Builtin)
  | generic (g : GenericName)
  | declared (i : Nat)
  /-- A declared model class with arguments filled in; it is a class of its own. -/
  | filled (i : Nat) (args : List TypeExpr)
  | typeVar (i : Nat)
  | newType (i : Nat)
  | applied (head : Head) (args : List TypeExpr)
  | union (members : List TypeExpr)
  /-- A union of classes, written with a bar. -/
  | either (members : List TypeExpr)
  | literal (values : List Scalar)
  | annotated (inner : TypeExpr) (marks : Nat)
  | classVar (inner : TypeExpr)
  | required (inner : TypeExpr)
  | notRequired (inner : TypeExpr)
  /-- The name of something that may be declared later. -/
  | forward (name : String)
  /-- An application of something that may be declared later. -/
  | pending (name : String) (args : List TypeExpr)
  deriving Repr

namespace TypeExpr

instance : Inhabited TypeExpr := ⟨.null⟩

/-- The class of the null value. -/
@[match_pattern] abbrev noneType : TypeExpr := .builtin .noneType

/-- Anything. -/
@[match_pattern] abbrev any : TypeExpr := .builtin .any

/-- In most places the null value stands for its class. -/
def asType : TypeExpr → TypeExpr
  | .null => noneType
  | t => t

def isClass : TypeExpr → Bool
  | .builtin _ | .declared _ | .filled .. => true
  | _ => false

/-- Literal values are the same when kind and value are. Each is the same as itself, also a double
that is not a number. -/
def sameLiteral (a b : Scalar) : Bool :=
  a == b || (a.same b && (match a, b with
    | .bool _, .bool _ | .int _, .int _ | .float _, .float _ => true
    | .bool _, _ | .int _, _ | .float _, _ => false
    | _, _ => true))

mutual

def same : TypeExpr → TypeExpr → Bool
  | .null, .null => true
  | .ellipsis, .ellipsis => true
  | .noReturn, .noReturn => true
  | .never, .never => true
  | .builtin c, .builtin d => c == d
  | .generic g, .generic h => g == h
  | .declared i, .declared j => i == j
  | .filled i xs, .filled j ys => i == j && sameList xs ys
  | .typeVar i, .typeVar j => i == j
  | .newType i, .newType j => i == j
  | .applied g xs, .applied h ys => g == h && sameList xs ys
  | .union xs, .union ys => xs.length == ys.length && within xs ys
  | .union xs, .either ys => xs.length == ys.length && within xs ys
  | .either xs, .union ys => xs.length == ys.length && within xs ys
  | .either xs, .either ys => xs.length == ys.length && within xs ys
  | .literal xs, .literal ys =>
    xs.length == ys.length && xs.all fun x => ys.any (sameLiteral x)
  | .annotated t m, .annotated u n => m == n && same t u
  | .classVar t, .classVar u => same t u
  | .required t, .required u => same t u
  | .notRequired t, .notRequired u => same t u
  | .forward a, .forward b => a == b
  | .pending a xs, .pending b ys => a == b && sameList xs ys
  | _, _ => false

/-- Sameness of lists of types, item by item. -/
def sameList : List TypeExpr → List TypeExpr → Bool
  | [], [] => true
  | x :: xs, y :: ys => same x y && sameList xs ys
  | _, _ => false

/-- Every type of the first list has a same one in the second. -/
def within : List TypeExpr → List TypeExpr → Bool
  | [], _ => true
  | x :: xs, ys => ys.any (same x) && within xs ys

end

/-- The types of a list at their first occurrences, in order. -/
def distinct (ts : List TypeExpr) : List TypeExpr :=
  ts.foldl (fun acc t => if acc.any (same t) then acc else acc ++ [t]) []

/-- The type without an annotation around it. -/
def bare : TypeExpr → TypeExpr
  | .annotated t _ => t
  | t => t

/-- The members of a union, and any other type as its own member. -/
def members : TypeExpr → List TypeExpr
  | .union ts | .either ts => ts
  | t => [t]

/-- The union of types as a typing object; a union of one type is that type. -/
def makeUnion (ts : List TypeExpr) : TypeExpr :=
  match distinct ((ts.map asType).flatMap members) with
  | [t] => t
  | ts => .union ts

/-- The type or nothing. -/
def makeOptional (t : TypeExpr) : TypeExpr := makeUnion [t, noneType]

/-- Types that a bar joins into a union of classes. -/
def joinsAsClass : TypeExpr → Bool
  | .null | .builtin _ | .declared _ | .filled .. | .either _ => true
  | .applied head _ => head.isContainer
  | _ => false

/-- Two types joined by a bar. -/
def makeEither (t u : TypeExpr) : TypeExpr :=
  if t.joinsAsClass && u.joinsAsClass then
    match distinct (([t, u].map asType).flatMap members) with
    | [t] => t
    | ts => .either ts
  else makeUnion [t, u]

/-- Types joined by bars, from left to right. -/
def makeEithers : List TypeExpr → TypeExpr
  | [] => .null
  | t :: ts => ts.foldl makeEither t

/-- A type with marks; marks on marks add up. -/
def makeAnnotated (t : TypeExpr) (marks : Nat) : TypeExpr :=
  match t.asType with
  | .annotated u m => .annotated u (m + marks)
  | u => .annotated u marks

def makeApplied (head : Head) (args : List TypeExpr) : TypeExpr :=
  .applied head (if head.isContainer then args else args.map asType)

/-- Literal values without repetitions. -/
def makeLiteral (values : List Scalar) : TypeExpr :=
  .literal (values.foldl (fun acc v => if acc.any (sameLiteral v) then acc else acc ++ [v]) [])

end TypeExpr

end ApiCompiler
