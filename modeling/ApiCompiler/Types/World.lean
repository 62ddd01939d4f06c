import ApiCompiler.Service.Metadata
import ApiCompiler.Types.Substitution

/-!
# The world of declared types

Declared classes, type variables and distinct names in order of declaration, and what the names of
the declaring module stand for. A declared class carries its linear order of ancestors, so that
questions about inheritance look at one list.
-/

set_option autoImplicit false

namespace ApiCompiler

/-- A declared field of a class. -/
structure FieldDecl where
  name : String
  type : TypeExpr
  hasDefault : Bool := false
  hasFactory : Bool := false
  /-- The name under which the field is shown, where it differs. -/
  shown : Option String := none
  description : String := ""

/-- How the class of an enumeration is built. -/
inductive EnumBase where
  | plain | intEnum | strEnum | flag | intFlag | str | int
  deriving DecidableEq, Repr

/-- How a class is declared. -/
inductive ClassKind where
  | plain
  | dataclass
  /-- A validated model. -/
  | model
  /-- A dictionary with known keys, all of them required unless `total` is false. -/
  | typedDict (total : Bool)
  | namedTuple
  | enumeration (base : EnumBase)
  deriving DecidableEq, Repr

/-- A field that an object of a class has, with its name as it is shown. -/
structure ModelField where
  name : String
  type : TypeExpr
  required : Bool
  description : String := ""

/-- A field of a dataclass. Class variables take a place in the table and are no fields. -/
structure DataField where
  name : String
  required : Bool
  description : String
  isClassVar : Bool

/-- A declared class. -/
structure ClassDecl where
  name : String
  qualname : String
  kind : ClassKind := .plain
  bases : List TypeExpr := []
  /-- The classes above, in the order in which members are looked up. -/
  above : List TypeExpr := []
  typeVars : List Nat := []
  fields : List FieldDecl := []
  /-- The annotations of the class itself. -/
  annotations : Table TypeExpr := []
  /-- The table of data fields, when the class is declared as a dataclass. -/
  dataFields : Option (List DataField) := none
  /-- The fields of a validated model by their declared names. -/
  modelFields : Table ModelField := []
  requiredKeys : List String := []
  enumValues : List Value := []
  methods : Table MethodDecl := []
  /-- Further names that the class itself has a value for. -/
  attributes : List String := []
  nested : Table Nat := []
  service : Option ServiceInfo := none
  path : Option String := none

/-- The methods that are still there when the class is complete: a class declared inside of it takes
the place of a method of its name. -/
def ClassDecl.functions (c : ClassDecl) : Table MethodDecl :=
  c.methods.filter fun (name, _) => !c.nested.has name

/-- Something declared. -/
inductive TypeDecl where
  | typeVar (name : String)
  | newType (name : String)
  | cls (c : ClassDecl)

/-- All that is declared, and the names of the declaring module. -/
structure World where
  decls : List TypeDecl := []
  names : Table TypeExpr := []

namespace World

instance : Inhabited World := ⟨{}⟩

def module : String := "app"

/-- The declared class at a position. -/
def class? (w : World) (i : Nat) : Option ClassDecl :=
  match w.decls[i]? with
  | some (.cls c) => some c
  | _ => none

/-- The class with its ancestors, in the order in which members are looked up. -/
def lineage (w : World) (t : TypeExpr) : List TypeExpr :=
  match t with
  | .builtin c =>
    .builtin c :: c.above.map .builtin ++ (if c = .object then [] else [.builtin .object])
  | .declared i => t :: ((w.class? i).map ClassDecl.above).getD []
  | .filled i _ => t :: .declared i :: ((w.class? i).map ClassDecl.above).getD []
  | _ => []

/-- The declared classes among a class and its ancestors. -/
def declaredLineage (w : World) (t : TypeExpr) : List ClassDecl :=
  (w.lineage t).filterMap fun
    | .declared i => w.class? i
    | _ => none

/-- A class is, or inherits from, a known class. -/
def isBelow (w : World) (t : TypeExpr) (c : Builtin) : Bool :=
  (w.lineage t).any fun
    | .builtin d => d == c
    | _ => false

/-- A class is, or inherits from, a validated model. -/
def isModel (w : World) (t : TypeExpr) : Bool :=
  (w.declaredLineage t).any fun c => c.kind == .model

def isEnumeration (w : World) (t : TypeExpr) : Bool :=
  (w.declaredLineage t).any fun c => match c.kind with
    | .enumeration _ => true
    | _ => false

/-- The class that stands before the arguments of an application. -/
def headClass : Head → TypeExpr
  | .builtin c => .builtin c
  | .generic g => .builtin g.origin
  | .declared i | .container i => .declared i

/-- The class that a type is an application of, bare generic names included. -/
def origin? : TypeExpr → Option TypeExpr
  | .applied head _ => some (headClass head)
  | .generic g => some (.builtin g.origin)
  | _ => none

def arguments : TypeExpr → List TypeExpr
  | .applied _ args => args
  | _ => []

def baseClass? (t : TypeExpr) : Option TypeExpr :=
  if t.isClass then some t else origin? t

/-- Removes the first occurrences of a class from lists of classes. -/
def dropHead (c : TypeExpr) (lines : List (List TypeExpr)) : List (List TypeExpr) :=
  lines.map fun
    | [] => []
    | d :: ds => if d.same c then ds else d :: ds

/-- Merges lists of classes into one that keeps the order of each: the first head that stands in no
tail comes first. Lists that cannot be merged are joined without repetitions. -/
def mergeLines : Nat → List (List TypeExpr) → List TypeExpr
  | 0, lines => TypeExpr.distinct lines.flatten
  | bound + 1, lines =>
    let lines := lines.filter (!·.isEmpty)
    let heads := lines.filterMap List.head?
    match heads.find? fun c => !lines.any fun l => l.tail.any (TypeExpr.same c) with
    | some c => c :: mergeLines bound (dropHead c lines)
    | none => TypeExpr.distinct lines.flatten

/-- The classes above a class with the given bases. -/
def linearize (w : World) (bases : List TypeExpr) : List TypeExpr :=
  let classes := bases.filterMap baseClass?
  let classes := if classes.isEmpty then [.builtin .object] else classes
  let lines := classes.map w.lineage ++ [classes]
  mergeLines (lines.foldl (fun n line => n + line.length) 0) lines

/-- The names that a class itself has a value for. -/
def ownAttributes (w : World) (t : TypeExpr) : List String :=
  match t with
  | .builtin c => c.members
  | .declared i =>
    match w.class? i with
    | some c => c.attributes ++ c.methods.keys ++ c.nested.keys
    | none => []
  | _ => []

/-- A class made for others to inherit its protocol. -/
def isAbstract : TypeExpr → Bool
  | .builtin c => c.module == "collections.abc"
  | _ => false

/-- Some class of a list has a value for a name, or every class has. -/
def someHasAttribute (w : World) (classes : List TypeExpr) (name : String) : Bool :=
  name == "mro" || (name == "register" && classes.any isAbstract) ||
    classes.any fun c => (w.ownAttributes c).contains name

/-- A class has a value for a name, of its own or from above. -/
def hasAttribute (w : World) (t : TypeExpr) (name : String) : Bool :=
  w.someHasAttribute (w.lineage t) name

/-- The type variables of a type that arguments can be given for. -/
def parameters (w : World) : TypeExpr → List Nat
  | .declared i => ((w.class? i).map ClassDecl.typeVars).getD []
  | .builtin _ | .filled .. => []
  | t => TypeExpr.parametersOf [t]

/-- A class below a class of items takes any arguments, unless it is a record that is generic
itself. -/
def holdsItems (w : World) (t : TypeExpr) : Bool :=
  ((w.lineage t).findSome? fun
    | .builtin c =>
      if c.takesArguments && c != .typeToken && c != .stream then some true else none
    | .declared i => (w.class? i).bind fun c =>
      let isRecord := match c.kind with
        | .typedDict _ | .namedTuple => true
        | _ => false
      if isRecord && !c.typeVars.isEmpty then some false else none
    | _ => none).getD false

/-- A type with arguments in brackets, where that is possible. -/
def subscript (w : World) (t : TypeExpr) (args : List TypeExpr) : Option TypeExpr :=
  match t with
  | .builtin c =>
    let fits := match c with
      | .stream | .typeToken => args.length == 1
      | _ => true
    if c.takesArguments && fits then some (.makeApplied (.builtin c) args) else none
  | .generic g =>
    if g.arity.all (· == args.length) then some (.makeApplied (.generic g) args) else none
  | .declared i =>
    let vars := w.parameters t
    if w.holdsItems t then some (.makeApplied (.container i) args)
    else if vars.isEmpty || vars.length != args.length then none
    else if w.isModel t then
      let args := args.map TypeExpr.asType
      if TypeExpr.sameList args (vars.map .typeVar) then some t else some (.filled i args)
    else some (.makeApplied (.declared i) args)
  | t =>
    let vars := w.parameters t
    if vars.isEmpty || vars.length != args.length then none
    else match t with
      | .typeVar _ => none
      | t => some (t.replaceVars fun i => (TypeExpr.binding vars args i).getD (.typeVar i))

end World

end ApiCompiler
