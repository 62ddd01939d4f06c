import ApiCompiler.Types.Enumeration
import ApiCompiler.Types.Fields

/-!
# Declaring types

Each declaration adds one entry to the world and one name to the declaring module. What a class
takes over from its bases is worked out when it is declared: its ancestors, its type variables, its
table of fields, and the keys it requires.
-/

set_option autoImplicit false

namespace ApiCompiler

/-- A class as it is written. -/
structure ClassSpec where
  id : String
  name : String
  outer : Option String := none
  kind : ClassKind := .plain
  bases : List TypeExpr := []
  typeVars : List Nat := []
  fields : List FieldDecl := []
  methods : List MethodDecl := []
  attributes : List String := []
  members : List Value := []
  service : Option ServiceInfo := none
  path : Option String := none

namespace ClassSpec

/-- The name that a member of a class is kept under: one that begins with two underscores and does
not end with two gets the name of the class in front. -/
def memberName (cls name : String) : String :=
  let owner := cls.toList.dropWhile (· == '_')
  let hidden := ['_', '_'].isPrefixOf name.toList && !(['_', '_'].isPrefixOf name.toList.reverse)
  if hidden && !owner.isEmpty then String.ofList ('_' :: owner) ++ name else name

/-- The known class that a kind of class stands below. -/
def standardBase? : ClassKind → Option Builtin
  | .typedDict _ => some .dict
  | .namedTuple => some .tuple
  | .enumeration base => base.mixin?
  | _ => none

def above (spec : ClassSpec) (w : World) : List TypeExpr :=
  match standardBase? spec.kind, spec.kind with
  | some c, _ => w.linearize [.builtin c]
  | none, .enumeration _ => w.linearize []
  | none, _ => w.linearize spec.bases

/-- A field is given a value where it is declared. -/
def isAssigned (f : FieldDecl) : Bool :=
  f.hasDefault || f.hasFactory || f.shown.isSome || f.description != ""

/-- Adds a field. One of its name keeps its place and takes the new type; what it is given stays
unless the new one is given something. -/
def putField (f : FieldDecl) : List FieldDecl → List FieldDecl
  | [] => [f]
  | g :: gs =>
    if g.name = f.name then (if isAssigned f then f else { g with type := f.type }) :: gs
    else g :: putField f gs

/-- The declared fields with their member names, each name once. -/
def ownFields (spec : ClassSpec) : List FieldDecl :=
  (spec.fields.map fun f => { f with name := memberName spec.name f.name }).foldl
    (fun acc f => putField f acc) []

/-- The bases as declared classes. -/
def baseDecls (spec : ClassSpec) (w : World) : List ClassDecl :=
  (spec.bases.filterMap World.baseClass?).filterMap fun
    | .declared i | .filled i _ => w.class? i
    | _ => none

/-- The annotations of the class; a dictionary takes over those of its bases. -/
def annotations (spec : ClassSpec) (w : World) : Table TypeExpr :=
  let own := spec.ownFields.map fun f => (f.name, f.type)
  match spec.kind with
  | .typedDict _ =>
    Table.merge ((spec.baseDecls w).foldl (fun acc c => Table.merge acc c.annotations) []) own
  | _ => Table.ofList own

/-- A key of a dictionary is marked as required, as not required, or not at all. -/
def keyMark (t : TypeExpr) : Option Bool :=
  match t.bare with
  | .required _ => some true
  | .notRequired _ => some false
  | _ => none

/-- Required keys once a class with the given keys has its say on those that it has. -/
def updateRequired (keys required inherited : List String) : List String :=
  inherited.filter (!keys.contains ·) ++ required

/-- The keys that a dictionary requires; the last class that has a key decides. -/
def requiredKeys (spec : ClassSpec) (w : World) : List String :=
  match spec.kind with
  | .typedDict total =>
    let inherited := (spec.baseDecls w).foldl
      (fun acc c => updateRequired c.annotations.keys c.requiredKeys acc) []
    updateRequired (spec.ownFields.map FieldDecl.name)
      ((spec.ownFields.filter fun f => (keyMark f.type).getD total).map FieldDecl.name) inherited
  | _ => []

/-- Adds a data field: in place when there is one of its name, at the end otherwise. -/
def putDataField (f : DataField) : List DataField → List DataField
  | [] => [f]
  | g :: gs => if g.name = f.name then f :: gs else g :: putDataField f gs

/-- The data fields of a dataclass: those from above, furthest first, and its own. A field that is
given nothing has the value that a class above has for its name as its default. -/
def dataFields (spec : ClassSpec) (w : World) (above : List TypeExpr) : List DataField :=
  let inherited := above.reverse.flatMap fun t => (w.dataFieldsOf t).getD []
  let own := spec.ownFields.map fun f =>
    { name := f.name
      required := !f.hasDefault && !f.hasFactory &&
        (isAssigned f || !w.someHasAttribute above f.name)
      description := f.description
      isClassVar := World.isClassVar f.type : DataField }
  (inherited ++ own).foldl (fun acc f => putDataField f acc) []

def isModelField (f : FieldDecl) : Bool := !World.isClassVar f.type && !World.isHidden f.name

def modelField (w : World) (f : FieldDecl) : ModelField :=
  let type := match w.resolveWritten f.type with
    | .ok t => t
    | .error _ => f.type
  { name := f.shown.getD f.name, type := type.bare, required := !f.hasDefault && !f.hasFactory
    description := f.description }

/-- The fields that a base passes on to a validated model, by their declared names. -/
def passedOn (w : World) (base : TypeExpr) : Table ModelField :=
  match base with
  | .declared i => ((w.class? i).map ClassDecl.modelFields).getD []
  | .filled i _ =>
    ((w.class? i).map fun c => c.modelFields.keys.zip (w.modelFieldsOf base)).getD []
  | _ => []

/-- The fields of a validated model: names from above first, each from the class itself, else from
the first base that has it, else from the nearest class that declares it. -/
def modelFields (spec : ClassSpec) (w : World) (above : List TypeExpr) : Table ModelField :=
  let ancestors := above.filterMap fun
    | .declared i => w.class? i
    | _ => none
  let own := Table.ofList
    ((spec.ownFields.filter isModelField).map fun f => (f.name, modelField w f))
  let passed := (spec.bases.map (passedOn w)).reverse.foldl Table.merge []
  let declared := ancestors.reverse.foldl (fun acc c =>
    Table.merge acc ((c.fields.filter isModelField).map fun f => (f.name, modelField w f))) []
  let classVars := (spec.ownFields.filter fun f => World.isClassVar f.type).map FieldDecl.name
  (Table.merge (Table.merge declared passed) own).filter fun (name, _) => !classVars.contains name

/-- The names that the class itself has a value for because of its fields. -/
def fieldAttributes (spec : ClassSpec) (isModel : Bool) : List String :=
  match spec.kind with
  | .namedTuple => spec.ownFields.map FieldDecl.name
  | .typedDict _ | .model => []
  | _ => if isModel then [] else (spec.ownFields.filter FieldDecl.hasDefault).map FieldDecl.name

/-- A base that makes a class generic: a generic name or a generic class with arguments. -/
def isGenericBase : TypeExpr → Bool
  | .generic _ => true
  | .applied (.builtin c) _ => !(Head.builtin c).isContainer
  | .applied (.container _) _ => false
  | .applied .. => true
  | _ => false

/-- The type variables of the class: the given ones, or, when a base makes it generic, those of its
bases. -/
def typeVarsOf (spec : ClassSpec) : List Nat :=
  if spec.typeVars.isEmpty && spec.bases.any isGenericBase then
    TypeExpr.parametersOf (spec.bases.filter fun t => !t.isClass)
  else spec.typeVars

def declare (spec : ClassSpec) (w : World) : ClassDecl :=
  let above := spec.above w
  let isModel := spec.kind == .model || above.any w.isModel
  let outer := spec.outer.bind fun id =>
    match w.names.get? id with
    | some (.declared i) => w.class? i
    | _ => none
  { name := spec.name
    qualname := (outer.map fun c => c.qualname ++ "." ++ spec.name).getD spec.name
    kind := spec.kind
    bases := spec.bases
    above
    typeVars := spec.typeVarsOf
    fields := spec.ownFields
    annotations := spec.annotations w
    dataFields := if spec.kind == .dataclass then some (spec.dataFields w above) else none
    modelFields := if isModel then spec.modelFields w above else []
    requiredKeys := spec.requiredKeys w
    enumValues := match spec.kind with
      | .enumeration base => base.listed spec.members
      | _ => []
    methods := Table.ofList (spec.methods.map fun m => (memberName spec.name m.name, m))
    attributes := spec.fieldAttributes isModel ++ spec.attributes
    service := spec.service
    path := spec.path }

end ClassSpec

namespace World

/-- Gives a class declared earlier a class inside of it. -/
def nestIn (outer name : String) (i : Nat) (w : World) : World :=
  match w.names.get? outer with
  | some (.declared j) =>
    { w with decls := w.decls.modify j fun
        | .cls c => .cls { c with nested := c.nested.insert name i }
        | d => d }
  | _ => w

def addClass (w : World) (spec : ClassSpec) : World :=
  let i := w.decls.length
  let w := { w with
    decls := w.decls ++ [.cls (spec.declare w)]
    names := w.names.insert spec.id (.declared i) }
  match spec.outer with
  | some outer => nestIn outer spec.name i w
  | none => w

/-- Declares a type variable. -/
def addTypeVar (w : World) (id name : String) : World :=
  { decls := w.decls ++ [.typeVar name]
    names := w.names.insert id (.typeVar w.decls.length) }

/-- Declares a distinct name. -/
def addNewType (w : World) (id name : String) : World :=
  { decls := w.decls ++ [.newType name]
    names := w.names.insert id (.newType w.decls.length) }

def addName (w : World) (id : String) (t : TypeExpr) : World :=
  { w with names := w.names.insert id t }

end World

end ApiCompiler
