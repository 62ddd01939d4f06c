import ApiCompiler.Types.Annotation

/-!
# Fields of types

The fields of an object type with their types, in order, and which of them are required. How they
are found depends on how the class is declared: validated models and dataclasses have a table of
their own, dictionaries know their keys, named tuples their items, and any other class has its
public annotations. A generic class passes the arguments it is applied to on to its fields.
-/

set_option autoImplicit false

namespace ApiCompiler.World

def addAnnotations (w : World) (names : Table TypeExpr) (acc : Table TypeExpr) :
    Table TypeExpr → Except AnnotationFault (Table TypeExpr)
  | [] => .ok acc
  | (name, t) :: rest => do
    let t ← w.resolveNames names t.asType
    addAnnotations w names (acc.insert name t) rest

/-- Resolves the annotations of classes one after the other. The names of the module come before
those of the classes inside of the class. -/
def collectAnnotations (w : World) (acc : Table TypeExpr) :
    List ClassDecl → Except AnnotationFault (Table TypeExpr)
  | [] => .ok acc
  | c :: cs => do
    let names := Table.merge (c.nested.mapValues .declared) w.names
    collectAnnotations w (← addAnnotations w names acc c.annotations) cs

/-- The annotations of a class and its ancestors, those furthest above first; or the first fault in
them. -/
def annotationsOf (w : World) (cls : TypeExpr) : Except AnnotationFault (Table TypeExpr) := do
  let t ← collectAnnotations w [] (w.declaredLineage cls).reverse
  return t.mapValues TypeExpr.plain

/-- A class variable is no field. -/
def isClassVar : TypeExpr → Bool
  | .classVar _ => true
  | _ => false

def isHidden (name : String) : Bool := name.toList.head? == some '_'

/-- The data fields of the nearest dataclass. -/
def dataFieldsOf (w : World) (cls : TypeExpr) : Option (List DataField) :=
  (w.declaredLineage cls).findSome? ClassDecl.dataFields

/-- The nearest class of a list that is declared as a named tuple. -/
def namedTupleOf (w : World) (cls : TypeExpr) : Option ClassDecl :=
  (w.declaredLineage cls).find? fun c => c.kind == .namedTuple

/-- The class is a dictionary with known keys. -/
def isTypedDict (w : World) (cls : TypeExpr) : Bool :=
  (w.declaredLineage cls).any fun c => match c.kind with
    | .typedDict _ => true
    | _ => false

def requiredKeysOf (w : World) (cls : TypeExpr) : List String :=
  ((w.declaredLineage cls).head?.map ClassDecl.requiredKeys).getD []

/-- A declared class as the type of a model field in which type variables are replaced: a generic
model class is filled in with what its own variables are replaced by. -/
def filledClass (w : World) (f : Nat → TypeExpr) (i : Nat) : TypeExpr :=
  let cls : TypeExpr := .declared i
  if w.isModel cls then (w.subscript cls ((w.parameters cls).map f)).getD cls else cls

def modelFieldsOf (w : World) (cls : TypeExpr) : List ModelField :=
  match cls with
  | .filled i args =>
    match w.class? i with
    | some c =>
      let f := fun j => (TypeExpr.binding c.typeVars args j).getD (.typeVar j)
      c.modelFields.values.map fun m => { m with type := m.type.fillVars f (w.filledClass f) }
    | none => []
  | cls => ((w.declaredLineage cls).head?.map fun c => c.modelFields.values).getD []

/-- The fields of a class that is no validated model, from its annotations. -/
def annotatedFields (w : World) (cls : TypeExpr) (hints : Table TypeExpr) : List ModelField :=
  match w.dataFieldsOf cls with
  | some fields => fields.filterMap fun f =>
      if f.isClassVar then none
      else some
        { name := f.name, type := (hints.get? f.name).getD .any, required := f.required
          description := f.description }
  | none =>
    if w.isTypedDict cls then
      hints.map fun (name, type) =>
        { name, type, required := (w.requiredKeysOf cls).contains name }
    else match w.namedTupleOf cls with
      | some c => c.fields.map fun f =>
          { name := f.name, type := (hints.get? f.name).getD .any, required := !f.hasDefault }
      | none => hints.filterMap fun (name, type) =>
          if isHidden name || isClassVar type then none
          else some { name, type, required := !w.hasAttribute cls name }

/-- A type with type variables replaced, where all of them are bound. -/
def substitute (w : World) (bound : Nat → Option TypeExpr) (t : TypeExpr) : TypeExpr :=
  match t with
  | .typeVar i => (bound i).getD t
  | t =>
    let vars := w.parameters t
    if vars.isEmpty || !(vars.all fun i => (bound i).isSome) then t
    else (w.subscript t (vars.filterMap bound)).getD t

/-- The class that a type gets its fields from. -/
def fieldClass? (t : TypeExpr) : Option TypeExpr :=
  match origin? t with
  | some cls => some cls
  | none => if t.isClass then some t else none

/-- The fields of a type, or the reason why it has none. -/
def fieldsOf (w : World) (t : TypeExpr) : Except String (List ModelField) :=
  match fieldClass? t with
  | none => .error ""
  | some cls => do
    let fields ←
      if w.isModel cls then .ok (w.modelFieldsOf cls)
      else
        match w.annotationsOf cls with
        | .ok hints => .ok (w.annotatedFields cls hints)
        | .error fault => .error fault.message
    if fields.isEmpty then throw "no fields"
    match arguments t with
    | [] => return fields
    | args =>
      let bound := TypeExpr.binding (w.parameters cls) args
      return fields.map fun f => { f with type := w.substitute bound f.type }

end ApiCompiler.World
