import ApiCompiler.Compilation.Run
import ApiCompiler.Types.Fields

/-!
# Resolving types

The schema of a type. Object types become named models in the registry and references to them; a
model that is being built is referred to without being built again. Types that no schema kind fits
are reported and become objects without known properties. The recursion is bounded, since the fields
of a generic type may mention ever larger applications of it.
-/

set_option autoImplicit false

namespace ApiCompiler

namespace Registry

def put (r : Registry) (name : String) (model : Schema) (source : TypeExpr) : Registry :=
  { r with models := r.models.insert name model, sources := r.sources.insert name source }

/-- The model was last built from the type. -/
def isCurrent (r : Registry) (name : String) (t : TypeExpr) : Bool :=
  r.models.has name && (r.sources.get? name).any (TypeExpr.same t)

/-- The models that are not yet in a table, each counted with its references. -/
def unseen (models out : Table Schema) : Nat :=
  models.foldr (fun e n => if out.has e.1 then n else n + e.2.references.length + 1) 0

theorem unseen_append_lt {models out : Table Schema} {name : String} {m : Schema}
    (hm : models.get? name = some m) (ho : out.has name = false) :
    unseen models (out ++ [(name, m)]) + m.references.length < unseen models out := by
  have has_append : ∀ (t : Table Schema) (k : String),
      Table.has (t ++ [(name, m)]) k = (Table.has t k || decide (name = k)) := by
    intro t k
    induction t with
    | nil =>
      by_cases h : name = k <;> simp [Table.has, Table.get?_cons, h]
    | cons e t ih =>
      obtain ⟨k', v⟩ := e
      by_cases h : k' = k
      · simp [Table.has, Table.get?_cons, h]
      · simpa [Table.has, Table.get?_cons, h] using ih
  have le : ∀ ms : Table Schema, unseen ms (out ++ [(name, m)]) ≤ unseen ms out := by
    intro ms
    induction ms with
    | nil => exact Nat.le_refl _
    | cons e ms ih =>
      unfold unseen at ih ⊢
      rw [List.foldr_cons, List.foldr_cons, has_append]
      cases out.has e.1 <;> cases decide (name = e.1) <;> simp <;> omega
  induction models with
  | nil => simp at hm
  | cons e ms ih =>
    obtain ⟨k, v⟩ := e
    have hle := le ms
    unfold unseen at ih hle ⊢
    rw [List.foldr_cons, List.foldr_cons, has_append]
    by_cases h : k = name
    · subst h
      obtain rfl : v = m := by simpa [Table.get?_cons] using hm
      simp [ho]
      omega
    · have := ih (by simpa [Table.get?_cons, h] using hm)
      cases out.has k <;> simp [Ne.symm h] <;> omega

/-- Follows references from pending names through the models; models that have been met are kept in
the order in which they were met first. -/
def reachable (models : Table Schema) : List String → Table Schema → Table Schema
  | [], out => out
  | name :: pending, out =>
    if _ho : out.has name then reachable models pending out
    else
      match _hm : models.get? name with
      | none => reachable models pending out
      | some m => reachable models (pending ++ m.references) (out ++ [(name, m)])
termination_by pending out => unseen models out + pending.length
decreasing_by
  · simp
  · simp
  · have := unseen_append_lt _hm (by simpa using _ho)
    rw [List.length_append, List.length_cons]
    omega

def modelsFor (r : Registry) (s : Schema) : Table Schema := reachable r.models s.references []

end Registry

namespace Run

/-- Resolves fields one after the other into properties and the names of the required ones. -/
def resolveFields (resolve : TypeExpr → Run Schema) :
    List ModelField → Table Schema → List String → Run (Table Schema × List String)
  | [], properties, required => pure (properties, required)
  | f :: fs, properties, required => do
    let s ← resolve f.type
    let s := if f.description = "" then s else { s with description := f.description }
    resolveFields resolve fs (properties.insert f.name s)
      (if f.required then required ++ [f.name] else required)

/-- The model of an object with the given properties; what is known under its name is kept where it
is not replaced. -/
def objectModel (name : String) (known : Option Schema) (properties : Table Schema)
    (required : List String) : Schema :=
  match known with
  | none => { kind := .object, properties, required, reference := some name }
  | some old =>
    { kind := .object, properties := Table.merge old.properties properties
      required := distinctNames (old.required ++ required), reference := some name }

/-- Builds the model of a type from its fields and registers it. -/
def buildModel (resolve : TypeExpr → Run Schema) (t : TypeExpr) (name : String)
    (fields : List ModelField) : Run Unit := do
  let known := (← get).registry.models.get? name
  onRegistry fun r => { r with resolving := name :: r.resolving }
  let model ← guarded
    (fun p => { p with registry.resolving := p.registry.resolving.erase name })
    (do
      let (properties, required) ← resolveFields resolve fields [] []
      let model := objectModel name known properties required
      onRegistry fun r => r.put name model t
      return model)
  report (.modelResolved name model.properties.length)

/-- Reports a type that no schema kind fits. -/
def untyped (w : World) (t : TypeExpr) (reason : String) : Run Schema := do
  report (.untyped (w.shown t) reason)
  return .opaqueObject

/-- The reference to the model of a type; the model is built unless it is being built or has last
been built from the same type. -/
def resolveModel (w : World) (resolve : TypeExpr → Run Schema) (t : TypeExpr) : Run Schema := do
  let name ← ofExcept (w.modelName t)
  let r := (← get).registry
  if name ∈ r.resolving ∨ r.isCurrent name t then return .refTo name
  match w.fieldsOf t with
  | .error reason => untyped w t reason
  | .ok fields =>
    buildModel resolve t name fields
    return .refTo name

/-- The schema of a type by its shape, given the schemas of other types. -/
def resolveShape (w : World) (resolve : TypeExpr → Run Schema) (t : TypeExpr) : Run Schema := do
  match w.shape (← get).registry.overrides t with
  | .fixed s => return s
  | .alike u => resolve u
  | .array none => return .arrayOf .opaqueObject
  | .array (some item) => return .arrayOf (← resolve item)
  | .map none => return .mapOf .opaqueObject
  | .map (some value) => return .mapOf (← resolve value)
  | .model => resolveModel w resolve t.bare
  | .unmappable reason => untyped w t.bare reason

/-- The schema of a type, found in a bounded number of steps inside one another. -/
def resolveWithin (w : World) : Nat → TypeExpr → Run Schema
  | 0, _ => throw .endless
  | bound + 1, t => resolveShape w (resolveWithin w bound) t

def nestingBound : Nat := 1000

def resolve (w : World) (t : TypeExpr) : Run Schema := resolveWithin w nestingBound t

/-- The model of a type, when it is an object type. -/
def resolveNamed (w : World) (t : TypeExpr) : Run (Table Schema) := do
  let s ← resolve w t
  let models := (← get).registry.models
  match s.kind, s.ref with
  | .ref, some name => return ((models.get? name).map fun m => (name, m)).toList
  | _, _ => return []

/-- The models that can be reached from a type. -/
def resolveReachable (w : World) (t : TypeExpr) : Run (Table Schema) := do
  let s ← resolve w t
  return (← get).registry.modelsFor s

/-- Puts the models that a schema refers to into the document. -/
def addModelsOf (s : Schema) : Run Unit := do
  let models := (← get).registry.modelsFor s
  onDocument fun d => d.addModels models

end Run

end ApiCompiler
