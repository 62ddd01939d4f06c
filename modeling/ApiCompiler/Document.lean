import ApiCompiler.Notice
import ApiCompiler.Operation

/-!
# The compiled document

The path table, the registry of named models, and the lists of tags and security schemes. Insertions
are idempotent and nothing is ever taken away. A model added under a name in use changes nothing
when it is the one that is there. Another one is united with what is there when both are objects,
the later one deciding about shared properties; otherwise it takes the place of the earlier one.
-/

set_option autoImplicit false

namespace ApiCompiler

/-- The compiled document. -/
structure Document where
  paths : Table (Table Operation) := []
  definitions : Table Schema := []
  tags : List String := []
  securitySchemes : List String := []

namespace Document

instance : Inhabited Document := ⟨{}⟩

/-- Stores an operation under a path and a verb; the verb is kept in lower case. -/
def addOperation (d : Document) (path verb : String) (op : Operation) :
    Document × List Notice :=
  let verb := Text.lower verb
  let verbs := (d.paths.get? path).getD []
  let notices := match verbs.get? verb with
    | none => []
    | some old => [.operationReplaced (Text.upper verb) path op.operationId old.operationId]
  ({ d with paths := d.paths.insert path (verbs.insert verb op) }, notices)

/-- The operation stored under a path and a verb. -/
def operation? (d : Document) (path verb : String) : Option Operation :=
  (d.paths.get? path).bind fun verbs => verbs.get? (Text.lower verb)

/-- All stored operations with their path and verb, in order of insertion. -/
def operations (d : Document) : List (String × String × Operation) :=
  d.paths.flatMap fun (path, verbs) => verbs.map fun (verb, op) => (path, verb, op)

/-- The union of two object schemas: the later one with the properties and required names of both,
where shared properties keep their place and take the later shape. -/
def unite (existing model : Schema) : Schema :=
  { model with
    properties := Table.merge existing.properties model.properties
    required := distinctNames (existing.required ++ model.required) }

/-- What a definition becomes when a model is added under its name, and what there is to report. -/
def combine (name : String) (existing : Option Schema) (model : Schema) :
    Schema × List Notice :=
  match existing with
  | none => (model, [])
  | some old =>
    if old.identical model || old.same model then (old, [])
    else if old.kind = .object ∧ model.kind = .object then
      let united := unite old model
      (united, [.modelMerged name united.properties.length])
    else (model, [.modelReplaced name old.kind model.kind])

def addModel (d : Document) (name : String) (model : Schema) : Document × List Notice :=
  let (schema, notices) := combine name (d.definitions.get? name) model
  ({ d with definitions := d.definitions.insert name schema }, notices)

def addModels (d : Document) (models : Table Schema) : Document × List Notice :=
  models.foldl (fun (d, notices) (name, model) =>
    let (d, more) := d.addModel name model
    (d, notices ++ more)) (d, [])

/-- The model names that an operation refers to. -/
def operationReferences (op : Operation) : List String :=
  op.parameters.flatMap (fun p => p.shape.references) ++
    op.responses.flatMap fun (_, r) =>
      Schema.optionReferences r.shape ++ Schema.tableReferences r.headers

/-- The model names that the document refers to. -/
def references (d : Document) : List String :=
  Schema.tableReferences d.definitions ++
    d.operations.flatMap fun (_, _, op) => operationReferences op

/-- The referenced names without a definition, sorted, each once. -/
def unresolvedReferences (d : Document) : List String :=
  (distinctNames (d.references.filter fun n => !d.definitions.has n)).mergeSort
    fun a b => decide (a ≤ b)

def addTag (d : Document) (tag : String) : Document := { d with tags := addName d.tags tag }

def addSecurityScheme (d : Document) (name : String) : Document :=
  { d with securitySchemes := addName d.securitySchemes name }

end Document

end ApiCompiler
