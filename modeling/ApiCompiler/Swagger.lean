import ApiCompiler.Document
import ApiCompiler.Settings

/-!
# Swagger 2.0 rendering

The document as a data value. Paths, verbs and definitions are sorted, so that the order in which
services are compiled does not show. A field that is empty or absent is left out; a parameter that
is not sent in the body carries the fields of its shape itself.
-/

set_option autoImplicit false

namespace ApiCompiler.Swagger

/-- What stands in front of a model name in a reference. -/
def definitionsPath : String := "#/definitions/"

/-- An entry that is left out when the text is empty. -/
def textEntry (key s : String) : Table Value := if s = "" then [] else [(key, .text s)]

/-- An entry that is left out when the list is empty. -/
def textsEntry (key : String) (ss : List String) : Table Value :=
  if ss = [] then [] else [(key, Value.texts ss)]

/-- An entry that is left out when the value is null. -/
def valueEntry (key : String) (v : Value) : Table Value := if v.isNull then [] else [(key, v)]

/-- The entries that every kind of schema may have. -/
def annotationEntries (enum : List Value) (description : String) (default : Value)
    (access : String) : Table Value :=
  (if enum.isEmpty then [] else [("enum", Value.list enum)]) ++
    textEntry "description" description ++ valueEntry "default" default ++
    textEntry "x-access" access

mutual

/-- The rendered form of a schema. -/
def schemaEntries : Schema → Table Value
  | ⟨kind, format, items, values, ref, properties, required, enum, description, default, access,
      _⟩ =>
    (match kind with
      | .ref => [("$ref", .text (definitionsPath ++ ref.getD ""))]
      | .array => [("type", .text "array"), ("items", optionValue items)]
      | .map => [("type", .text "object"), ("additionalProperties", optionValue values)]
      | .object =>
        ("type", .text "object") ::
          ((match properties with
            | [] => []
            | _ :: _ => [("properties", Value.record (tableEntries properties))]) ++
          textsEntry "required" required)
      | primitive => ("type", .text primitive.name) :: textEntry "format" (format.getD "")) ++
    annotationEntries enum description default access

/-- The rendered form of a nested schema; an absent one is an empty map. -/
def optionValue : Option Schema → Value
  | none => .map []
  | some s => Value.record (schemaEntries s)

def tableEntries : List (String × Schema) → Table Value
  | [] => []
  | (name, s) :: rest => (name, Value.record (schemaEntries s)) :: tableEntries rest

end

/-- The rendered form of a schema. -/
def schema (s : Schema) : Value := Value.record (schemaEntries s)

/-- The schema fields that a parameter outside of the body carries itself. -/
def inlineKeys : List String := ["type", "format", "items", "enum"]

/-- The rendered form of a parameter. -/
def parameterEntries (p : Parameter) : Table Value :=
  let head := [("name", .text p.name), ("in", .text p.location.name),
    ("required", .bool p.required)] ++ textEntry "description" p.description
  if p.location = .body then head ++ [("schema", schema p.shape)]
  else
    let shape := schemaEntries p.shape
    let out := head ++ inlineKeys.filterMap fun key => (shape.get? key).map fun v => (key, v)
    let out := match p.shape.kind with
      | .ref | .object | .map => Table.insert out "type" (.text "string")
      | _ => out
    let out := if p.enum = [] then out else Table.insert out "enum" (Value.texts p.enum)
    out ++ valueEntry "default" p.default ++ textEntry "pattern" (p.pattern.getD "") ++
      textEntry "x-access" p.access

/-- The rendered form of a response. -/
def responseEntries (r : Response) : Table Value :=
  [("description", .text r.description)] ++
    (match r.shape with
      | none => []
      | some s => [("schema", schema s)]) ++
    (if r.headers.isEmpty then [] else [("headers", Value.record (tableEntries r.headers))])

/-- The rendered form of an operation. -/
def operationEntries (op : Operation) : Table Value :=
  [("operationId", .text op.operationId)] ++ textsEntry "tags" op.tags ++
    textEntry "summary" op.summary ++ textEntry "description" op.description ++
    [("consumes", Value.texts op.consumes), ("produces", Value.texts op.produces),
      ("parameters", .list (op.parameters.map fun p => Value.record (parameterEntries p))),
      ("responses", Value.record (op.responses.mapValues fun r => .record (responseEntries r)))] ++
    textsEntry "schemes" op.schemes ++
    (if op.security = [] then []
      else [("security", .list (op.security.map fun name => Value.record [(name, .list [])]))]) ++
    (if op.deprecated then [("deprecated", .bool true)] else [])

/-- The rendered form of an operation. -/
def operation (op : Operation) : Value := Value.record (operationEntries op)

/-- The rendered path table, sorted by path and by verb. -/
def paths (d : Document) : Value :=
  Value.record (d.paths.sorted.mapValues fun verbs =>
    Value.record (verbs.sorted.mapValues operation))

/-- The rendered definitions, sorted by name. -/
def definitions (d : Document) : Value :=
  Value.record (d.definitions.sorted.mapValues schema)

/-- The definitions of the security schemes in use, in order of their first use. -/
def securityDefinitions (d : Document) (settings : Settings) : Table Value :=
  d.securitySchemes.filterMap fun name =>
    (settings.securityDefinitions.get? name).map fun es => (name, .map es)

def render (d : Document) (settings : Settings) : Value :=
  let security := securityDefinitions d settings
  Value.record <|
    [("swagger", .text "2.0"),
      ("info", Value.record ([("title", .text settings.title), ("version", .text settings.version)]
        ++ textEntry "description" settings.description))] ++
    textEntry "host" (settings.host.getD "") ++
    [("basePath", .text settings.basePath)] ++
    textsEntry "schemes" settings.schemes ++ textsEntry "consumes" settings.consumes ++
    textsEntry "produces" settings.produces ++
    (if d.tags = [] then []
      else [("tags", .list (d.tags.map fun t => Value.record [("name", .text t)]))]) ++
    [("paths", paths d), ("definitions", definitions d)] ++
    (if security.isEmpty then [] else [("securityDefinitions", Value.record security)])

end ApiCompiler.Swagger
