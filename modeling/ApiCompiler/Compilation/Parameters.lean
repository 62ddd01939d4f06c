import ApiCompiler.AllowedValues
import ApiCompiler.Primitive
import ApiCompiler.Resolution.Resolve
import ApiCompiler.Service.Load

/-!
# Parameters of a method

A method sends its request in one of four forms: as form parameters when all its arguments are
simple, folded into one body of an object model when some are not, as an array body when its request
is a token, or by the table of implicit parameters when its argument is a raw request.
-/

set_option autoImplicit false

namespace ApiCompiler.Run

def bodyParameter (model : String) : Parameter :=
  { name := model, location := .body, required := true, shape := .refTo model }

/-- A form parameter for an argument with metadata. -/
def formParameter (a : Argument) (info : ParamInfo) (shape : Schema) : Run Parameter := do
  let enum ← reported (AllowedValues.read info.allowedValues)
  return {
    name := if info.name = "" then a.name else info.name
    location := .formData
    required := info.required
    description := info.description
    default := info.default
    access := info.access
    enum, shape }

/-- Form parameters for those arguments that have metadata. -/
def formParameters : List (Argument × Schema) → Run (List Parameter)
  | [] => pure []
  | (a, shape) :: rest =>
    match a.param with
    | none => formParameters rest
    | some info => do return (← formParameter a info shape) :: (← formParameters rest)

/-- Folds arguments with metadata into properties and the names of the required ones, and adds the
models that they refer to. -/
def foldArguments : List (Argument × Schema) → Table Schema → List String →
    Run (Table Schema × List String)
  | [], properties, required => pure (properties, required)
  | (a, shape) :: rest, properties, required =>
    match a.param with
    | none => foldArguments rest properties required
    | some info => do
      let name := if info.name = "" then a.name else info.name
      let shape := if info.description = "" then shape
        else { shape with description := info.description }
      addModelsOf shape
      foldArguments rest (properties.insert name shape)
        (if info.required then required ++ [name] else required)

/-- One body for all arguments: an object model of the given name. -/
def objectBody (arguments : List (Argument × Schema)) (name reference : String) :
    Run Parameter := do
  let (properties, required) ← foldArguments arguments [] []
  onDocument fun d =>
    d.addModel name { kind := .object, properties, required, reference := some reference }
  return bodyParameter name

/-- The body of a token request, which has to be an array. -/
def tokenBody (w : World) (m : Method) (element : TypeExpr) : Run Parameter := do
  let s ← resolve w element
  match s.kind, s.items with
  | .array, some items =>
    addModelsOf s
    onDocument fun d => d.addModel m.identifier (.arrayOf items)
    return bodyParameter m.identifier
  | kind, _ => throw (.tokenWithoutArray m.place kind)

def implicitLocations : Table Location := [
  ("path", .path), ("query", .query), ("form", .formData), ("formdata", .formData),
  ("header", .header)]

/-- An implicit parameter as a parameter, if its location is supported. -/
def implicitParameter (p : ImplicitParam) : Run (Option Parameter) := do
  let kind := Text.lower (Text.trim p.location)
  if kind = "body" then
    report (.implicitBody p.name)
    return none
  match implicitLocations.get? kind with
  | none =>
    report (.unknownLocation p.location)
    return none
  | some location =>
    let enum ← reported (AllowedValues.read p.allowedValues)
    let shape ← reported (Primitive.schema p.typeName)
    return some {
      name := p.name, location, required := p.required, description := p.description
      default := p.default, access := p.access, enum, shape }

def implicitList : List ImplicitParam → Run (List Parameter)
  | [] => pure []
  | p :: ps => do
    let q ← implicitParameter p
    let qs ← implicitList ps
    return q.toList ++ qs

/-- Folds implicit parameters into properties and the names of the required ones. -/
def foldImplicit : List ImplicitParam → Table Schema → List String →
    Run (Table Schema × List String)
  | [], properties, required => pure (properties, required)
  | p :: ps, properties, required => do
    let s ← reported (Primitive.schema p.typeName)
    let s := { s with access := p.access, default := p.default, description := p.description }
    foldImplicit ps (properties.insert p.name s)
      (if p.required then required ++ [p.name] else required)

/-- The implicit parameters of a method; an object among them makes all of them one body. -/
def implicitParameters (m : Method) : Run (List Parameter) := do
  let implicit := m.decl.implicitParams
  if implicit.any fun p => p.typeName == "object" then
    let (properties, required) ← foldImplicit implicit [] []
    onDocument fun d =>
      d.addModel m.place { kind := .object, properties, required, reference := some m.place }
    return [bodyParameter m.place]
  else implicitList implicit

/-- The arguments that make up the request, with the name and the reference of their model. The name
of a request type must not stand for another type yet. -/
def candidates (m : Method) : Run (List Argument × String × String) := do
  match m.requestBody with
  | none => return (m.arguments, m.declaringName ++ "_" ++ m.name, m.identifier)
  | some body =>
    match ((← get).document.definitions.get? body.name).bind Schema.reference with
    | some existing =>
      if existing ≠ body.reference then
        throw (.modelNameTaken body.name existing body.reference)
    | none => pure ()
    return (body.arguments, body.name, body.reference)

/-- Resolves the annotations of arguments. -/
def resolveArguments (w : World) : List Argument → Run (List (Argument × Schema))
  | [] => pure []
  | a :: rest => do
    let s ← resolve w a.annotation
    return (a, s) :: (← resolveArguments w rest)

def classify (w : World) (m : Method) : Run (List Parameter) := do
  match m.requestElement with
  | some e => return [← tokenBody w m e]
  | none =>
    let (arguments, name, reference) ← candidates m
    match arguments with
    | [] => return []
    | first :: _ =>
      if first.param.isSome then
        let shaped ← resolveArguments w arguments
        if shaped.all fun (_, s) => s.isSimple then formParameters shaped
        else return [← objectBody shaped name reference]
      else if first.requestHandle then implicitParameters m
      else throw (.argumentWithoutParam m.place first.name)

end ApiCompiler.Run
