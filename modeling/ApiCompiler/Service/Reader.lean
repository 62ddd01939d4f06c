import ApiCompiler.Types.Reader

/-!
# Reading service metadata

Services, methods and arguments from the records of a declaration file. Most marks are not there
when they are given as false or as the null value.
-/

set_option autoImplicit false

namespace ApiCompiler.World

def textField (v : Value) (name : String) : String := ((v.field name).text?).getD ""

/-- A text field with the text that counts when there is none. -/
def textFieldOr (v : Value) (name default : String) : String := ((v.field name).text?).getD default

/-- A field is set to something. -/
def isSet (v : Value) (name : String) : Bool :=
  match v.field name with
  | .null | .bool false => false
  | _ => true

def readAll {α : Type} (read : Value → Except Failure α) : List Value → Except Failure (List α)
  | [] => .ok []
  | v :: vs => do return (← read v) :: (← readAll read vs)

def readServiceInfo (v : Value) : ServiceInfo :=
  { value := textField v "value"
    tags := (v.field "tags").textItems
    hidden := (v.field "hidden").isTrue
    authorizations := (v.field "authorizations").textItems }

/-- Reads the metadata of an argument. -/
def readParamInfo (v : Value) : ParamInfo :=
  { name := textField v "name"
    description := textField v "value"
    required := (v.field "required").isTrue
    default := v.field "default"
    access := textField v "access"
    allowedValues := textField v "allowable_values" }

def readImplicitParam (v : Value) : ImplicitParam :=
  { name := textField v "name"
    location := textFieldOr v "param_type" "query"
    typeName := textFieldOr v "data_type" "string"
    description := textField v "value"
    required := (v.field "required").isTrue
    default := v.field "default"
    access := textField v "access"
    allowedValues := textField v "allowable_values" }

def readHeaderInfo (w : World) (v : Value) : Except Failure HeaderInfo := do
  let type ← w.readType (v.field "response")
  return { name := textField v "name", description := textField v "description", type
           container := textField v "container" }

def readResponseInfo (w : World) (v : Value) : Except Failure ResponseInfo := do
  let type ← w.readType (v.field "response")
  let headers ← readAll w.readHeaderInfo (v.field "headers").items
  let code := match v.field "code" with
    | .int n => n
    | _ => 0
  return { code, message := textField v "message", type, container := textField v "container"
           headers }

def readOperationInfo (w : World) (v : Value) : Except Failure OperationInfo := do
  let response ← w.readType (v.field "response")
  let request ← w.readType (v.field "request")
  let responseHeaders ← readAll w.readHeaderInfo (v.field "response_headers").items
  return {
    summary := textField v "value"
    notes := textField v "notes"
    nickname := textField v "nickname"
    tags := (v.field "tags").textItems
    response
    responseContainer := textField v "response_container"
    request
    verb := textField v "http_method"
    hidden := (v.field "hidden").isTrue
    authorizations := (v.field "authorizations").textItems
    responseHeaders
    protocols := textField v "protocols" }

def readOptionalType (w : World) (v : Value) (name : String) :
    Except Failure (Option TypeExpr) :=
  if v.hasField name then some <$> w.readType (v.field name) else .ok none

def readArgument (w : World) (v : Value) : Except Failure ArgumentDecl := do
  let annotation ← w.readOptionalType v "type"
  let params := (["param", "param2"].filter (isSet v)).map fun name => readParamInfo (v.field name)
  return {
    name := textField v "name"
    annotation, params
    body := (v.field "body").isTrue
    kind := match textField v "kind" with
      | "var" => .rest
      | "kwvar" => .restByName
      | _ => .plain }

/-- The marks that put route metadata on a method when they are set. -/
def settableMarks : List String := ["operation", "verb", "json_request", "deprecated", "creator"]

/-- The marks that put route metadata on a method when they are given at all. -/
def givenMarks : List String := ["custom_verb", "consumes", "produces", "implicit", "responses"]

def readMethod (w : World) (v : Value) : Except Failure MethodDecl := do
  let operation ← if isSet v "operation" then some <$> w.readOperationInfo (v.field "operation")
    else .ok none
  let responses ← readAll w.readResponseInfo (v.field "responses").items
  let arguments ← readAll w.readArgument (v.field "args").items
  let returns ← w.readOptionalType v "returns"
  return {
    name := textField v "name"
    marked := !(v.field "path").isNull || settableMarks.any (isSet v) ||
      givenMarks.any fun name => v.hasField name
    path := if (v.field "path").isNull then none else some (v.field "path")
    operation
    verb := (v.field "verb").text?
    customVerb := (v.field "custom_verb").text?
    jsonRequest := (v.field "json_request").isTrue
    consumes := (v.field "consumes").textItems
    produces := (v.field "produces").textItems
    implicitParams := (v.field "implicit").items.map readImplicitParam
    responses
    deprecated := (v.field "deprecated").isTrue || !(v.field "dunder_deprecated").isNull
    creator := (v.field "creator").isTrue
    leads := textField v "style" != "staticmethod"
    arguments, returns }

end ApiCompiler.World
