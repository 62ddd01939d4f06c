import ApiCompiler.Compilation.Parameters

/-!
# Building operations

The operation of a method: its payload as the success response, its declared responses and headers,
and its parameters. An operation without any response gets an empty default one; a hidden one is not
built.
-/

set_option autoImplicit false

namespace ApiCompiler

/-- The description of a response that is not declared. -/
def successText : String := "successful operation"

/-- The success payload of a method: the declared response type, else, for methods that send typed
JSON, the return type without an async wrapper; a token counts as its element. -/
def World.payloadType (w : World) (m : Method) : Option TypeExpr :=
  let declared := m.operation.response
  let t := if !World.isNoContent declared then declared
    else if m.decl.jsonRequest then World.unwrapAsync m.returnType
    else .null
  if World.isNoContent t then none else some ((w.tokenElement t).getD t)

namespace Run

/-- The schema of a type in a container, with its models added to the document. -/
def shapeIn (w : World) (t : TypeExpr) (container : String) : Run Schema := do
  let s ← resolve w t
  addModelsOf s
  return s.inContainer container

/-- Response headers by name; those without a name or a type are left out. -/
def responseHeaders (w : World) : List HeaderInfo → Table Schema → Run (Table Schema)
  | [], out => pure out
  | h :: hs, out => do
    if h.name = "" ∨ World.isNoContent h.type then responseHeaders w hs out
    else
      let s ← shapeIn w h.type h.container
      responseHeaders w hs (out.insert h.name { s with description := h.description })

def declaredResponses (w : World) : List ResponseInfo → Operation → Run Operation
  | [], op => pure op
  | r :: rs, op => do
    let headers ← responseHeaders w r.headers []
    let shape ← if World.isNoContent r.type then pure none
      else some <$> shapeIn w r.type r.container
    declaredResponses w rs (op.setResponse r.code { description := r.message, shape, headers })

/-- Adds the success response for the payload of a method, if it has one. -/
def successResponse (w : World) (m : Method) (headers : Table Schema) (op : Operation) :
    Run Operation := do
  match w.payloadType m with
  | none => return op
  | some t =>
    let shape ← shapeIn w t m.operation.responseContainer
    return op.setResponse 200 { description := successText, shape := some shape, headers }

/-- The operation of a method, unless it is hidden. -/
def build (w : World) (m : Method) : Run (Option Operation) := do
  let info := m.operation
  if info.hidden then return none
  let op : Operation := {
    operationId := if info.nickname = "" then m.name else info.nickname
    summary := info.summary
    description := info.notes
    deprecated := m.decl.deprecated }
  let op := info.authorizations.foldl Operation.addSecurity op
  let headers ← responseHeaders w info.responseHeaders []
  let op ← successResponse w m headers op
  let op := { op with consumes := m.decl.consumes, produces := m.decl.produces }
  let op ← declaredResponses w m.decl.responses op
  let parameters ← classify w m
  let op := { op with parameters }
  return some (if op.responses.isEmpty then op.setResponse 0 { description := successText } else op)

end Run

end ApiCompiler
