import ApiCompiler.Operation
import ApiCompiler.Route.Path

/-!
# Parameters of a route

The placeholders of a path template become required path parameters that carry their pattern, and an
operation below another one takes over the parameters of the one above. A parameter is identified by
its name and location.
-/

set_option autoImplicit false

namespace ApiCompiler.Route

/-- Gives a parameter named by a placeholder its place in the path, and any parameter the pattern of
its name. -/
def placeParameter (names : List String) (patterns : Table String) (p : Parameter) : Parameter :=
  let p := if p.location ≠ .body ∧ p.name ∈ names then
      { p with location := .path, required := true }
    else p
  match patterns.get? p.name with
  | some pattern => { p with pattern := some pattern }
  | none => p

/-- The parameter of a placeholder that no declared parameter stands for. -/
def placeholderParameter (patterns : Table String) (name : String) : Parameter :=
  { name, location := .path, required := true, pattern := patterns.get? name }

/-- Adds the parameter of a placeholder unless there is a path parameter of its name. -/
def addPlaceholder (patterns : Table String) (op : Operation) (name : String) : Operation :=
  if op.hasParameter name (some .path) then op
  else { op with parameters := op.parameters ++ [placeholderParameter patterns name] }

/-- Brings the parameters of an operation in line with a template and its patterns. -/
def reconcile (op : Operation) (template : String) (patterns : Table String) : Operation :=
  let names := Path.placeholders template
  let op := { op with parameters := op.parameters.map (placeParameter names patterns) }
  names.foldl (addPlaceholder patterns) op

/-- Two parameters of one name and location. -/
def sameParameter (p q : Parameter) : Bool := p.name == q.name && p.location == q.location

/-- Takes pattern and description from another parameter where there is none. -/
def complete (own p : Parameter) : Parameter :=
  { own with
    pattern := own.pattern <|> p.pattern
    description := if own.description = "" then p.description else own.description }

/-- Changes the first parameter with the name and location of `p`, or appends `p`. -/
def inheritInto (p : Parameter) : List Parameter → List Parameter
  | [] => [p]
  | q :: qs => if sameParameter q p then complete q p :: qs else q :: inheritInto p qs

/-- Takes over parameters from the operation above. -/
def inherit (op : Operation) (parameters : List Parameter) : Operation :=
  { op with parameters := parameters.foldl (fun own p => inheritInto p own) op.parameters }

end ApiCompiler.Route
