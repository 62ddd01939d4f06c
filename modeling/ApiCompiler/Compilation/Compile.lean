import ApiCompiler.Compilation.Import
import ApiCompiler.Compilation.Scan
import ApiCompiler.Primitive
import ApiCompiler.Swagger

/-!
# Compiling

Targets are scanned one after the other into one fresh document, which is then rendered.
-/

set_option autoImplicit false

namespace ApiCompiler

/-- What is compiled: the path of a service, or a type itself. -/
inductive Target where
  | path (path : String)
  | type (t : TypeExpr)

/-- The result of a compilation. -/
structure Compiled where
  document : Document
  rendered : Value
  services : List String
  unresolved : List String

namespace Compiled

def operationCount (c : Compiled) : Nat := c.document.operations.length

def modelCount (c : Compiled) : Nat := c.document.definitions.length

end Compiled

namespace Overrides

/-- Types with primitive names by the paths of the types; a later path of the same type wins. -/
def named (w : World) : Table String → List (TypeExpr × String) →
    Except Failure (List (TypeExpr × String))
  | [], acc => .ok acc
  | (path, name) :: rest, acc => do
    let t ← w.importPath path
    named w rest (put t name acc)
where
  put (t : TypeExpr) (name : String) : List (TypeExpr × String) → List (TypeExpr × String)
    | [] => [(t, name)]
    | (u, old) :: rest => if u.same t then (u, name) :: rest else (u, old) :: put t name rest

def ofNames : List (TypeExpr × String) → Overrides → Except Failure Overrides
  | [], acc => .ok acc
  | (t, name) :: rest, acc => do
    let s ← Primitive.check (some name)
    ofNames rest (acc.insert t s)

def ofTable (w : World) (table : Table String) : Except Failure Overrides := do
  ofNames (← named w table []) []

end Overrides

namespace Run

def targetType (w : World) : Target → Except Failure TypeExpr
  | .path path => w.importPath path
  | .type t => .ok t

/-- Scans targets and collects the names of their services. -/
def scanTargets (w : World) (includeHidden : Bool) : List Target → Run (List String)
  | [] => pure []
  | target :: rest => do
    let t ← ofExcept (targetType w target)
    report (.scanning (w.shown t))
    read w t includeHidden
    let name ← ofExcept (w.qualifiedName t)
    return name :: (← scanTargets w includeHidden rest)

/-- Compiles targets into the document, which is taken to be empty. -/
def compileTargets (w : World) (targets : List Target) (settings : Settings) : Run Compiled := do
  let overrides ← ofExcept (Overrides.ofTable w settings.typeOverrides)
  onRegistry fun r => { r with overrides }
  let services ← scanTargets w settings.includeHidden targets
  let document := (← get).document
  let unresolved := document.unresolvedReferences
  if !unresolved.isEmpty then report (.unresolvedReferences unresolved)
  return { document, rendered := Swagger.render document settings, services, unresolved }

end Run

/-- Compiles targets into a fresh document; also returns what there is to report, in order. -/
def World.compile (w : World) (targets : List Target) (settings : Settings) :
    Except Failure Compiled × List Notice :=
  match Run.compileTargets w targets settings {} with
  | .ok c p => (.ok c, p.notices.reverse)
  | .error e p => (.error e, p.notices.reverse)

end ApiCompiler
