import ApiCompiler.Document
import ApiCompiler.Failure
import ApiCompiler.Resolution.Shape

/-!
# Runs

The state that a compilation works on, and the steps on it. A step that fails keeps what has been
done so far; `guarded` undoes one change whether a step fails or not.
-/

set_option autoImplicit false

namespace ApiCompiler

/-- The models that have been resolved: their schemas, the types that they were last built from, and
the names of those that are being built. -/
structure Registry where
  overrides : Overrides := []
  models : Table Schema := []
  sources : Table TypeExpr := []
  resolving : List String := []

/-- The state of a compilation: the registry, the document, the services on the way from the root to
the current one, and what has been reported, last first. -/
structure Progress where
  registry : Registry := {}
  document : Document := {}
  trail : List TypeExpr := []
  notices : List Notice := []

abbrev Run (α : Type) := EStateM Failure Progress α

namespace Run

variable {α : Type}

def report (n : Notice) : Run Unit := modify fun p => { p with notices := n :: p.notices }

/-- Reports several things. -/
def reportAll : List Notice → Run Unit
  | [] => pure ()
  | n :: ns => do report n; reportAll ns

/-- A result that comes with things to report. -/
def reported (r : α × List Notice) : Run α := do
  reportAll r.2
  return r.1

/-- A step that depends on nothing but its input. -/
def ofExcept : Except Failure α → Run α
  | .ok a => pure a
  | .error e => throw e

def onRegistry (f : Registry → Registry) : Run Unit :=
  modify fun p => { p with registry := f p.registry }

def onDocument (f : Document → Document × List Notice) : Run Unit := do
  let (d, notices) := f (← get).document
  modify fun p => { p with document := d }
  reportAll notices

/-- Runs a step and undoes a change after it, also when the step fails. -/
def guarded (undo : Progress → Progress) (step : Run α) : Run α := fun p =>
  match step p with
  | .ok a p => .ok a (undo p)
  | .error e p => .error e (undo p)

end Run

end ApiCompiler
