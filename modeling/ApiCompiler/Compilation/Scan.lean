import ApiCompiler.Compilation.Build
import ApiCompiler.Route.Parameters
import ApiCompiler.Route.Verb

/-!
# Scanning services

A service is walked depth first: each exposed method becomes an operation under its path and verb,
and a method that leads to another service has that one scanned below its own path before it is
stored itself. A service that is met again on the way down to it is a cycle; since every service on
the way is a different declaration, their number bounds the depth.
-/

set_option autoImplicit false

namespace ApiCompiler

/-- What a scan passes down: the path so far, whether hidden services are taken, and the tags and
parameters that operations below take over. -/
structure Descent where
  path : String := ""
  includeHidden : Bool := false
  tags : List String := []
  parameters : List Parameter := []

namespace Descent

/-- What a service passes on to its own methods: its tags come after those from above. -/
def within (d : Descent) (s : Service) : Descent :=
  { d with tags := distinctNames (d.tags ++ s.info.tagNames) }

/-- What an operation passes on to the service that it leads to. -/
def below (d : Descent) (template : Path.Template) (op : Operation) : Descent :=
  { path := template.text, includeHidden := true, tags := d.tags, parameters := op.parameters }

end Descent

namespace Method

def verb (m : Method) : String :=
  Route.verb (m.decl.operation.map OperationInfo.verb) m.decl.verb m.decl.customVerb

end Method

/-- How a service is called in a cycle. -/
def World.cycleName (w : World) (t : TypeExpr) : String :=
  match w.qualifiedName t with
  | .ok name => name
  | .error _ => w.text t

namespace Run

/-- The media type of operations that declare none. -/
def defaultMediaType : String := "application/json"

/-- The transfer schemes of a list with commas. -/
def schemesOf (protocols : String) : List String := (Text.split ',' protocols).map Text.trim

def withTags (op : Operation) (tags : List String) : Operation := tags.foldl Operation.addTag op

/-- Puts an operation below a path: its own parameters reach their place before those from above are
taken over. -/
def placed (op : Operation) (template : Path.Template) (info : OperationInfo) (d : Descent) :
    Operation :=
  let op := Route.reconcile op template.text template.patterns
  let op := Route.inherit op d.parameters
  (schemesOf info.protocols).foldl Operation.addScheme op

/-- Completes an operation with what its service and its metadata say about it. -/
def completed (op : Operation) (info : OperationInfo) (tags authorizations : List String) :
    Operation :=
  let op := withTags (withTags op info.tags) tags
  let op := { op with
    consumes := if op.consumes.isEmpty then [defaultMediaType] else op.consumes
    produces := if op.produces.isEmpty then [defaultMediaType] else op.produces }
  authorizations.foldl Operation.addSecurity op

/-- Stores an operation in the document, together with its tags and security schemes. -/
def store (path verb : String) (tags : List String) (op : Operation) : Run Unit := do
  onDocument fun d => (tags.foldl Document.addTag d, [])
  onDocument fun d => (op.security.foldl Document.addSecurityScheme d, [])
  onDocument fun d => d.addOperation path verb op

def load (w : World) (t : TypeExpr) : Run Service := do
  let s ← ofExcept (w.loadService t)
  report (.serviceLoaded s.name s.methods.length)
  return s

/-- Scans the service that a method leads to, if it leads to one. -/
def scanTarget (w : World) (scanBelow : Service → Descent → Run Unit) (m : Method) (d : Descent) :
    Run Unit :=
  match m.subResource with
  | none => pure ()
  | some t => do
    let sub ← load w t
    scanBelow sub d

/-- Scans a method with a path and metadata; a hidden one is left out. -/
def scanRoute (w : World) (scanBelow : Service → Descent → Run Unit) (s : Service) (d : Descent)
    (m : Method) (template : Path.Template) (info : OperationInfo) : Run Unit := do
  match ← build w m with
  | none => pure ()
  | some op =>
    let op := placed op template info d
    scanTarget w scanBelow m (d.below template op)
    let op := completed op info d.tags s.info.authorizationNames
    store template.text m.verb (info.tags ++ d.tags) op

def scanMethod (w : World) (scanBelow : Service → Descent → Run Unit) (s : Service)
    (d : Descent) (m : Method) : Run Unit := do
  let path ← ofExcept m.decl.pathText
  match Path.join s.path path d.path, m.decl.operation with
  | some raw, some info => scanRoute w scanBelow s d m (Path.normalize raw) info
  | _, _ => report (.notExposed s.name m.name)

def scanMethods (scanOne : Method → Run Unit) : List Method → Run Unit
  | [] => pure ()
  | m :: ms => do scanOne m; scanMethods scanOne ms

/-- The services from the first occurrence of a service on. -/
def trailFrom (t : TypeExpr) (trail : List TypeExpr) : List TypeExpr :=
  trail.dropWhile fun u => !u.same t

def scanService (w : World) (scanBelow : Service → Descent → Run Unit) (s : Service)
    (d : Descent) : Run Unit := do
  if s.info.hidden && !d.includeHidden then report (.hiddenSkipped s.name)
  else
    let trail := (← get).trail
    if trail.any (TypeExpr.same s.type) then
      throw (.cyclic ((trailFrom s.type trail).map w.cycleName ++ [s.name]))
    else
      modify fun p => { p with trail := p.trail ++ [s.type] }
      guarded (fun p => { p with trail := p.trail.dropLast })
        (scanMethods (scanMethod w scanBelow s (d.within s)) s.methods)

/-- Scans a service with services of a bounded depth below it. -/
def scanWithin (w : World) : Nat → Service → Descent → Run Unit
  | 0, _, _ => throw .endless
  | bound + 1, s, d => scanService w (scanWithin w bound) s d

def scan (w : World) (s : Service) (d : Descent) : Run Unit :=
  scanWithin w (w.decls.length + 1) s d

/-- Loads and scans a service. -/
def read (w : World) (t : TypeExpr) (includeHidden : Bool) : Run Unit := do
  let s ← load w t
  scan w s { includeHidden }

end Run

end ApiCompiler
