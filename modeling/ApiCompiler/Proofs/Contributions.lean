import ApiCompiler.Compilation.Build
import ApiCompiler.Proofs.Bodies
import ApiCompiler.Proofs.ResolvingAgain

/-!
# What methods contribute to the definitions

The definitions that building some methods can come to, without a run: the models of the object
types that their types lead to, and the models of their bodies. Each is contributed by an object
type, by a request type, or by a method. Where no two contributors share a name, a name says what
its definition is. The name of a request type has to be left to it even when its arguments are sent
as form parameters, since a method that asks for it refuses a name that stands for something else.
-/

set_option autoImplicit false

namespace ApiCompiler

namespace World

/-- The types that response headers are resolved from. -/
def headerTypes (headers : List HeaderInfo) : List TypeExpr :=
  (headers.filter fun h => !(h.name == "" || isNoContent h.type)).map HeaderInfo.type

/-- The types that a declared response is resolved from. -/
def responseTypes (r : ResponseInfo) : List TypeExpr :=
  headerTypes r.headers ++ if isNoContent r.type then [] else [r.type]

theorem headerTypes_cons_subset (h : HeaderInfo) (hs : List HeaderInfo) :
    headerTypes hs ⊆ headerTypes (h :: hs) :=
  List.map_subset _ ((List.sublist_cons_self h hs).filter _).subset

/-- The type of a header that is not left out. -/
theorem type_mem_headerTypes {h : HeaderInfo} (named : ¬ (h.name = "" ∨ isNoContent h.type))
    (hs : List HeaderInfo) : h.type ∈ headerTypes (h :: hs) := by
  rw [not_or] at named
  refine List.mem_map_of_mem (List.mem_filter.2 ⟨List.mem_cons_self, ?_⟩)
  simp [named.1, named.2]

theorem type_mem_responseTypes {r : ResponseInfo} (h : ¬ isNoContent r.type) :
    r.type ∈ responseTypes r := by
  refine List.mem_append_right _ ?_
  rw [if_neg h]
  exact List.mem_singleton_self _

end World

namespace Method

/-- The arguments that make up the request, with the name and the reference of their model. -/
def request (m : Method) : List Argument × String × String :=
  match m.requestBody with
  | none => (m.arguments, m.bodyName, m.identifier)
  | some body => (body.arguments, body.name, body.reference)

/-- The types that the request is resolved from: all arguments are when the first one has
metadata. -/
def requestTypes (m : Method) : List TypeExpr :=
  match m.requestElement, m.request.1 with
  | some e, _ => [e]
  | none, first :: rest =>
    if first.param.isSome then (first :: rest).map Argument.annotation else []
  | none, [] => []

end Method

/-- The types that building a method resolves. -/
def World.typesOf (w : World) (m : Method) : List TypeExpr :=
  headerTypes m.operation.responseHeaders ++ (w.payloadType m).toList ++
    m.decl.responses.flatMap responseTypes ++ m.requestTypes

namespace Run

/-- Folds arguments with metadata into properties and the names of the required ones, and adds
nothing to the document. -/
def folded : List (Argument × Schema) → Table Schema → List String → Table Schema × List String
  | [], properties, required => (properties, required)
  | (a, shape) :: rest, properties, required =>
    match a.param with
    | none => folded rest properties required
    | some info =>
      let name := if info.name = "" then a.name else info.name
      let shape := if info.description = "" then shape
        else { shape with description := info.description }
      folded rest (properties.insert name shape)
        (if info.required then required ++ [name] else required)

/-- Folds implicit parameters and reports nothing. -/
def foldedImplicit : List ImplicitParam → Table Schema → List String → Table Schema × List String
  | [], properties, required => (properties, required)
  | p :: ps, properties, required =>
    let s := { (Primitive.schema p.typeName).1 with
      access := p.access, default := p.default, description := p.description }
    foldedImplicit ps (properties.insert p.name s)
      (if p.required then required ++ [p.name] else required)

end Run

/-- An object model with the given properties and required names. -/
def Schema.ofFolded (out : Table Schema × List String) (reference : String) : Schema :=
  { kind := .object, properties := out.1, required := out.2, reference := some reference }

/-- What a definition comes from. -/
inductive Contributor where
  | model (t : TypeExpr)
  | request (body : RequestBody)
  | method (m : Method)

/-- The contributor of a body that arguments are folded into: the request type, or else the method
itself. -/
def Method.requester (m : Method) : Contributor :=
  match m.requestBody with
  | none => .method m
  | some body => .request body

section Definitions

variable (w : World) (o : Overrides)

/-- The body that a method sends: the contributor, the name and the model. -/
inductive Method.HasBody (m : Method) : Contributor → String → Schema → Prop
  | token {e items s : _} (he : m.requestElement = some e) (hs : w.Denotes o e s)
      (hk : s.kind = .array) (hi : s.items = some items) :
      HasBody m (.method m) m.identifier (.arrayOf items)
  | folded {first : Argument} {rest : List Argument} {schemas : List Schema}
      (he : m.requestElement = none) (ha : m.request.1 = first :: rest)
      (hp : first.param.isSome = true)
      (hs : List.Forall₂ (fun a s => w.Denotes o a.annotation s) m.request.1 schemas)
      (hn : (m.request.1.zip schemas).all (fun e => e.2.isSimple) = false) :
      HasBody m m.requester m.request.2.1
        (.ofFolded (Run.folded (m.request.1.zip schemas) [] []) m.request.2.2)
  | implicit {first : Argument} {rest : List Argument} (he : m.requestElement = none)
      (ha : m.request.1 = first :: rest) (hp : first.param.isSome = false)
      (ho : (m.decl.implicitParams.any fun p => p.typeName == "object") = true) :
      HasBody m (.method m) m.place
        (.ofFolded (Run.foldedImplicit m.decl.implicitParams [] []) m.place)

variable (S : Method → Prop)

/-- The types that resolution comes to from the types of some methods. -/
def World.MetBy (t : TypeExpr) : Prop := ∃ m, S m ∧ w.Met o (w.typesOf m) t

/-- What some methods contribute names for. -/
inductive World.Contributes : Contributor → String → Prop
  | model {t : TypeExpr} {fields : List ModelField} {name : String}
      (h : w.Names o (w.MetBy o S) name t fields) : Contributes (.model t.bare) name
  | body {m : Method} {c : Contributor} {name : String} {s : Schema} (hm : S m)
      (hb : m.HasBody w o c name s) : Contributes c name

/-- No two contributors share a name, and the name of a request type is contributed by nothing
else. -/
structure World.Apart : Prop where
  names : ∀ ⦃c c' : Contributor⦄ ⦃name : String⦄, w.Contributes o S c name →
    w.Contributes o S c' name → c = c'
  requests : ∀ ⦃m : Method⦄ ⦃body : RequestBody⦄ ⦃c : Contributor⦄, S m →
    m.requestBody = some body → w.Contributes o S c body.name → c = .request body

/-- The body of one of some methods. -/
def World.Sends (name : String) (s : Schema) : Prop :=
  ∃ m c, S m ∧ m.HasBody w o c name s

/-- What a name means: the model of the registry or a body. -/
def Registry.Means (r : Registry) (name : String) (s : Schema) : Prop :=
  r.models.get? name = some s ∨ w.Sends o S name s

end Definitions

variable {w : World} {o : Overrides} {S : Method → Prop} {t u : TypeExpr} {name : String}
  {m m' : Method} {s s' : Schema} {fields : List ModelField} {c : Contributor}

namespace World

theorem metBy_of_mem (hm : S m) (ht : t ∈ w.typesOf m) : w.MetBy o S t := ⟨m, hm, .of_mem ht⟩

theorem MetBy.descends (h : w.MetBy o S t) (hd : w.Descends o t u) : w.MetBy o S u := by
  obtain ⟨m, hm, ht⟩ := h
  exact ⟨m, hm, ht.trans (.single hd)⟩

end World

namespace Method

theorem request_of_requestBody {body : RequestBody} (h : m.requestBody = some body) :
    m.request = (body.arguments, body.name, body.reference) := by
  rw [request, h]

theorem requestBody_of_requester {body : RequestBody} (h : m.requester = .request body) :
    m.requestBody = some body := by
  unfold requester at h
  cases hb : m.requestBody with
  | none => rw [hb] at h; cases h
  | some body' => rw [hb] at h; rw [Contributor.request.inj h]

theorem eq_of_requester (h : m.requester = .method m') : m = m' := by
  unfold requester at h
  cases hb : m.requestBody with
  | none => rw [hb] at h; exact Contributor.method.inj h
  | some body => rw [hb] at h; cases h

namespace HasBody

/-- Bodies are not contributed as models. -/
theorem not_model (h : m.HasBody w o (.model t) name s) : False := by
  generalize hc : Contributor.model t = c at h
  cases h with
  | token | implicit => cases hc
  | folded =>
    unfold requester at hc
    cases hb : m.requestBody <;> rw [hb] at hc <;> cases hc

theorem of_method (h : m.HasBody w o (.method m') name s) : m = m' := by
  generalize hc : Contributor.method m' = c at h
  cases h with
  | token | implicit => exact (Contributor.method.inj hc).symm
  | folded => exact eq_of_requester hc.symm

/-- The body of a request type is folded from the arguments of its creator. -/
theorem of_request {body : RequestBody} (h : m.HasBody w o (.request body) name s) :
    name = body.name ∧ ∃ schemas,
      List.Forall₂ (fun a s => w.Denotes o a.annotation s) body.arguments schemas ∧
      s = .ofFolded (Run.folded (body.arguments.zip schemas) [] []) body.reference := by
  generalize hc : Contributor.request body = c at h
  cases h with
  | token | implicit => cases hc
  | @folded _ _ schemas _ _ _ hs _ =>
    rw [request_of_requestBody (requestBody_of_requester hc.symm)] at hs ⊢
    exact ⟨rfl, schemas, hs, rfl⟩

theorem denotes_unique {arguments : List Argument} {schemas schemas' : List Schema}
    (h : List.Forall₂ (fun a s => w.Denotes o a.annotation s) arguments schemas)
    (h' : List.Forall₂ (fun a s => w.Denotes o a.annotation s) arguments schemas') :
    schemas = schemas' :=
  List.right_unique_forall₂' (R := fun (a : Argument) s => w.Denotes o a.annotation s)
    (fun _ _ _ h h' => h.unique h') h h'

/-- A method has one body at most. -/
theorem sole {c' : Contributor} {name' : String} (h : m.HasBody w o c name s)
    (h' : m.HasBody w o c' name' s') : s = s' := by
  cases h with
  | token he hs _ hi =>
    cases h' with
    | token he' hs' _ hi' =>
      obtain rfl := Option.some.inj (he.symm.trans he')
      obtain rfl := hs.unique hs'
      rw [Option.some.inj (hi.symm.trans hi')]
    | folded he' | implicit he' => cases he.symm.trans he'
  | folded he ha hp hs _ =>
    cases h' with
    | token he' => cases he.symm.trans he'
    | folded _ _ _ hs' _ =>
      rw [denotes_unique hs hs']
    | implicit _ ha' hp' _ =>
      obtain ⟨rfl, _⟩ := List.cons.inj (ha.symm.trans ha')
      cases hp.symm.trans hp'
  | implicit he ha hp _ =>
    cases h' with
    | token he' => cases he.symm.trans he'
    | folded _ ha' hp' _ _ =>
      obtain ⟨rfl, _⟩ := List.cons.inj (ha.symm.trans ha')
      cases hp.symm.trans hp'
    | implicit => rfl

/-- A contributor has one body at most. -/
theorem unique (h : m.HasBody w o c name s) (h' : m'.HasBody w o c name s') : s = s' := by
  cases c with
  | model t => exact h.not_model.elim
  | method m₀ =>
    obtain rfl := h.of_method
    obtain rfl := h'.of_method
    exact h.sole h'
  | request body =>
    obtain ⟨_, schemas, hs, rfl⟩ := h.of_request
    obtain ⟨_, schemas', hs', rfl⟩ := h'.of_request
    rw [denotes_unique hs hs']

end HasBody

end Method

section Apart

variable (apart : w.Apart o S)
include apart

theorem World.Apart.objectsApart : w.ObjectsApart o (w.MetBy o S) :=
  fun _ _ _ _ _ ht hu => Contributor.model.inj (apart.names (.model ht) (.model hu))

/-- A body has no name of an object type. -/
theorem World.Sends.not_names (h : w.Sends o S name s)
    (ht : w.Names o (w.MetBy o S) name t fields) : False := by
  obtain ⟨m, c, hm, hb⟩ := h
  obtain rfl := apart.names (.body hm hb) (.model ht)
  exact hb.not_model

theorem World.Sends.unique (h : w.Sends o S name s) (h' : w.Sends o S name s') : s = s' := by
  obtain ⟨m, c, hm, hb⟩ := h
  obtain ⟨m', c', hm', hb'⟩ := h'
  obtain rfl := apart.names (.body hm hb) (.body hm' hb')
  exact hb.unique hb'

/-- The definition under the name of a request type refers to that type. -/
theorem World.Sends.reference {body : RequestBody} (h : w.Sends o S body.name s) (hm : S m)
    (hb : m.requestBody = some body) : s.reference = some body.reference := by
  obtain ⟨m', c, hm', hb'⟩ := h
  obtain rfl := apart.requests hm hb (.body hm' hb')
  obtain ⟨_, _, _, rfl⟩ := hb'.of_request
  rfl

/-- A name means one schema. -/
theorem Registry.Means.unique {r : Registry} (hr : r.Owned w o (w.MetBy o S))
    (h : r.Means w o S name s) (h' : r.Means w o S name s') : s = s' := by
  have model {s} (h : r.models.get? name = some s) : ¬ ∃ s', w.Sends o S name s' := by
    rintro ⟨s', hs'⟩
    obtain ⟨t, fields, ht, _⟩ := hr.owner h
    exact hs'.not_names apart ht
  rcases h with h | h
  · rcases h' with h' | h'
    · exact Option.some.inj (h.symm.trans h')
    · exact absurd ⟨_, h'⟩ (model h)
  · rcases h' with h' | h'
    · exact absurd ⟨_, h⟩ (model h')
    · exact h.unique apart h'

end Apart

end ApiCompiler
