import ApiCompiler.Compilation.Scan
import ApiCompiler.Proofs.Definitions
import ApiCompiler.Proofs.Steps

/-!
# From a built to a stored operation

Between building and storing, an operation is put below its path and completed. Its responses stay
as they are, and its parameters are those that placing leaves: completing adds names to lists only.
No parameter gets a shape that was not there, the plain texts of placeholders excepted. Storing
writes one slot of the path table and cannot fail.
-/

set_option autoImplicit false

namespace ApiCompiler

namespace Document

theorem mem_operationReferences {op : Operation} {n : String} :
    n ∈ operationReferences op ↔ (∃ p ∈ op.parameters, n ∈ p.shape.references) ∨
      ∃ e ∈ op.responses, n ∈ Schema.optionReferences e.2.shape ∨
        n ∈ Schema.tableReferences e.2.headers := by
  simp [operationReferences]

theorem operationReferences_congr {op op' : Operation} (hp : op'.parameters = op.parameters)
    (hr : op'.responses = op.responses) : operationReferences op' = operationReferences op := by
  rw [operationReferences, hp, hr, operationReferences]

theorem mem_operationReferences_setResponse {op : Operation} {code : Int} {r : Response}
    {n : String} (h : n ∈ operationReferences (op.setResponse code r)) :
    n ∈ operationReferences op ∨ n ∈ Schema.optionReferences r.shape ∨
      n ∈ Schema.tableReferences r.headers := by
  rcases mem_operationReferences.1 h with h | ⟨e, he, hn⟩
  · exact .inl (mem_operationReferences.2 (.inl h))
  · rcases Table.mem_insert he with rfl | he
    · exact .inr hn
    · exact .inl (mem_operationReferences.2 (.inr ⟨e, he, hn⟩))

theorem mem_operations {d : Document} {o : String × String × Operation} :
    o ∈ d.operations ↔ ∃ verbs, (o.1, verbs) ∈ d.paths ∧ (o.2.1, o.2.2) ∈ verbs := by
  obtain ⟨path, verb, op⟩ := o
  simp only [operations, List.mem_flatMap, List.mem_map]
  constructor
  · rintro ⟨⟨path', verbs⟩, hp, ⟨verb', op'⟩, hv, he⟩
    obtain ⟨rfl, rfl, rfl⟩ := he
    exact ⟨verbs, hp, hv⟩
  · rintro ⟨verbs, hp, hv⟩
    exact ⟨(path, verbs), hp, (verb, op), hv, rfl⟩

theorem mem_operations_addOperation {d : Document} {path verb : String} {op : Operation}
    {o : String × String × Operation} (h : o ∈ (d.addOperation path verb op).1.operations) :
    o = (path, Text.lower verb, op) ∨ o ∈ d.operations := by
  obtain ⟨verbs, hp, hv⟩ := mem_operations.1 h
  rcases Table.mem_insert hp with he | hp
  · obtain ⟨hpath, rfl⟩ := Prod.mk.inj he
    rcases Table.mem_insert hv with he | hv
    · obtain ⟨hverb, hop⟩ := Prod.mk.inj he
      exact .inl (Prod.ext hpath (Prod.ext hverb hop))
    · cases hd : d.paths.get? path with
      | none => simp [hd] at hv
      | some verbs =>
        simp only [hd, Option.getD_some] at hv
        exact .inr (mem_operations.2 ⟨verbs, hpath ▸ Table.mem_of_get? hd, hv⟩)
  · exact .inr (mem_operations.2 ⟨verbs, hp, hv⟩)

end Document

namespace Operation

variable (names : List String) (op : Operation)

theorem foldl_addTag :
    names.foldl addTag op = { op with tags := names.foldl addName op.tags } := by
  induction names generalizing op with
  | nil => rfl
  | cons n names ih => exact ih (op.addTag n)

theorem foldl_addSecurity :
    names.foldl addSecurity op = { op with security := names.foldl addName op.security } := by
  induction names generalizing op with
  | nil => rfl
  | cons n names ih => exact ih (op.addSecurity n)

theorem foldl_addScheme :
    names.foldl addScheme op = { op with schemes := names.foldl addName op.schemes } := by
  induction names generalizing op with
  | nil => rfl
  | cons n names ih => exact ih (op.addScheme n)

end Operation

/-- What no single step of a fold changes, the fold leaves as it is. -/
theorem foldl_component {α β γ : Type} (g : α → γ) (f : α → β → α)
    (h : ∀ a b, g (f a b) = g a) (bs : List β) (a : α) : g (bs.foldl f a) = g a := by
  induction bs generalizing a with
  | nil => rfl
  | cons b bs ih => rw [List.foldl_cons, ih, h]

namespace Route

theorem reconcile_eq (op : Operation) (template : String) (patterns : Table String) :
    ∃ parameters, reconcile op template patterns = { op with parameters } := by
  have fold (names : List String) (op : Operation) :
      ∃ parameters, names.foldl (addPlaceholder patterns) op = { op with parameters } := by
    induction names generalizing op with
    | nil => exact ⟨op.parameters, rfl⟩
    | cons n names ih =>
      rw [List.foldl_cons, addPlaceholder]
      split
      · exact ih op
      · exact ih _
  exact fold _ _

theorem placeParameter_shape (names : List String) (patterns : Table String) (x : Parameter) :
    (placeParameter names patterns x).shape = x.shape := by
  unfold placeParameter
  extract_lets x'
  have hx : x'.shape = x.shape := by
    by_cases h : x.location ≠ .body ∧ x.name ∈ names <;> simp [x', h]
  split
  · exact hx
  · exact hx

/-- Reconciling leaves own parameters, put in their place, and parameters of placeholders. -/
theorem mem_reconcile_cases {op : Operation} {template : String} {patterns : Table String}
    {x : Parameter} (h : x ∈ (reconcile op template patterns).parameters) :
    (∃ y ∈ op.parameters, x = placeParameter (Path.placeholders template) patterns y) ∨
      ∃ name, x = placeholderParameter patterns name := by
  have added : ∀ (names : List String) (op : Operation),
      x ∈ (names.foldl (addPlaceholder patterns) op).parameters →
        x ∈ op.parameters ∨ ∃ name, x = placeholderParameter patterns name := by
    intro names
    induction names with
    | nil => exact fun _ h => .inl h
    | cons name names ih =>
      intro op h
      refine (ih _ h).elim (fun h => ?_) .inr
      unfold addPlaceholder at h
      split at h
      · exact .inl h
      · exact (List.mem_append.1 h).imp_right fun h => ⟨name, List.mem_singleton.1 h⟩
  refine (added _ _ h).imp_left fun h => ?_
  obtain ⟨y, hy, rfl⟩ := List.mem_map.1 h
  exact ⟨y, hy, rfl⟩

theorem shape_of_mem_reconcile {op : Operation} {template : String} {patterns : Table String}
    {x : Parameter} (h : x ∈ (reconcile op template patterns).parameters) :
    (∃ y ∈ op.parameters, x.shape = y.shape) ∨ x.shape = { kind := .string } := by
  rcases mem_reconcile_cases h with ⟨y, hy, rfl⟩ | ⟨name, rfl⟩
  · exact .inl ⟨y, hy, placeParameter_shape _ _ y⟩
  · exact .inr rfl

theorem shape_of_mem_inheritInto {x z : Parameter} {own : List Parameter}
    (h : x ∈ inheritInto z own) : x = z ∨ ∃ y ∈ own, x.shape = y.shape := by
  induction own with
  | nil => exact .inl (List.mem_singleton.1 h)
  | cons o own ih =>
    unfold inheritInto at h
    split at h
    · rcases List.mem_cons.1 h with rfl | h
      · exact .inr ⟨o, List.mem_cons_self, rfl⟩
      · exact .inr ⟨x, List.mem_cons_of_mem _ h, rfl⟩
    · rcases List.mem_cons.1 h with rfl | h
      · exact .inr ⟨x, List.mem_cons_self, rfl⟩
      · exact (ih h).imp_right fun ⟨y, hy, hs⟩ => ⟨y, List.mem_cons_of_mem _ hy, hs⟩

theorem shape_of_mem_inherit {op : Operation} {parameters : List Parameter} {x : Parameter}
    (h : x ∈ (inherit op parameters).parameters) :
    (∃ y ∈ op.parameters, x.shape = y.shape) ∨ ∃ y ∈ parameters, x.shape = y.shape := by
  have fold : ∀ (parameters own : List Parameter),
      x ∈ parameters.foldl (fun own z => inheritInto z own) own →
      (∃ y ∈ own, x.shape = y.shape) ∨ ∃ y ∈ parameters, x.shape = y.shape := by
    intro parameters
    induction parameters with
    | nil => exact fun own h => .inl ⟨x, h, rfl⟩
    | cons z parameters ih =>
      intro own h
      rcases ih _ h with ⟨y, hy, hs⟩ | ⟨y, hy, hs⟩
      · rcases shape_of_mem_inheritInto hy with rfl | ⟨o, ho, hs'⟩
        · exact .inr ⟨y, List.mem_cons_self, hs⟩
        · exact .inl ⟨o, ho, hs.trans hs'⟩
      · exact .inr ⟨y, List.mem_cons_of_mem _ hy, hs⟩
  exact fold _ _ h

end Route

namespace Run

/-- Placing changes the parameters and adds transfer schemes. -/
theorem placed_eq (op : Operation) (template : Path.Template) (info : OperationInfo)
    (d : Descent) :
    placed op template info d = { op with
      parameters := (Route.inherit
        (Route.reconcile op template.text template.patterns) d.parameters).parameters
      schemes := (schemesOf info.protocols).foldl addName op.schemes } := by
  obtain ⟨parameters, h⟩ := Route.reconcile_eq op template.text template.patterns
  rw [placed, Operation.foldl_addScheme, h]
  rfl

theorem placed_parameters (op : Operation) (template : Path.Template) (info : OperationInfo)
    (d : Descent) :
    (placed op template info d).parameters = (Route.inherit
      (Route.reconcile op template.text template.patterns) d.parameters).parameters := by
  rw [placed_eq]

theorem placed_responses (op : Operation) (template : Path.Template) (info : OperationInfo)
    (d : Descent) : (placed op template info d).responses = op.responses := by
  rw [placed_eq]

/-- Completing adds names and the media types that are missing. -/
theorem completed_eq (op : Operation) (info : OperationInfo) (tags names : List String) :
    completed op info tags names = { op with
      tags := tags.foldl addName (info.tags.foldl addName op.tags)
      consumes := if op.consumes.isEmpty then [defaultMediaType] else op.consumes
      produces := if op.produces.isEmpty then [defaultMediaType] else op.produces
      security := names.foldl addName op.security } := by
  rw [completed, withTags, withTags, Operation.foldl_addTag, Operation.foldl_addTag,
    Operation.foldl_addSecurity]

theorem completed_parameters (op : Operation) (info : OperationInfo) (tags names : List String) :
    (completed op info tags names).parameters = op.parameters := by
  rw [completed_eq]

theorem completed_responses (op : Operation) (info : OperationInfo) (tags names : List String) :
    (completed op info tags names).responses = op.responses := by
  rw [completed_eq]

/-- Storing an operation cannot fail. It adds to the lists of names, writes its slot, and reports
when the slot was taken. -/
theorem store_apply (path verb : String) (tags : List String) (op : Operation) (p : Progress) :
    store path verb tags op p = .ok () { p with
      document := { p.document with
        paths := (p.document.addOperation path verb op).1.paths
        tags := tags.foldl addName p.document.tags
        securitySchemes := op.security.foldl addName p.document.securitySchemes }
      notices := (p.document.addOperation path verb op).2.reverse ++ p.notices } := by
  have tagged (d : Document) :
      tags.foldl Document.addTag d = { d with tags := tags.foldl addName d.tags } := by
    induction tags generalizing d with
    | nil => rfl
    | cons n names ih => exact ih (d.addTag n)
  have secured (names : List String) (d : Document) :
      names.foldl Document.addSecurityScheme d =
        { d with securitySchemes := names.foldl addName d.securitySchemes } := by
    induction names generalizing d with
    | nil => rfl
    | cons n names ih => exact ih (d.addSecurityScheme n)
  unfold store
  rw [bind_of_ok (onDocument_apply _ p), bind_of_ok (onDocument_apply _ _), onDocument_apply]
  simp only [tagged, secured]
  rfl

theorem store_ok (path verb : String) (tags : List String) (op : Operation) (p : Progress) :
    ∃ q, store path verb tags op p = .ok () q ∧ q.registry = p.registry ∧ q.trail = p.trail ∧
      q.document.definitions = p.document.definitions ∧
      q.document.paths = (p.document.addOperation path verb op).1.paths :=
  ⟨_, store_apply path verb tags op p, rfl, rfl, rfl, rfl⟩

theorem store_names {path verb : String} {tags : List String} {op : Operation} {p q : Progress}
    (h : store path verb tags op p = .ok () q) :
    q.document.tags = tags.foldl addName p.document.tags ∧
      q.document.securitySchemes = op.security.foldl addName p.document.securitySchemes := by
  rw [store_apply] at h
  obtain ⟨_, rfl⟩ := EStateM.Result.ok.inj h
  exact ⟨rfl, rfl⟩

end Run

end ApiCompiler
