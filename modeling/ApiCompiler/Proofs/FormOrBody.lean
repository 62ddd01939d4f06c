import Mathlib.Data.List.Perm.Subperm
import ApiCompiler.Declarations
import ApiCompiler.Proofs.Folding
import ApiCompiler.Proofs.Overriding
import ApiCompiler.Proofs.Slots

/-!
# Form or body

Arguments are sent as form parameters when all of them are single values or arrays of single values,
and as one body as soon as one of them is not. In a form every argument with metadata has a
parameter of its own, and the document stays as it is. In a body it has a property of the model that
the body refers to. Arguments without metadata, such as raw requests, have no name to be sent under.
-/

set_option autoImplicit false

namespace ApiCompiler

/-- A text, a number, an integer or a truth value. -/
def SchemaKind.IsSingle (k : SchemaKind) : Prop :=
  k = .string ∨ k = .number ∨ k = .integer ∨ k = .boolean

theorem SchemaKind.isSimple_iff {k : SchemaKind} : k.isSimple = true ↔ k.IsSingle := by
  cases k <;> simp [isSimple, IsSingle]

namespace Schema

/-- A single value, or an array of single values. -/
def FitsForm (s : Schema) : Prop :=
  s.kind.IsSingle ∨ s.kind = .array ∧ ∃ item, s.items = some item ∧ item.kind.IsSingle

theorem isSimple_iff {s : Schema} : s.isSimple = true ↔ s.FitsForm := by
  unfold isSimple FitsForm
  rw [Bool.or_eq_true, Bool.and_eq_true, SchemaKind.isSimple_iff, beq_iff_eq]
  cases s.items with
  | none => simp
  | some item => simp [SchemaKind.isSimple_iff]

theorem sameTable_subset {t u : Table Schema} (h : sameTable t u = true) : t.keys ⊆ u.keys := by
  induction t with
  | nil => exact List.nil_subset _
  | cons e t ih =>
    obtain ⟨k, s⟩ := e
    unfold sameTable at h
    obtain ⟨first, rest⟩ := Bool.and_eq_true_iff.1 h
    refine List.cons_subset.2 ⟨Table.has_iff_mem_keys.1 ?_, ih rest⟩
    cases hu : Table.get? u k with
    | none => rw [hu] at first; cases first
    | some v => exact Option.isSome_iff_exists.2 ⟨v, hu⟩

theorem identicalTable_keys {t u : Table Schema} (h : identicalTable t u = true) :
    t.keys = u.keys := by
  induction t generalizing u with
  | nil =>
    cases u with
    | nil => rfl
    | cons => cases h
  | cons e t ih =>
    cases u with
    | nil => cases h
    | cons f u =>
      unfold identicalTable at h
      simp only [Bool.and_eq_true, beq_iff_eq] at h
      exact congrArg₂ List.cons h.1.1 (ih h.2)

theorem keys_of_identical {s t : Schema} (h : s.identical t = true) :
    Table.keys s.properties = Table.keys t.properties := by
  cases s
  simp only [identical, Bool.and_eq_true] at h
  exact identicalTable_keys h.1.1.1.1.1.1.2

/-- Of two schemas that are the same, the first has all properties of the second: there are as many,
they are different, and each of them is one of the second. -/
theorem has_of_same {s t : Schema} (h : s.same t = true) (hs : Table.Distinct s.properties)
    {k : String} (hk : Table.has t.properties k) : Table.has s.properties k := by
  obtain ⟨count, subset⟩ : s.properties.length = t.properties.length ∧
      sameTable s.properties t.properties = true := by
    cases s
    simp only [same, Bool.and_eq_true, beq_iff_eq] at h
    exact h.1.1.1.1.1.1.2
  have keys : (Table.keys t.properties).length ≤ (Table.keys s.properties).length := by
    rw [Table.keys, Table.keys, List.length_map, List.length_map, count]
  have perm := (List.subperm_of_subset hs (sameTable_subset subset)).perm_of_length_le keys
  rw [Table.has_iff_mem_keys] at hk ⊢
  exact perm.mem_iff.2 hk

end Schema

namespace Document

/-- No definition has two properties of one name, as no table has that is only written to. -/
def Distinct (d : Document) : Prop := ∀ e ∈ d.definitions, Table.Distinct e.2.properties

theorem Distinct.addModels {d : Document} (h : d.Distinct) {models : Table Schema}
    (hm : ∀ e ∈ models, Table.Distinct e.2.properties) : (d.addModels models).1.Distinct :=
  forall_addModels (P := fun s => Table.Distinct s.properties)
    (fun _ t hs _ => Table.Distinct.merge hs t.properties) h hm

/-- A model that is added has its properties, whatever it is combined with. -/
theorem has_combine {name : String} {existing : Option Schema} {model : Schema}
    (h : ∀ old, existing = some old → Table.Distinct old.properties) {k : String}
    (hk : Table.has model.properties k) :
    Table.has (combine name existing model).1.properties k := by
  cases existing with
  | none => exact hk
  | some old =>
    unfold combine
    simp only
    split
    · rename_i alike
      rcases Bool.or_eq_true_iff.1 alike with alike | alike
      · rw [Table.has_iff_mem_keys, Schema.keys_of_identical alike]
        exact Table.has_iff_mem_keys.1 hk
      · exact Schema.has_of_same alike (h old rfl) hk
    · split
      · exact Table.has_merge.2 (.inr hk)
      · exact hk

end Document

namespace Method

/-- A model of the arguments of the request: it has a property for each name of an argument, and
requires those that have to be given. -/
structure ModelledBy (m : Method) (d : Schema) : Prop where
  kind : d.kind = .object
  properties : Table.keys d.properties =
    distinctNames (m.request.1.filterMap Argument.parameterName?)
  required : d.required = Argument.requiredNames m.request.1

/-- All arguments of the request that have metadata are sent: in order among form parameters, or as
properties of the model that the one body refers to. -/
def Sends (m : Method) (xs : List Parameter) (d : Document) : Prop :=
  ((∀ x ∈ xs, x.location = .formData) ∧
    (m.request.1.filterMap Argument.parameterName?).Sublist (xs.map Parameter.name)) ∨
  xs = [Run.bodyParameter m.request.2.1] ∧
    ∃ model, d.definitions.get? m.request.2.1 = some model ∧
      ∀ n ∈ m.request.1.filterMap Argument.parameterName?, Table.has model.properties n

end Method

namespace Run

variable {w : World} {m : Method} {o : Overrides} {roots : List TypeExpr} {p q : Progress}
  {shaped : List (Argument × Schema)} {arguments : List Argument} {name reference : String}
  {xs : List Parameter}

/-- Where all arguments have metadata, each of them is sent in a form. -/
theorem forms_of_annotated (h : ∀ e ∈ shaped, e.1.param.isSome = true) :
    List.Forall₂ (fun e x => e.1.SentAs e.2 x) shaped (argumentForms shaped) := by
  induction shaped with
  | nil => exact .nil
  | cons e rest ih =>
    obtain ⟨a, shape⟩ := e
    obtain ⟨x, hx⟩ : ∃ x, a.form? shape = some x := by
      rw [← Option.isSome_iff_exists, Argument.form?, Option.isSome_map]
      exact h (a, shape) List.mem_cons_self
    rw [argumentForms_cons, hx]
    exact .cons (Argument.sentAs_of_form hx) (ih fun e he => h e (List.mem_cons_of_mem _ he))

/-- Arguments are sent as form parameters when all of them fit there, and as a body otherwise. -/
theorem parametersFor_ok (h : parametersFor w arguments name reference p = .ok xs q) :
    ∃ shaped r, resolveArguments w arguments p = .ok shaped r ∧ q.registry = r.registry ∧
      ((∀ e ∈ shaped, e.2.FitsForm) ∧ xs = argumentForms shaped ∧ q.document = r.document ∨
        (∃ e ∈ shaped, ¬ e.2.FitsForm) ∧ xs = [bodyParameter name] ∧
          q.document = bodyDocument r shaped name reference) := by
  cases hr : resolveArguments w arguments p with
  | error e r =>
    unfold parametersFor at h
    rw [bind_of_error hr] at h
    cases h
  | ok shaped r =>
    obtain ⟨notices, sent⟩ := parametersFor_apply name reference hr
    rw [sent] at h
    have simple : (shaped.all fun e => e.2.isSimple) = true ↔ ∀ e ∈ shaped, e.2.FitsForm := by
      rw [List.all_eq_true]
      exact forall₂_congr fun e _ => Schema.isSimple_iff
    refine ⟨shaped, r, rfl, ?_⟩
    by_cases form : ∀ e ∈ shaped, e.2.FitsForm
    · rw [if_pos (simple.2 form)] at h
      cases h
      exact ⟨rfl, .inl ⟨form, rfl, rfl⟩⟩
    · rw [if_neg fun all => form (simple.1 all)] at h
      cases h
      have other : ∃ e ∈ shaped, ¬ e.2.FitsForm := by
        simpa only [not_forall, exists_prop] using form
      exact ⟨rfl, .inr ⟨other, rfl, rfl⟩⟩

/-- What the arguments of a request are folded into is a model of them. -/
theorem modelledBy_argumentModel (origins : shaped.map Prod.fst = m.request.1) :
    m.ModelledBy (argumentModel shaped reference) where
  kind := rfl
  properties := by rw [keys_argumentModel, origins]
  required := by rw [argumentModel_required, origins]

/-- The name of a body has a definition. When it is new, this is a model of the arguments, and what
it refers to has definitions beside it. -/
theorem bodyDocument_modelled (reference : String) (idle : p.registry.resolving = [])
    (covers : ∀ e ∈ shaped, p.registry.Covers e.2) (origins : shaped.map Prod.fst = m.request.1) :
    ∃ d, (bodyDocument p shaped name reference).definitions.get? name = some d ∧
      (p.document.definitions.has name = false → p.registry.models.has name = false →
        m.ModelledBy d ∧ ∀ n ∈ d.references,
          (bodyDocument p shaped name reference).definitions.has n) := by
  have defined := bodyDocument_get? p shaped name reference
  refine ⟨_, defined, fun new unbuilt => ?_⟩
  have alone := bodyDocument_of_new shaped reference new unbuilt
  rw [Option.some.inj (defined.symm.trans alone)]
  exact ⟨modelledBy_argumentModel origins, bodyDocument_has idle covers⟩

/-- The definition that a body refers to has all properties of its arguments, whatever the name has
stood for before. -/
theorem bodyDocument_carries (shaped : List (Argument × Schema)) (name reference : String)
    (distinct : p.document.Distinct) (models : p.registry.Distinct) :
    ∃ model, (bodyDocument p shaped name reference).definitions.get? name = some model ∧
      ∀ n, Table.has (argumentModel shaped reference).properties n →
        Table.has model.properties n := by
  refine ⟨_, bodyDocument_get? p shaped name reference, fun n hn =>
    Document.has_combine (fun old hold => ?_) hn⟩
  have added : (p.document.addModels (argumentModels p.registry shaped)).1.Distinct :=
    distinct.addModels fun e he => models e.1 e.2 (get?_of_mem_argumentModels he)
  exact added (name, old) (Table.mem_of_get? hold)

/-- A request whose first argument has metadata is sent, or refused for the name of its type. -/
theorem classify_cases {first : Argument} {rest : List Argument} (element : m.requestElement = none)
    (arguments : m.request.1 = first :: rest) (annotated : first.param.isSome = true)
    (p : Progress) :
    classify w m p = parametersFor w m.request.1 m.request.2.1 m.request.2.2 p ∨
      ¬ p.Admits m ∧ ∃ e, classify w m p = .error e p ∧ e.family = .declaration := by
  have sends (hc : candidates m p = .ok m.request p) :
      classify w m p = parametersFor w m.request.1 m.request.2.1 m.request.2.2 p := by
    have found : candidates m p = .ok (first :: rest, m.request.2.1, m.request.2.2) p := by
      rw [← arguments]
      exact hc
    rw [arguments]
    exact classify_of_param element found annotated
  cases hb : m.requestBody with
  | none =>
    have own : m.request = (m.arguments, m.bodyName, m.identifier) := by rw [Method.request, hb]
    exact .inl (sends (own ▸ candidates_of_none hb p))
  | some b =>
    rcases candidates_cases hb p with ⟨_, hc⟩ | ⟨refused, e, hc, declared⟩
    · exact .inl (sends (Method.request_of_requestBody hb ▸ hc))
    · exact .inr ⟨refused, e, classify_of_error element hc, declared⟩

/-- A request whose arguments all have metadata is sent in one of two ways, and one argument decides
for all of them. -/
theorem classify_form_or_body {entries : List (TypeExpr × String)}
    (made : Overrides.ofNames entries [] = .ok o) (used : w.Visited o roots p.registry)
    (element : m.requestElement = none) (nonempty : m.request.1 ≠ [])
    (annotated : ∀ a ∈ m.request.1, a.param.isSome = true) (h : classify w m p = .ok xs q) :
    ∃ shaped r, resolveArguments w m.request.1 p = .ok shaped r ∧
      shaped.map Prod.fst = m.request.1 ∧
      ((∀ e ∈ shaped, e.2.FitsForm) →
        List.Forall₂ (fun e x => e.1.SentAs e.2 x) shaped xs ∧
          q.document.definitions = p.document.definitions) ∧
      ((∃ e ∈ shaped, ¬ e.2.FitsForm) → xs = [bodyParameter m.request.2.1] ∧
        ∃ d, q.document.definitions.get? m.request.2.1 = some d ∧
          (p.document.definitions.has m.request.2.1 = false →
            q.registry.models.has m.request.2.1 = false →
            m.ModelledBy d ∧ ∀ n ∈ d.references, q.document.definitions.has n) ∧
          (p.Settled → ∀ n ∈ d.references, q.document.definitions.has n)) := by
  obtain ⟨idle, overrides, _⟩ := used.idle
  have plain : ∀ e ∈ p.registry.overrides, e.2.references = [] := by
    intro e he
    obtain ⟨name, hname⟩ := Overrides.find_of_ofNames made (overrides ▸ he)
    exact Primitive.references_find hname
  obtain ⟨first, rest, arguments⟩ := List.exists_cons_of_ne_nil nonempty
  have sent : parametersFor w m.request.1 m.request.2.1 m.request.2.2 p = .ok xs q := by
    have hfirst := annotated first (arguments ▸ List.mem_cons_self)
    rcases classify_cases element arguments hfirst p with sends | ⟨_, e, refused, _⟩
    · exact sends ▸ h
    · cases refused.symm.trans h
  obtain ⟨shaped, r, resolved, registry, outcome⟩ := parametersFor_ok sent
  obtain ⟨evolves, document⟩ := resolveArguments_evolves resolved
  have origins := resolveArguments_arguments resolved
  refine ⟨shaped, r, resolved, origins, fun all => ?_, fun other => ?_⟩
  · rcases outcome with ⟨_, rfl, hq⟩ | ⟨⟨e, he, hs⟩, _⟩
    · refine ⟨forms_of_annotated fun e he => annotated e.1 ?_, ?_⟩
      · exact origins ▸ List.mem_map_of_mem he
      · rw [hq, document]
    · exact absurd (all e he) hs
  · rcases outcome with ⟨all, _⟩ | ⟨_, rfl, hq⟩
    · obtain ⟨e, he, hs⟩ := other
      exact absurd (all e he) hs
    · obtain ⟨d, defined, alone⟩ := bodyDocument_modelled m.request.2.2
        (evolves.resolving.trans idle) (resolveArguments_covers resolved plain) origins
      rw [← hq] at defined alone
      refine ⟨rfl, d, defined, fun new unbuilt => alone (document ▸ new) (registry ▸ unbuilt),
        fun settled n hn => ?_⟩
      have complete := (classify_settles h settled).1.settled.document
      exact complete.definitions _ (Table.mem_of_get? defined) n hn

end Run

namespace World

/-- A method of a service by its position. -/
def methodAt (w : World) (t : TypeExpr) (k : Nat) : Option Method :=
  match w.loadService t with
  | .ok s => s.methods[k]?
  | .error _ => none

/-- A declared method. The arguments come with their types and with their metadata, if they have
any. -/
def deskMethod (name : String) (arguments : List (String × Value × List (Scalar × Value))) :
    Value :=
  .map [(.text "name", .text name), (.text "operation", .map []),
    (.text "args", .list (arguments.map fun a =>
      .map ((.text "name", .text a.1) :: (.text "type", a.2.1) :: a.2.2)))]

/-- A service whose requests are sent in every way that arguments can be mixed. -/
def deskDecls : List Value :=
  let listOf (item : String) : Value :=
    .map [(.text "g", .text "list"), (.text "a", .list [.text item])]
  let plain : List (Scalar × Value) := [(.text "param", .map [])]
  let needed : List (Scalar × Value) := [(.text "param", .map [(.text "required", .bool true)])]
  [.map [(.text "kind", .text "class"), (.text "id", .text "Address"), (.text "fields", .list [
      .map [(.text "name", .text "city"), (.text "type", .text "str")]])],
    .map [(.text "kind", .text "service"), (.text "id", .text "Desk"), (.text "api", .map []),
      (.text "path", .text "/desk"), (.text "methods", .list [
        deskMethod "file" [("title", .text "str", needed), ("tags", listOf "str", plain)],
        deskMethod "send" [("subject", .text "str", needed), ("to", .text "Address", plain)],
        deskMethod "upload" [("subject", .text "str", plain), ("call", .text "IncomingRequest", []),
          ("to", .text "Address", plain)],
        deskMethod "move" [("source", .text "str", plain), ("target", .text "str", [])],
        deskMethod "rows" [("dots", listOf "...", plain), ("page", .text "int", [])]])]]

def deskRoute (name : String) (arguments : List (String × TypeExpr × List ParamInfo)) :
    String × MethodDecl :=
  (name, {
    name
    marked := true
    operation := some {}
    arguments := arguments.map fun a =>
      { name := a.1, annotation := some a.2.1, params := a.2.2 } })

def desk : World where
  decls := [
    .cls {
      name := "Address"
      qualname := "Address"
      above := [.builtin .object]
      fields := [{ name := "city", type := .builtin .str }]
      annotations := [("city", .builtin .str)] },
    .cls {
      name := "Desk"
      qualname := "Desk"
      above := [.builtin .object]
      service := some {}
      path := some "/desk"
      methods := [
        deskRoute "file" [("title", .builtin .str, [{ required := true }]),
          ("tags", .applied (.builtin .list) [.builtin .str], [{}])],
        deskRoute "send" [("subject", .builtin .str, [{ required := true }]),
          ("to", .declared 0, [{}])],
        deskRoute "upload" [("subject", .builtin .str, [{}]), ("call", .builtin .requestHandle, []),
          ("to", .declared 0, [{}])],
        deskRoute "move" [("source", .builtin .str, [{}]), ("target", .builtin .str, [])],
        deskRoute "rows" [("dots", .applied (.builtin .list) [.ellipsis], [{}]),
          ("page", .builtin .int, [])]] }]
  names := [("Address", .declared 0), ("Desk", .declared 1)]

/-- The arguments for filing are sent in a form, those for sending in a body. -/
theorem classify_form_or_body_desk :
    (∃ m xs q shaped, desk.methodAt (.declared 1) 0 = some m ∧
      Run.classify desk m {} = .ok xs q ∧ shaped.map Prod.fst = m.request.1 ∧
      List.Forall₂ (fun e x => Argument.SentAs e.1 e.2 x) shaped xs ∧
      q.document.definitions = []) ∧
    ∃ m q d, desk.methodAt (.declared 1) 1 = some m ∧
      Run.classify desk m {} = .ok [Run.bodyParameter "Desk_send"] q ∧
      q.document.definitions.get? "Desk_send" = some d ∧
      Table.keys d.properties = ["subject", "to"] ∧ d.required = ["subject"] ∧
      ∀ n ∈ d.references, q.document.definitions.has n := by
  have made : Overrides.ofNames [] [] = .ok [] := rfl
  constructor
  · obtain ⟨m, xs, q, shaped, r, hm, h, element, nonempty, annotated, hr, simple⟩ :
        ∃ m xs q shaped r, desk.methodAt (.declared 1) 0 = some m ∧
          Run.classify desk m {} = .ok xs q ∧ m.requestElement = none ∧ m.request.1 ≠ [] ∧
          (∀ a ∈ m.request.1, a.param.isSome = true) ∧
          Run.resolveArguments desk m.request.1 {} = .ok shaped r ∧
          (shaped.all fun e => e.2.isSimple) = true :=
      ⟨_, _, _, _, _, rfl, rfl, rfl, nofun, by decide, rfl, rfl⟩
    obtain ⟨_, _, resolved, origins, form, _⟩ := Run.classify_form_or_body made .start
      element nonempty annotated h
    obtain ⟨rfl, rfl⟩ := EStateM.Result.ok.inj (hr.symm.trans resolved)
    obtain ⟨sent, untouched⟩ := form fun e he =>
      Schema.isSimple_iff.1 (List.all_eq_true.1 simple e he)
    exact ⟨m, xs, q, shaped, hm, h, origins, sent, untouched⟩
  · obtain ⟨m, shaped, r, hm, element, nonempty, annotated, hr, complex, name, names, required,
        classified⟩ :
        ∃ m shaped r, desk.methodAt (.declared 1) 1 = some m ∧ m.requestElement = none ∧
          m.request.1 ≠ [] ∧ (∀ a ∈ m.request.1, a.param.isSome = true) ∧
          Run.resolveArguments desk m.request.1 {} = .ok shaped r ∧
          (shaped.any fun e => !e.2.isSimple) = true ∧ m.request.2.1 = "Desk_send" ∧
          m.request.1.filterMap Argument.parameterName? = ["subject", "to"] ∧
          Argument.requiredNames m.request.1 = ["subject"] ∧
          Run.observe (Run.classify desk m) (fun q => q.registry.models.has "Desk_send") =
            some false :=
      ⟨_, _, _, rfl, rfl, nofun, by decide, rfl, rfl, rfl, rfl, rfl, by decide +kernel⟩
    obtain ⟨xs, q, h, unbuilt⟩ := Run.observe_some classified
    obtain ⟨_, _, resolved, _, _, body⟩ := Run.classify_form_or_body made .start element
      nonempty annotated h
    obtain ⟨rfl, rfl⟩ := EStateM.Result.ok.inj (hr.symm.trans resolved)
    obtain ⟨e, he, hs⟩ := List.any_eq_true.1 complex
    have other : ¬ e.2.FitsForm := by
      rw [← Schema.isSimple_iff]
      simpa using hs
    obtain ⟨rfl, d, hd, alone, _⟩ := body ⟨e, he, other⟩
    rw [name] at hd alone h
    obtain ⟨modelled, defined⟩ := alone rfl unbuilt
    refine ⟨m, q, d, hm, h, hd, ?_, ?_, defined⟩
    · rw [modelled.properties, names]
      rfl
    · rw [modelled.required, required]

end World

namespace Run

variable {w : World} {m : Method} {o : Overrides} {roots : List TypeExpr} {p : Progress}

/-- The arguments of a request with metadata are all sent, unless the request is refused for its
name or one of the annotations cannot be resolved. -/
theorem classify_sends {first : Argument} {rest : List Argument}
    (used : w.Visited o roots p.registry) (distinct : p.document.Distinct)
    (element : m.requestElement = none) (arguments : m.request.1 = first :: rest)
    (annotated : first.param.isSome = true) :
    (∃ xs q, classify w m p = .ok xs q ∧ m.Sends xs q.document) ∨
      ∃ e q, classify w m p = .error e q ∧ (¬ p.Admits m ∧ e.family = .declaration ∨
        ∃ a ∈ m.request.1, e = .endless ∨
          ∃ u, Relation.ReflTransGen (w.Descends o) a.annotation u ∧ w.Nameless o u e) := by
  obtain ⟨_, overrides, models⟩ := used.idle
  rcases classify_cases element arguments annotated p with sends | ⟨taken, e, refused, family⟩
  · rw [sends]
    cases sent : parametersFor w m.request.1 m.request.2.1 m.request.2.2 p with
    | error e q =>
      exact .inr ⟨e, q, rfl, .inr (resolveArguments_error (parametersFor_error sent) overrides)⟩
    | ok xs q =>
      refine .inl ⟨xs, q, rfl, ?_⟩
      obtain ⟨shaped, r, resolved, _, outcome⟩ := parametersFor_ok sent
      obtain ⟨evolves, document⟩ := resolveArguments_evolves resolved
      have origins := resolveArguments_arguments resolved
      rcases outcome with ⟨_, rfl, _⟩ | ⟨_, rfl, hq⟩
      · refine .inl ⟨fun x hx => ?_, ?_⟩
        · obtain ⟨e, _, he⟩ := List.mem_filterMap.1 hx
          exact (Argument.sentAs_of_form he).location
        · rw [names_argumentForms, origins]
      · obtain ⟨model, defined, carries⟩ := bodyDocument_carries shaped m.request.2.1
          m.request.2.2 (document ▸ distinct) (evolves.distinct models)
        refine .inr ⟨rfl, model, hq ▸ defined, fun n hn => carries n ?_⟩
        rw [Table.has_iff_mem_keys, keys_argumentModel, origins, mem_distinctNames]
        exact hn
  · exact .inr ⟨e, p, refused, .inl ⟨taken, family⟩⟩

end Run

namespace World

/-- Of the arguments for uploading, those with metadata are sent. -/
theorem classify_sends_desk : ∃ m xs q, desk.methodAt (.declared 1) 2 = some m ∧
    Run.classify desk m {} = .ok xs q ∧ m.Sends xs q.document := by
  obtain ⟨m, first, rest, hm, element, arguments, annotated, classified⟩ : ∃ m first rest,
      desk.methodAt (.declared 1) 2 = some m ∧ m.requestElement = none ∧
      m.request.1 = first :: rest ∧ first.param.isSome = true ∧
      Run.observe (Run.classify desk m) (fun _ => ()) = some () :=
    ⟨_, _, _, rfl, rfl, rfl, rfl, by decide +kernel⟩
  rcases Run.classify_sends (p := {}) .start nofun element arguments annotated with
    ⟨xs, q, h, sends⟩ | ⟨e, q, failed, _⟩
  · exact ⟨m, xs, q, hm, h, sends⟩
  · obtain ⟨_, _, h, _⟩ := Run.observe_some classified
    cases failed.symm.trans h

/-- An argument without metadata behind others is not sent, whether it is a raw request or not, and
a list of dots is a failure of another family. -/
theorem desk_drops : ofDeclarations deskDecls = .ok desk ∧
    (∃ m first second xs q, desk.methodAt (.declared 1) 3 = some m ∧ m.requestElement = none ∧
      m.request.1 = [first, second] ∧ first.param.isSome = true ∧ second.param = none ∧
      Run.classify desk m {} = .ok xs q ∧ xs.map Parameter.name = ["source"] ∧
      first.name = "source" ∧ second.name = "target") ∧
    (∃ m, desk.methodAt (.declared 1) 2 = some m ∧ m.requestElement = none ∧
      m.request.1.map Argument.name = ["subject", "call", "to"] ∧
      m.request.1.map Argument.requestHandle = [false, true, false] ∧
      Run.observe (Run.classify desk m) (fun q => (q.document.definitions.get? "Desk_upload").map
        fun d => Table.keys d.properties) = some (some ["subject", "to"])) ∧
    ∃ m first second e q, desk.methodAt (.declared 1) 4 = some m ∧ m.requestElement = none ∧
      m.request.1 = [first, second] ∧ first.param.isSome = true ∧ second.param = none ∧
      Run.classify desk m {} = .error e q ∧ e.family = .member := by
  refine ⟨rfl, ⟨_, _, _, _, _, rfl, rfl, rfl, rfl, rfl, rfl, rfl, rfl, rfl⟩, ?_, ?_⟩
  · exact ⟨_, rfl, rfl, rfl, by decide +kernel, by decide +kernel⟩
  · exact ⟨_, _, _, _, _, rfl, rfl, rfl, rfl, rfl, rfl, rfl⟩

end World

end ApiCompiler
