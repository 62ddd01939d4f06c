import ApiCompiler.Proofs.RequestNames
import ApiCompiler.Proofs.UsedResolver

/-!
# What arguments become

Sending arguments never fails once their annotations are resolved. As form parameters, the arguments
with metadata become parameters and the document stays as it is. As a body, they become properties
of one object model, and the models that these refer to are added before it. The names that a
resolved annotation refers to are known to the registry, whatever has happened to the resolver
before, so that they have definitions then.
-/

set_option autoImplicit false

namespace ApiCompiler

namespace Argument

/-- The property that an argument with metadata has in a body. -/
def property? (a : Argument) (shape : Schema) : Option (String × Schema) :=
  a.param.map fun info => (if info.name = "" then a.name else info.name,
    if info.description = "" then shape else { shape with description := info.description })

def isRequired (a : Argument) : Bool := a.param.any ParamInfo.required

/-- The names of those arguments that have to be given. -/
def requiredNames (arguments : List Argument) : List String :=
  (arguments.filter isRequired).filterMap parameterName?

variable {a : Argument} (rest : List Argument)

theorem requiredNames_of_bare (h : a.param = none) :
    requiredNames (a :: rest) = requiredNames rest := by
  simp [requiredNames, isRequired, h]

theorem requiredNames_of_param {info : ParamInfo} (h : a.param = some info) :
    requiredNames (a :: rest) =
      (if info.required then [if info.name = "" then a.name else info.name] else []) ++
        requiredNames rest := by
  cases hr : info.required <;> simp [requiredNames, isRequired, parameterName?, h, hr]

end Argument

/-- Building models loses none of them. -/
theorem Registry.Evolves.grows {r r' : Registry} (h : r.Evolves r') : r.Grows r' where
  models name hname := by
    obtain ⟨old, hold⟩ := Option.isSome_iff_exists.1 hname
    obtain ⟨new, hnew, _⟩ := h.models name old hold
    exact Option.isSome_iff_exists.2 ⟨new, hnew⟩
  resolving := h.resolving

namespace Run

/-- The properties that arguments have in a body. -/
def argumentProperties (shaped : List (Argument × Schema)) : List (String × Schema) :=
  shaped.filterMap fun e => e.1.property? e.2

/-- The models that the properties of arguments refer to. -/
def argumentModels (r : Registry) (shaped : List (Argument × Schema)) : Table Schema :=
  (argumentProperties shaped).flatMap fun e => r.modelsFor e.2

/-- The model that arguments are folded into. -/
def argumentModel (shaped : List (Argument × Schema)) (reference : String) : Schema :=
  .ofFolded (folded shaped [] []) reference

/-- The document after arguments have been sent as a body. -/
def bodyDocument (p : Progress) (shaped : List (Argument × Schema)) (name reference : String) :
    Document :=
  ((p.document.addModels (argumentModels p.registry shaped)).1.addModel name
    (argumentModel shaped reference)).1

variable {w : World} {p q : Progress} {shaped : List (Argument × Schema)}
  {arguments : List Argument} {name reference : String}

theorem argumentProperties_cons (a : Argument) (shape : Schema) (rest : List (Argument × Schema)) :
    argumentProperties ((a, shape) :: rest) =
      (a.property? shape).toList ++ argumentProperties rest := by
  unfold argumentProperties
  rw [List.filterMap_cons]
  cases a.property? shape <;> rfl

theorem folded_eq (shaped : List (Argument × Schema)) (properties : Table Schema)
    (required : List String) : folded shaped properties required =
      (properties.merge (argumentProperties shaped),
        required ++ Argument.requiredNames (shaped.map Prod.fst)) := by
  induction shaped generalizing properties required with
  | nil => simp [folded, argumentProperties, Argument.requiredNames, Table.merge]
  | cons e rest ih =>
    obtain ⟨a, shape⟩ := e
    unfold folded
    rw [argumentProperties_cons, List.map_cons, Argument.property?]
    cases ha : a.param with
    | none =>
      rw [Argument.requiredNames_of_bare _ ha]
      exact ih properties required
    | some info =>
      rw [Argument.requiredNames_of_param _ ha]
      simp only
      rw [ih]
      cases info.required <;> simp [Table.merge]

/-! ### Sending -/

/-- Folding adds the models that the properties refer to, and nothing else. -/
theorem foldArguments_apply (shaped : List (Argument × Schema)) (properties : Table Schema)
    (required : List String) (p : Progress) : ∃ notices,
    foldArguments shaped properties required p = .ok (folded shaped properties required) { p with
      document := (p.document.addModels (argumentModels p.registry shaped)).1, notices } := by
  induction shaped generalizing properties required p with
  | nil => exact ⟨p.notices, rfl⟩
  | cons e rest ih =>
    obtain ⟨a, shape⟩ := e
    unfold foldArguments folded
    rw [argumentModels, argumentProperties_cons, Argument.property?]
    cases a.param with
    | none => exact ih properties required p
    | some info =>
      simp only [Option.map_some, Option.toList_some, List.singleton_append, List.flatMap_cons]
      rw [(Document.addModels_append _ _ _).1, bind_of_ok (addModelsOf_apply _ p)]
      exact ih _ _ _

theorem objectBody_apply (shaped : List (Argument × Schema)) (name reference : String)
    (p : Progress) : ∃ notices, objectBody shaped name reference p = .ok (bodyParameter name)
      { p with document := bodyDocument p shaped name reference, notices } := by
  obtain ⟨notices, folds⟩ := foldArguments_apply shaped [] [] p
  unfold objectBody
  rw [bind_of_ok folds]
  simp only
  rw [bind_of_ok (onDocument_apply _ _)]
  exact ⟨_, rfl⟩

/-- Once the annotations are resolved, arguments are sent. -/
theorem parametersFor_apply (name reference : String)
    (h : resolveArguments w arguments p = .ok shaped q) : ∃ notices,
    parametersFor w arguments name reference p =
      if shaped.all fun e => e.2.isSimple then .ok (argumentForms shaped) { q with notices }
      else .ok [bodyParameter name]
        { q with document := bodyDocument q shaped name reference, notices } := by
  unfold parametersFor
  rw [bind_of_ok h]
  split
  · exact formParameters_reports shaped q
  · obtain ⟨notices, body⟩ := objectBody_apply shaped name reference q
    refine ⟨notices, ?_⟩
    rw [bind_of_ok body]
    rfl

/-- Parameters for arguments fail where one of the annotations does, and nowhere else. -/
theorem parametersFor_error {e : Failure}
    (h : parametersFor w arguments name reference p = .error e q) :
    resolveArguments w arguments p = .error e q := by
  cases hr : resolveArguments w arguments p with
  | ok shaped r =>
    obtain ⟨notices, sent⟩ := parametersFor_apply name reference hr
    rw [h] at sent
    split at sent <;> cases sent
  | error e' r =>
    unfold parametersFor at h
    rw [bind_of_error hr] at h
    cases h
    rfl

/-! ### What the annotations refer to -/

/-- Whatever the registry holds, a schema that resolution hands out refers to names that are known
to it afterwards. -/
theorem resolveWithin_covers {bound : Nat} {t : TypeExpr} {s : Schema}
    (h : resolveWithin w bound t p = .ok s q)
    (ho : ∀ e ∈ p.registry.overrides, e.2.references = []) : q.registry.Covers s := by
  induction bound generalizing t p q s with
  | zero => cases h
  | succ bound ih =>
    rcases resolveShape_cases h with ⟨u, r, _, hr, rfl⟩ | ⟨_, hm⟩ | ⟨hs, _, rfl⟩
    · exact (ih hr ho).around _
    · obtain ⟨name, _, hn, _⟩ := bind_ok.1 hm
      rw [resolveModel_apply (ofExcept_ok.1 hn).1] at hm
      split at hm
      · rename_i known
        cases hm
        refine Registry.covers_refTo (known.symm.imp (fun current => ?_) id)
        exact (Bool.and_eq_true_iff.1 current).1
      · split at hm
        · cases hm
          exact Registry.covers_of_references Schema.references_opaqueObject
        · obtain ⟨_, r, hb, hm⟩ := bind_ok.1 hm
          obtain ⟨rfl, rfl⟩ := pure_ok.1 hm
          obtain ⟨_, _, _, _, rfl⟩ := buildModel_iff.1 hb
          exact Registry.covers_refTo (.inl (Table.has_insert.2 (.inl rfl)))
    · exact Registry.covers_of_references (World.references_flat ho hs)

theorem resolveArguments_evolves (h : resolveArguments w arguments p = .ok shaped q) :
    p.registry.Evolves q.registry ∧ q.document = p.document := by
  induction arguments generalizing p q shaped with
  | nil =>
    cases h
    exact ⟨.refl _, rfl⟩
  | cons a rest ih =>
    obtain ⟨s, r, hs, h⟩ := bind_ok.1 h
    obtain ⟨more, _, hmore, h⟩ := bind_ok.1 h
    obtain ⟨rfl, rfl⟩ := pure_ok.1 h
    obtain ⟨evolves, document⟩ := ih hmore
    exact ⟨(resolveWithin_evolves w hs).trans evolves, document.trans (resolve_document hs)⟩

theorem resolveArguments_covers (h : resolveArguments w arguments p = .ok shaped q)
    (ho : ∀ e ∈ p.registry.overrides, e.2.references = []) :
    ∀ e ∈ shaped, q.registry.Covers e.2 := by
  induction arguments generalizing p q shaped with
  | nil =>
    cases h
    exact nofun
  | cons a rest ih =>
    obtain ⟨s, r, hs, h⟩ := bind_ok.1 h
    obtain ⟨more, _, hmore, h⟩ := bind_ok.1 h
    obtain ⟨rfl, rfl⟩ := pure_ok.1 h
    intro e he
    rcases List.mem_cons.1 he with rfl | he
    · exact (resolveWithin_covers hs ho).mono (resolveArguments_evolves hmore).1.grows
    · exact ih hmore ((resolveWithin_evolves w hs).overrides ▸ ho) e he

/-- Arguments fail with one of their annotations. -/
theorem resolveArguments_error {o : Overrides} {e : Failure}
    (h : resolveArguments w arguments p = .error e q) (ho : p.registry.overrides = o) :
    ∃ a ∈ arguments, e = .endless ∨
      ∃ u, Relation.ReflTransGen (w.Descends o) a.annotation u ∧ w.Nameless o u e := by
  induction arguments generalizing p with
  | nil => cases h
  | cons a rest ih =>
    rcases bind_error.1 h with h | ⟨s, r, hs, h⟩
    · exact ⟨a, List.mem_cons_self, resolveWithin_error h ho⟩
    · rcases bind_error.1 h with h | ⟨_, _, _, h⟩
      · obtain ⟨b, hb, cause⟩ := ih h ((resolveWithin_evolves w hs).overrides.trans ho)
        exact ⟨b, List.mem_cons_of_mem _ hb, cause⟩
      · cases h

/-! ### The model of a body -/

/-- The models that arguments refer to are models of the registry. -/
theorem get?_of_mem_argumentModels {r : Registry} {e : String × Schema}
    (h : e ∈ argumentModels r shaped) : r.models.get? e.1 = some e.2 := by
  obtain ⟨_, _, he⟩ := List.mem_flatMap.1 h
  exact (Registry.get?_of_mem_reachable he).resolve_left nofun

theorem argumentModel_properties : (argumentModel shaped reference).properties =
    Table.ofList (argumentProperties shaped) := by
  rw [argumentModel, folded_eq]
  rfl

theorem argumentModel_required : (argumentModel shaped reference).required =
    Argument.requiredNames (shaped.map Prod.fst) := by
  rw [argumentModel, folded_eq]
  rfl

theorem keys_argumentModel : Table.keys (argumentModel shaped reference).properties =
    distinctNames ((shaped.map Prod.fst).filterMap Argument.parameterName?) := by
  have names : (argumentProperties shaped).map Prod.fst =
      (shaped.map Prod.fst).filterMap Argument.parameterName? := by
    unfold argumentProperties
    rw [List.map_filterMap, List.filterMap_map]
    refine List.filterMap_congr fun e _ => ?_
    rw [Argument.property?, Option.map_map]
    rfl
  rw [argumentModel_properties, Table.ofList, Table.keys_merge, Table.keys, Table.keys, names]
  rfl

/-- Once nothing is being built, the models that arguments are sent with hold all that their schemas
refer to. -/
theorem argumentModels_has {r : Registry} {n : String} (idle : r.resolving = [])
    (covers : ∀ e ∈ shaped, r.Covers e.2) (h : n ∈ (argumentModel shaped reference).references) :
    (argumentModels r shaped).has n := by
  obtain ⟨e, he, hn⟩ := Schema.mem_tableReferences.1 (Schema.mem_references_object.1 h)
  have he : e ∈ argumentProperties shaped := by
    rw [folded_eq] at he
    exact (Table.mem_merge he).resolve_left nofun
  obtain ⟨⟨a, s⟩, hmem, hproperty⟩ := List.mem_filterMap.1 he
  obtain ⟨info, _, rfl⟩ := Option.map_eq_some_iff.1 hproperty
  have known : r.Known n := by
    refine (covers _ hmem).known n ?_
    dsimp only at hn
    split at hn
    · exact hn
    · exact Schema.references_described s _ ▸ hn
  have found : r.models.has n := known.resolve_right (by rw [idle]; exact List.not_mem_nil)
  have reached : (r.modelsFor _).has n := Registry.has_reachable (.inr ⟨hn, found⟩)
  rw [Table.has_iff_mem_keys] at reached ⊢
  obtain ⟨f, hf, rfl⟩ := List.mem_map.1 reached
  exact List.mem_map_of_mem (List.mem_flatMap.2 ⟨_, he, hf⟩)

theorem bodyDocument_get? (p : Progress) (shaped : List (Argument × Schema))
    (name reference : String) : (bodyDocument p shaped name reference).definitions.get? name = some
    (Document.combine name
      ((p.document.addModels (argumentModels p.registry shaped)).1.definitions.get? name)
      (argumentModel shaped reference)).1 := by
  rw [bodyDocument, Document.addModel_document, Table.get?_insert, if_pos rfl]

/-- Under a new name, which is no name of a resolved model either, the definition is the model of
the arguments alone. -/
theorem bodyDocument_of_new (shaped : List (Argument × Schema)) (reference : String)
    (new : p.document.definitions.has name = false)
    (unbuilt : p.registry.models.has name = false) :
    (bodyDocument p shaped name reference).definitions.get? name =
      some (argumentModel shaped reference) := by
  have absent : (p.document.addModels (argumentModels p.registry shaped)).1.definitions.get? name =
      none := by
    rw [← Option.not_isSome_iff_eq_none]
    intro has
    rcases Document.has_addModels.1 has with has | has
    · obtain ⟨model, hmodel⟩ := Option.isSome_iff_exists.1 has
      have built := get?_of_mem_argumentModels (Table.mem_of_get? hmodel)
      simp [Table.has, built] at unbuilt
    · rw [has] at new
      cases new
  rw [bodyDocument_get? p, absent]
  rfl

/-- What the model of a body refers to has a definition beside it. -/
theorem bodyDocument_has (idle : p.registry.resolving = [])
    (covers : ∀ e ∈ shaped, p.registry.Covers e.2) :
    ∀ n ∈ (argumentModel shaped reference).references,
      (bodyDocument p shaped name reference).definitions.has n := by
  intro n hn
  have found := argumentModels_has idle covers hn
  exact Document.has_addModel.2 (.inr (Document.has_addModels.2 (.inl found)))

end Run

end ApiCompiler
