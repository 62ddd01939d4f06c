import ApiCompiler.Proofs.Frames
import ApiCompiler.Proofs.Operations
import ApiCompiler.Proofs.Registry
import ApiCompiler.Proofs.RequestForms

/-!
# Completeness of the document

A document is complete when every name that it refers to has a definition and no definition requires
a property that it does not have. `Settled` adds what this rests on: a sound registry in which
nothing is being built. The lemmas below say for each step up to the building of an operation that
it keeps a settled state settled, forgets no definition, and that what its result refers to is
defined. A schema fresh from resolution is only covered by the registry; its models have to be added
first.
-/

set_option autoImplicit false

namespace ApiCompiler

namespace Document

structure Complete (d : Document) : Prop where
  definitions : ∀ e ∈ d.definitions, ∀ n ∈ e.2.references, d.definitions.has n
  required : ∀ e ∈ d.definitions, e.2.RequiresOwn
  operations : ∀ o ∈ d.operations, ∀ n ∈ operationReferences o.2.2, d.definitions.has n

theorem complete_empty : Complete {} := ⟨nofun, nofun, nofun⟩

/-- Adding models keeps a document complete when the models refer to one another and to what is
there. -/
theorem Complete.addModels {d : Document} (h : d.Complete) {models : Table Schema}
    (hr : ∀ e ∈ models, e.2.RequiresOwn)
    (hm : ∀ e ∈ models, ∀ n ∈ e.2.references, models.has n ∨ d.definitions.has n) :
    (d.addModels models).1.Complete := by
  have old : ∀ {n}, d.definitions.has n → (d.addModels models).1.definitions.has n :=
    fun hn => has_addModels.2 (.inr hn)
  refine ⟨?_, ?_, ?_⟩
  · refine forall_addModels (P := fun s => ∀ n ∈ s.references,
      (d.addModels models).1.definitions.has n) ?_ ?_ ?_
    · exact fun s t hs ht n hn => (mem_references_unite hn).elim (hs n) (ht n)
    · exact fun e he n hn => old (h.definitions e he n hn)
    · exact fun e he n hn => has_addModels.2 (hm e he n hn)
  · exact forall_addModels (fun _ _ => requiresOwn_unite) h.required hr
  · obtain ⟨definitions, hd⟩ := addModels_document models d
    intro o ho n hn
    refine old (h.operations o ?_ n hn)
    rw [hd] at ho
    exact ho

theorem Complete.addModel {d : Document} (h : d.Complete) {name : String} {model : Schema}
    (hr : model.RequiresOwn) (hm : ∀ n ∈ model.references, d.definitions.has n) :
    (d.addModel name model).1.Complete := by
  show (d.addModels [(name, model)]).1.Complete
  refine h.addModels (fun _ he => List.mem_singleton.1 he ▸ hr) fun e he n hn => .inr (hm n ?_)
  rwa [List.mem_singleton.1 he] at hn

end Document

namespace Progress

/-- The names have definitions. -/
def Defines (p : Progress) (names : List String) : Prop := ∀ n ∈ names, p.document.definitions.has n

theorem Defines.of_nil {p : Progress} {names : List String} (h : names = []) : p.Defines names := by
  rintro n hn
  rw [h] at hn
  cases hn

structure Settled (p : Progress) : Prop where
  registry : p.registry.Sound
  idle : p.registry.resolving = []
  document : p.document.Complete

/-- A settled state that has the models and the definitions of an earlier one. -/
structure Settles (p q : Progress) : Prop where
  settled : q.Settled
  registry : p.registry.Grows q.registry
  definitions : ∀ n, p.document.definitions.has n → q.document.definitions.has n

theorem Settled.refl {p : Progress} (h : p.Settled) : p.Settles p := ⟨h, .refl _, fun _ hn => hn⟩

namespace Settles

variable {p q r : Progress}

theorem trans (h : p.Settles q) (h' : q.Settles r) : p.Settles r :=
  ⟨h'.settled, h.registry.trans h'.registry, fun n hn => h'.definitions n (h.definitions n hn)⟩

theorem defines (h : p.Settles q) {names : List String} (hn : p.Defines names) :
    q.Defines names :=
  fun n hm => h.definitions n (hn n hm)

theorem covers (h : p.Settles q) {s : Schema} (hs : p.registry.Covers s) : q.registry.Covers s :=
  hs.mono h.registry

end Settles

theorem Settled.of_same {p q : Progress} (h : p.Settled) (hr : q.registry = p.registry)
    (hd : q.document = p.document) : p.Settles q := by
  refine ⟨⟨hr ▸ h.registry, hr ▸ h.idle, hd ▸ h.document⟩, ?_, fun n hn => hd ▸ hn⟩
  rw [hr]
  exact .refl _

end Progress

/-- The arguments that make up the request of a method. -/
def Method.requestArguments (m : Method) : List Argument :=
  (m.requestBody.map RequestBody.arguments).getD m.arguments

namespace Run

open Progress (Settled Settles Defines)

variable {α : Type} {p q : Progress}

/-- A step that only reports keeps a settled state settled. -/
theorem settles_of_keeps {x : Run α} {a : α} (hx : ∀ {R}, AllowsReports R → Keeps R x)
    (h : x p = .ok a q) (hp : p.Settled) : p.Settles q := by
  have hr := (hx (allowsReports_of_eq Progress.registry fun _ _ => rfl)).of_ok h
  have hd := (hx (allowsReports_of_eq Progress.document fun _ _ => rfl)).of_ok h
  exact hp.of_same hr hd

theorem resolve_settles {w : World} {t : TypeExpr} {s : Schema} (h : resolve w t p = .ok s q)
    (hp : p.Settled) : p.Settles q ∧ q.registry.Covers s := by
  obtain ⟨hs, hg, hc⟩ := resolve_ok w h hp.registry
  have hd := resolve_document h
  exact ⟨⟨⟨hs, hg.resolving.trans hp.idle, hd ▸ hp.document⟩, hg, fun n hn => hd ▸ hn⟩, hc⟩

theorem addModelsOf_settles {s : Schema} {u : Unit} (h : addModelsOf s p = .ok u q)
    (hp : p.Settled) (hs : p.registry.Covers s) : p.Settles q ∧ q.Defines s.references := by
  rw [addModelsOf_apply] at h
  obtain ⟨_, rfl⟩ := EStateM.Result.ok.inj h
  obtain ⟨hn, hm⟩ := hp.registry.modelsFor_closed hp.idle hs
  refine ⟨⟨⟨hp.registry, hp.idle, hp.document.addModels ?_ ?_⟩, .refl _, ?_⟩, ?_⟩
  · exact fun e he => hp.registry.required e (hm e he).1
  · exact fun e he n hn => .inl ((hm e he).2 n hn)
  · exact fun n hn => Document.has_addModels.2 (.inr hn)
  · exact fun n h => Document.has_addModels.2 (.inl (hn n h))

theorem addModel_settles {name : String} {model : Schema} {u : Unit}
    (h : onDocument (fun d => d.addModel name model) p = .ok u q) (hp : p.Settled)
    (hr : model.RequiresOwn) (hm : p.Defines model.references) :
    p.Settles q ∧ q.Defines [name] := by
  rw [onDocument_apply] at h
  obtain ⟨_, rfl⟩ := EStateM.Result.ok.inj h
  refine ⟨⟨⟨hp.registry, hp.idle, hp.document.addModel hr hm⟩, .refl _, ?_⟩, ?_⟩
  · exact fun n hn => Document.has_addModel.2 (.inr hn)
  · exact fun n hn => Document.has_addModel.2 (.inl (List.mem_singleton.1 hn).symm)

theorem shapeIn_settles {w : World} {t : TypeExpr} {container : String} {s : Schema}
    (h : shapeIn w t container p = .ok s q) (hp : p.Settled) :
    p.Settles q ∧ q.Defines s.references := by
  obtain ⟨u, r, hr, h⟩ := bind_ok.1 h
  obtain ⟨_, r', ha, h⟩ := bind_ok.1 h
  obtain ⟨rfl, rfl⟩ := pure_ok.1 h
  obtain ⟨hr, hc⟩ := resolve_settles hr hp
  obtain ⟨ha, hn⟩ := addModelsOf_settles ha hr.settled hc
  rw [Schema.references_inContainer]
  exact ⟨hr.trans ha, hn⟩

theorem responseHeaders_settles {w : World} {headers : List HeaderInfo} :
    ∀ {out result : Table Schema} {p q : Progress},
      responseHeaders w headers out p = .ok result q → p.Settled →
      p.Defines (Schema.tableReferences out) →
      p.Settles q ∧ q.Defines (Schema.tableReferences result) := by
  induction headers with
  | nil => intro out result p q h hp hd; cases h; exact ⟨hp.refl, hd⟩
  | cons e es ih =>
    intro out result p q h hp hd
    unfold responseHeaders at h
    split at h
    · exact ih h hp hd
    · obtain ⟨s, r, hs, h⟩ := bind_ok.1 h
      obtain ⟨hr, hs⟩ := shapeIn_settles hs hp
      refine (ih h hr.settled fun n hn => ?_).imp_left hr.trans
      rcases Schema.mem_tableReferences_insert hn with hn | hn
      · exact hs n (Schema.references_described s _ ▸ hn)
      · exact hr.definitions n (hd n hn)

theorem defines_setResponse {op : Operation} {code : Int} {r : Response}
    (ho : p.Defines (Document.operationReferences op))
    (hs : p.Defines (Schema.optionReferences r.shape))
    (hh : p.Defines (Schema.tableReferences r.headers)) :
    p.Defines (Document.operationReferences (op.setResponse code r)) := by
  intro n hn
  rcases Document.mem_operationReferences_setResponse hn with hn | hn | hn
  · exact ho n hn
  · exact hs n hn
  · exact hh n hn

theorem successResponse_settles {w : World} {m : Method} {headers : Table Schema}
    {op op' : Operation} (h : successResponse w m headers op p = .ok op' q) (hp : p.Settled)
    (hh : p.Defines (Schema.tableReferences headers))
    (ho : p.Defines (Document.operationReferences op)) :
    p.Settles q ∧ q.Defines (Document.operationReferences op') := by
  unfold successResponse at h
  cases ht : w.payloadType m with
  | none => rw [ht] at h; cases h; exact ⟨hp.refl, ho⟩
  | some t =>
    rw [ht] at h
    obtain ⟨s, r, hs, h⟩ := bind_ok.1 h
    cases h
    obtain ⟨hr, hs⟩ := shapeIn_settles hs hp
    refine ⟨hr, defines_setResponse (hr.defines ho) ?_ (hr.defines hh)⟩
    simpa [Schema.optionReferences] using hs

theorem declaredResponses_settles {w : World} {responses : List ResponseInfo} :
    ∀ {op op' : Operation} {p q : Progress}, declaredResponses w responses op p = .ok op' q →
      p.Settled → p.Defines (Document.operationReferences op) →
      p.Settles q ∧ q.Defines (Document.operationReferences op') := by
  induction responses with
  | nil => intro op op' p q h hp ho; cases h; exact ⟨hp.refl, ho⟩
  | cons e es ih =>
    intro op op' p q h hp ho
    obtain ⟨headers, r, hh, h⟩ := bind_ok.1 h
    obtain ⟨hr, hh⟩ := responseHeaders_settles hh hp nofun
    have store : ∀ {shape r'}, r.Settles r' → r'.Defines (Schema.optionReferences shape) →
        r'.Defines (Document.operationReferences (op.setResponse e.code
          { description := e.message, shape, headers })) := fun hr' hs =>
      defines_setResponse ((hr.trans hr').defines ho) hs (hr'.defines hh)
    split at h
    · exact (ih h hr.settled (store hr.settled.refl nofun)).imp_left hr.trans
    · obtain ⟨shape, r', hs, h⟩ := bind_ok.1 h
      obtain ⟨s, hm, rfl⟩ := map_ok.1 hs
      obtain ⟨hr', hd⟩ := shapeIn_settles hm hr.settled
      refine (ih h hr'.settled (store hr' ?_)).imp_left (hr.trans hr').trans
      simpa [Schema.optionReferences] using hd

theorem resolveArguments_settles {w : World} {arguments : List Argument} :
    ∀ {shaped : List (Argument × Schema)} {p q : Progress},
      resolveArguments w arguments p = .ok shaped q → p.Settled →
      p.Settles q ∧ ∀ e ∈ shaped, q.registry.Covers e.2 := by
  induction arguments with
  | nil => intro shaped p q h hp; cases h; exact ⟨hp.refl, nofun⟩
  | cons a rest ih =>
    intro shaped p q h hp
    obtain ⟨s, r, hs, h⟩ := bind_ok.1 h
    obtain ⟨others, r', ho, h⟩ := bind_ok.1 h
    obtain ⟨rfl, rfl⟩ := pure_ok.1 h
    obtain ⟨hr, hs⟩ := resolve_settles hs hp
    obtain ⟨hr', ho⟩ := ih ho hr.settled
    refine ⟨hr.trans hr', fun e he => ?_⟩
    rcases List.mem_cons.1 he with rfl | he
    · exact hr'.covers hs
    · exact ho e he

theorem formParameters_references {shaped : List (Argument × Schema)} {xs : List Parameter}
    (h : formParameters shaped p = .ok xs q) (hs : ∀ e ∈ shaped, e.2.references = []) :
    ∀ x ∈ xs, x.shape.references = [] := by
  intro x hx
  obtain ⟨e, he, form⟩ := exists_of_formParameters h hx
  rw [(Argument.sentAs_of_form form).shape]
  exact hs e he

theorem foldArguments_settles {shaped : List (Argument × Schema)} :
    ∀ {properties : Table Schema} {required : List String} {p q : Progress}
      {out : Table Schema × List String},
      foldArguments shaped properties required p = .ok out q → p.Settled →
      (∀ e ∈ shaped, p.registry.Covers e.2) → p.Defines (Schema.tableReferences properties) →
      (∀ n ∈ required, properties.has n) →
      p.Settles q ∧ q.Defines (Schema.tableReferences out.1) ∧ ∀ n ∈ out.2, out.1.has n := by
  induction shaped with
  | nil => intro _ _ p q out h hp _ hd hr; cases h; exact ⟨hp.refl, hd, hr⟩
  | cons e rest ih =>
    obtain ⟨a, shape⟩ := e
    intro properties required p q out h hp hs hd hr
    have hrest : ∀ e ∈ rest, p.registry.Covers e.2 := fun e he => hs e (List.mem_cons_of_mem _ he)
    unfold foldArguments at h
    cases ha : a.param with
    | none => rw [ha] at h; exact ih h hp hrest hd hr
    | some info =>
      rw [ha] at h
      obtain ⟨_, r, hm, h⟩ := bind_ok.1 h
      have hc : p.registry.Covers (if info.description = "" then shape
          else { shape with description := info.description }) := by
        have hshape := hs _ List.mem_cons_self
        split
        · exact hshape
        · exact hshape.described _
      obtain ⟨hm, hn⟩ := addModelsOf_settles hm hp hc
      refine (ih h hm.settled (fun e he => hm.covers (hrest e he)) (fun n h => ?_)
        (Schema.has_insert_of_required hr)).imp_left hm.trans
      exact (Schema.mem_tableReferences_insert h).elim (hn n) fun h => hm.definitions n (hd n h)

/-- A body parameter refers to its model. -/
theorem defines_bodyParameter {model : String} (h : p.Defines [model]) :
    p.Defines (bodyParameter model).shape.references :=
  fun n hn => h n (List.mem_singleton.2 (Schema.eq_of_mem_references_refTo hn))

theorem objectBody_settles {shaped : List (Argument × Schema)} {name reference : String}
    {x : Parameter} (h : objectBody shaped name reference p = .ok x q) (hp : p.Settled)
    (hs : ∀ e ∈ shaped, p.registry.Covers e.2) :
    p.Settles q ∧ q.Defines x.shape.references := by
  obtain ⟨⟨properties, required⟩, r, hf, h⟩ := bind_ok.1 h
  obtain ⟨_, r', hm, h⟩ := bind_ok.1 h
  obtain ⟨rfl, rfl⟩ := pure_ok.1 h
  obtain ⟨hf, hd, hr⟩ := foldArguments_settles hf hp hs nofun nofun
  obtain ⟨hm, hn⟩ := addModel_settles hm hf.settled hr
    fun n hn => hd n (Schema.mem_references_object.1 hn)
  exact ⟨hf.trans hm, defines_bodyParameter hn⟩

theorem tokenBody_settles {w : World} {m : Method} {element : TypeExpr} {x : Parameter}
    (h : tokenBody w m element p = .ok x q) (hp : p.Settled) :
    p.Settles q ∧ q.Defines x.shape.references := by
  obtain ⟨s, r, hs, h⟩ := bind_ok.1 h
  obtain ⟨hr, hs⟩ := resolve_settles hs hp
  generalize hk : s.kind = kind at h
  generalize hi : s.items = items at h
  split at h
  · obtain ⟨_, r₁, ha, h⟩ := bind_ok.1 h
    obtain ⟨_, r₂, hm, h⟩ := bind_ok.1 h
    obtain ⟨rfl, rfl⟩ := pure_ok.1 h
    obtain ⟨ha, hn⟩ := addModelsOf_settles ha hr.settled hs
    obtain ⟨hm, hm'⟩ := addModel_settles hm ha.settled nofun fun n h => by
      rw [Schema.references_arrayOf] at h
      refine hn n (Schema.mem_references.2 (.inr (.inl ?_)))
      exact Schema.mem_optionReferences.2 ⟨_, hi, h⟩
    exact ⟨(hr.trans ha).trans hm, defines_bodyParameter hm'⟩
  · cases h

theorem implicitList_references {is : List ImplicitParam} {xs : List Parameter}
    (h : implicitList is p = .ok xs q) : ∀ x ∈ xs, x.shape.references = [] := by
  intro x hx
  obtain ⟨i, _, sent⟩ := exists_of_implicitList h hx
  rw [sent.shape]
  exact Primitive.references_schema i.typeName

theorem foldImplicit_ok {is : List ImplicitParam} :
    ∀ {properties : Table Schema} {required : List String} {p q : Progress}
      {out : Table Schema × List String}, foldImplicit is properties required p = .ok out q →
      (∀ n ∈ required, properties.has n) → Schema.tableReferences properties = [] →
      Schema.tableReferences out.1 = [] ∧ ∀ n ∈ out.2, out.1.has n := by
  induction is with
  | nil => intro _ _ p q out h hr hn; cases h; exact ⟨hn, hr⟩
  | cons i is ih =>
    intro properties required p q out h hr hn
    obtain ⟨s, r, hs, h⟩ := bind_ok.1 h
    rw [reported_apply] at hs
    obtain ⟨rfl, _⟩ := EStateM.Result.ok.inj hs
    refine ih h (Schema.has_insert_of_required hr) (List.eq_nil_iff_forall_not_mem.2 fun n h => ?_)
    rcases Schema.mem_tableReferences_insert h with h | h
    · have plain := Primitive.references_schema i.typeName
      cases hs : (Primitive.schema i.typeName).1
      rw [hs] at h plain
      exact List.not_mem_nil (plain ▸ h)
    · exact List.not_mem_nil (hn ▸ h)

/-- What the shapes of parameters refer to. -/
def parameterReferences (xs : List Parameter) : List String :=
  xs.flatMap fun x => x.shape.references

theorem defines_parameters_of_plain {xs : List Parameter}
    (h : ∀ x ∈ xs, x.shape.references = []) : p.Defines (parameterReferences xs) :=
  .of_nil (List.flatMap_eq_nil_iff.2 h)

theorem defines_singleton {x : Parameter} (h : p.Defines x.shape.references) :
    p.Defines (parameterReferences [x]) := by
  simpa [parameterReferences] using h

theorem implicitParameters_settles {m : Method} {xs : List Parameter}
    (h : implicitParameters m p = .ok xs q) (hp : p.Settled) :
    p.Settles q ∧ q.Defines (parameterReferences xs) := by
  unfold implicitParameters at h
  split at h
  · obtain ⟨⟨properties, required⟩, r, hf, h⟩ := bind_ok.1 h
    obtain ⟨_, r', hm, h⟩ := bind_ok.1 h
    obtain ⟨rfl, rfl⟩ := pure_ok.1 h
    have hr := settles_of_keeps (fun hR => foldImplicit_keeps hR _ _ _) hf hp
    obtain ⟨hn, hown⟩ := foldImplicit_ok hf nofun rfl
    obtain ⟨hm, hd⟩ := addModel_settles hm hr.settled hown
      fun n h => absurd (hn ▸ Schema.mem_references_object.1 h) List.not_mem_nil
    exact ⟨hr.trans hm, defines_singleton (defines_bodyParameter hd)⟩
  · exact ⟨settles_of_keeps (fun hR => implicitList_keeps hR _) h hp,
      defines_parameters_of_plain (implicitList_references h)⟩

/-- The arguments are found without a change of the state. -/
theorem candidates_ok {m : Method} {found : List Argument × String × String}
    (h : candidates m p = .ok found q) : p = q ∧ found.1 = m.requestArguments := by
  unfold candidates at h
  unfold Method.requestArguments
  cases hb : m.requestBody with
  | none =>
    rw [hb] at h
    obtain ⟨rfl, hq⟩ := pure_ok.1 h
    exact ⟨hq, rfl⟩
  | some body =>
    rw [hb] at h
    obtain ⟨p', r, hg, h⟩ := bind_ok.1 h
    obtain ⟨rfl, rfl⟩ := get_ok.1 hg
    generalize (p.document.definitions.get? body.name).bind Schema.reference = existing at h
    cases existing with
    | none =>
      obtain ⟨rfl, hq⟩ := pure_ok.1 h
      exact ⟨hq, rfl⟩
    | some existing =>
      simp only at h
      split at h
      · cases h
      · obtain ⟨rfl, hq⟩ := pure_ok.1 h
        exact ⟨hq, rfl⟩

theorem classify_settles {w : World} {m : Method} {xs : List Parameter}
    (h : classify w m p = .ok xs q) (hp : p.Settled) :
    p.Settles q ∧ q.Defines (parameterReferences xs) := by
  unfold classify at h
  cases he : m.requestElement with
  | some e =>
    rw [he] at h
    obtain ⟨x, r, hx, h⟩ := bind_ok.1 h
    obtain ⟨rfl, rfl⟩ := pure_ok.1 h
    exact (tokenBody_settles hx hp).imp_right defines_singleton
  | none =>
    rw [he] at h
    obtain ⟨⟨arguments, name, reference⟩, r, hc, h⟩ := bind_ok.1 h
    obtain ⟨rfl, _⟩ := candidates_ok hc
    cases arguments with
    | nil => cases h; exact ⟨hp.refl, nofun⟩
    | cons first rest =>
      simp only at h
      split at h
      · obtain ⟨shaped, r', hs, h⟩ := bind_ok.1 h
        obtain ⟨hr, hs⟩ := resolveArguments_settles hs hp
        split at h
        · rename_i simple
          have hrefs : ∀ e ∈ shaped, e.2.references = [] := fun e he =>
            (hs e he).simple (List.all_eq_true.1 simple e he)
          have hf := settles_of_keeps (fun hR => formParameters_keeps hR _) h hr.settled
          exact ⟨hr.trans hf, defines_parameters_of_plain (formParameters_references h hrefs)⟩
        · obtain ⟨x, r'', hx, h⟩ := bind_ok.1 h
          obtain ⟨rfl, rfl⟩ := pure_ok.1 h
          obtain ⟨hb, hd⟩ := objectBody_settles hx hr.settled hs
          exact ⟨hr.trans hb, defines_singleton hd⟩
      · split at h
        · exact implicitParameters_settles h hp
        · cases h

/-- What a built operation refers to is defined. -/
theorem build_settles {w : World} {m : Method} {built : Option Operation}
    (h : build w m p = .ok built q) (hp : p.Settled) :
    p.Settles q ∧ ∀ op, built = some op → q.Defines (Document.operationReferences op) := by
  unfold build at h
  split at h
  · cases h
    exact ⟨hp.refl, nofun⟩
  · obtain ⟨headers, p₁, hh, h⟩ := bind_ok.1 h
    obtain ⟨op₁, p₂, hs, h⟩ := bind_ok.1 h
    obtain ⟨op₂, p₃, hd, h⟩ := bind_ok.1 h
    obtain ⟨parameters, p₄, hc, h⟩ := bind_ok.1 h
    obtain ⟨rfl, rfl⟩ := pure_ok.1 h
    obtain ⟨hh, hn⟩ := responseHeaders_settles hh hp nofun
    obtain ⟨hs, ho⟩ := successResponse_settles hs hh.settled hn <| .of_nil <|
      Document.operationReferences_congr
        (foldl_component Operation.parameters Operation.addSecurity (fun _ _ => rfl) _ _)
        (foldl_component Operation.responses Operation.addSecurity (fun _ _ => rfl) _ _)
    obtain ⟨hd, ho⟩ := declaredResponses_settles hd hs.settled ho
    obtain ⟨hc, hx⟩ := classify_settles hc hd.settled
    refine ⟨((hh.trans hs).trans hd).trans hc, ?_⟩
    have defined : p₄.Defines (Document.operationReferences { op₂ with parameters }) := by
      intro n hn
      rcases Document.mem_operationReferences.1 hn with ⟨x, hx', hn⟩ | hn
      · exact hx n (List.mem_flatMap.2 ⟨x, hx', hn⟩)
      · exact hc.definitions n (ho n (Document.mem_operationReferences.2 (.inr hn)))
    rintro op rfl'
    obtain rfl := Option.some.inj rfl'
    split
    · exact defines_setResponse defined nofun nofun
    · exact defined

end Run

end ApiCompiler
