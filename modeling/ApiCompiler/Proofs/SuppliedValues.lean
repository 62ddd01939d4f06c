import ApiCompiler.Proofs.Parameters
import ApiCompiler.Proofs.Rebuilding
import ApiCompiler.Proofs.RenderedValues

/-!
# Values that a method supplies

The values that building a method can bring into a document are known without a run: what the
literal types and the enumerations list that resolution comes to, and the defaults of arguments and
implicit parameters. Where all of these are given ones, building leaves only given values in the
registry and in the document, if only given ones were there before.
-/

set_option autoImplicit false

namespace ApiCompiler

/-- A type that is not overridden lists a value itself. -/
inductive World.Lists (w : World) (o : Overrides) (t : TypeExpr) : Value → Prop
  | literal {values : List Scalar} {s : Scalar} (ho : o.find? t.bare = none)
      (ht : t.bare = .literal values) (hs : s ∈ values) : Lists w o t (.scalar s)
  | member {c : ClassDecl} {v : Value} (ho : o.find? t.bare = none)
      (ht : w.isEnumeration t.bare = true) (hc : (w.declaredLineage t.bare).head? = some c)
      (hv : v ∈ c.enumValues) : Lists w o t v

/-- What the types, the arguments and the table of implicit parameters of a method bring in. -/
inductive World.SuppliedBy (w : World) (o : Overrides) (m : Method) : Value → Prop
  | listed {t : TypeExpr} {v : Value} (ht : w.Met o (w.typesOf m) t) (hv : w.Lists o t v) :
      SuppliedBy w o m v
  | argument {a : Argument} {info : ParamInfo} (ha : a ∈ m.request.1)
      (hi : a.param = some info) : SuppliedBy w o m info.default
  | implicit {i : ImplicitParam} (hi : i ∈ m.decl.implicitParams) : SuppliedBy w o m i.default

variable {given : Value → Prop}

/-! ### Schemas -/

namespace Schema

variable {s : Schema}

theorem drawsOn_primitive {kind : SchemaKind} {format : Option String} {enum : List Value}
    (h : ∀ v ∈ enum, given v) : (primitive kind format enum).DrawsOn given :=
  .intro h nofun nofun nofun nofun

theorem drawsOn_unlisted {kind : SchemaKind} {format : Option String} :
    (primitive kind format []).DrawsOn given :=
  drawsOn_primitive nofun

theorem drawsOn_refTo (name : String) : (refTo name).DrawsOn given :=
  .intro nofun nofun nofun nofun nofun

theorem drawsOn_opaqueObject : opaqueObject.DrawsOn given := .intro nofun nofun nofun nofun nofun

theorem drawsOn_object {properties : Table Schema} {required : List String}
    {reference : Option String} (h : ∀ e ∈ properties, e.2.DrawsOn given) :
    DrawsOn given { kind := .object, properties, required, reference } :=
  .intro nofun nofun nofun nofun h

namespace DrawsOn

theorem items (h : s.DrawsOn given) {t : Schema} (ht : s.items = some t) : t.DrawsOn given := by
  cases h with
  | intro _ _ items _ _ => exact items t ht

theorem properties (h : s.DrawsOn given) : ∀ e ∈ s.properties, e.2.DrawsOn given := by
  cases h with
  | intro _ _ _ _ properties => exact properties

theorem arrayOf (h : s.DrawsOn given) : (arrayOf s).DrawsOn given :=
  .intro nofun nofun (fun _ ht => Option.some.inj ht ▸ h) nofun nofun

theorem mapOf (h : s.DrawsOn given) : (mapOf s).DrawsOn given :=
  .intro nofun nofun nofun (fun _ ht => Option.some.inj ht ▸ h) nofun

theorem around (h : s.DrawsOn given) (shape : Shape) : (shape.around s).DrawsOn given := by
  cases shape with
  | array item => exact h.arrayOf
  | map value => exact h.mapOf
  | fixed | alike | model | unmappable => exact h

theorem inContainer (h : s.DrawsOn given) (hint : String) : (s.inContainer hint).DrawsOn given := by
  unfold Schema.inContainer
  extract_lets hint
  split
  · exact h.arrayOf
  · split
    · exact h.mapOf
    · exact h

theorem described (h : s.DrawsOn given) (description : String) :
    DrawsOn given { s with description } := by
  cases h with
  | intro enum default items values properties => exact .intro enum default items values properties

/-- A schema with another description, if there is one. -/
theorem describedUnless (h : s.DrawsOn given) (description : String) :
    DrawsOn given (if description = "" then s else { s with description }) := by
  split
  · exact h
  · exact h.described description

/-- A primitive schema may be given a default. -/
theorem withDefault (h : s.DrawsOn given) {access description : String} {default : Value}
    (hd : default.isNull = false → given default) :
    DrawsOn given { s with access, default, description } := by
  cases h with
  | intro enum _ items values properties => exact .intro enum hd items values properties

theorem unite {old : Schema} (ho : old.DrawsOn given) (h : s.DrawsOn given) :
    (Document.unite old s).DrawsOn given := by
  cases h with
  | intro enum default items values properties =>
    exact .intro enum default items values (Table.forall_merge ho.properties properties)

end DrawsOn

end Schema

theorem Primitive.drawsOn_find {name : String} {s : Schema} (h : find? name = some s) :
    s.DrawsOn given := by
  unfold find? at h
  dsimp only at h
  split at h
  · rw [← Option.some.inj h]
    exact Schema.drawsOn_opaqueObject
  · obtain ⟨_, _, rfl⟩ := Option.map_eq_some_iff.1 h
    exact Schema.drawsOn_unlisted

theorem Primitive.drawsOn_schema (name : String) : (schema name).1.DrawsOn given := by
  unfold schema
  split
  · rename_i s hs
    exact drawsOn_find hs
  · exact Schema.drawsOn_unlisted

theorem Run.drawsOn_objectModel {name : String} {known : Option Schema} {properties : Table Schema}
    {required : List String} (hk : ∀ old, known = some old → old.DrawsOn given)
    (hp : ∀ e ∈ properties, e.2.DrawsOn given) :
    (objectModel name known properties required).DrawsOn given := by
  cases known with
  | none => exact Schema.drawsOn_object hp
  | some old => exact Schema.drawsOn_object (Table.forall_merge (hk old rfl).properties hp)

/-! ### Types -/

namespace World

variable {w : World} {o : Overrides} {t u : TypeExpr} {s : Schema}

/-- A class that is no enumeration has a schema without values. -/
theorem drawsOn_primitiveSchema (h : w.primitiveSchema? t = some s) : s.DrawsOn given := by
  unfold primitiveSchema? at h
  split at h
  · cases h
  · split at h
    · cases h
      exact Schema.drawsOn_unlisted
    · split at h
      · cases h
        exact Schema.drawsOn_unlisted
      · cases h

theorem drawsOn_enumerationSchema (ho : o.find? t.bare = none)
    (hl : ∀ v, w.Lists o t v → given v) (h : w.enumerationSchema? t.bare = some s) :
    s.DrawsOn given := by
  unfold enumerationSchema? at h
  split at h
  · rename_i enumeration
    cases h
    refine Schema.drawsOn_primitive fun v hv => ?_
    cases hc : (w.declaredLineage t.bare).head? with
    | none => rw [hc] at hv; cases hv
    | some c => rw [hc] at hv; exact hl v (.member ho enumeration hc hv)
  · cases h

/-- A schema that stands by itself has only values that its type lists. -/
theorem drawsOn_ownShape (ho : o.find? t.bare = none) (hl : ∀ v, w.Lists o t v → given v)
    (h : w.ownShape t.bare = .fixed s) : s.DrawsOn given := by
  unfold ownShape at h
  split at h
  any_goals cases h
  · rename_i values literal
    refine Schema.drawsOn_primitive fun v hv => ?_
    obtain ⟨x, hx, rfl⟩ := List.mem_map.1 hv
    exact hl _ (.literal ho literal hx)
  · split at h
    · cases h
      rename_i hs
      rw [Option.orElse_eq_orElse, Option.orElse_eq_or, Option.or_eq_some_iff] at hs
      rcases hs with hs | ⟨_, hs⟩
      · exact drawsOn_enumerationSchema ho hl hs
      · exact drawsOn_primitiveSchema hs
    · split at h
      · cases h
        exact Schema.drawsOn_unlisted
      · split at h
        · cases h
        · split at h
          · split at h <;> cases h
          · cases h
      · cases h

theorem drawsOn_shape (hn : ∀ e ∈ o, e.2.DrawsOn given) (hl : ∀ v, w.Lists o t v → given v)
    (h : w.shape o t = .fixed s) : s.DrawsOn given := by
  unfold shape at h
  split at h
  · cases h
  · cases h
  · split at h
    · cases h
    · split at h
      · split at h <;> cases h
      · split at h <;> cases h
      · split at h
        · cases h
          rename_i hs
          obtain ⟨e, he, rfl⟩ := Option.map_eq_some_iff.1 hs
          exact hn e (List.mem_of_find?_eq_some he)
        · rename_i ho
          exact drawsOn_ownShape ho hl h

theorem drawsOn_flat (hn : ∀ e ∈ o, e.2.DrawsOn given) (hl : ∀ v, w.Lists o t v → given v)
    (h : (w.shape o t).flat? = some s) : s.DrawsOn given := by
  cases hs : w.shape o t with
  | fixed r =>
    rw [hs] at h
    cases h
    exact drawsOn_shape hn hl hs
  | array item =>
    rw [hs] at h
    cases item <;> cases h
    exact Schema.drawsOn_opaqueObject.arrayOf
  | map value =>
    rw [hs] at h
    cases value <;> cases h
    exact Schema.drawsOn_opaqueObject.mapOf
  | unmappable reason =>
    rw [hs] at h
    cases h
    exact Schema.drawsOn_opaqueObject
  | alike | model =>
    rw [hs] at h
    cases h

/-- What the types list that resolution comes to from a type is given. -/
def ListsGiven (w : World) (o : Overrides) (given : Value → Prop) (t : TypeExpr) : Prop :=
  ∀ ⦃u⦄, Relation.ReflTransGen (w.Descends o) t u → ∀ v, w.Lists o u v → given v

theorem ListsGiven.descends (h : w.ListsGiven o given t) (hd : w.Descends o t u) :
    w.ListsGiven o given u :=
  fun _ hu => h (.head hd hu)

end World

/-! ### Resolving -/

/-- The registry has the overrides, and every value in it and in the document is given. -/
structure Progress.DrawsOn (given : Value → Prop) (o : Overrides) (p : Progress) : Prop where
  overrides : p.registry.overrides = o
  named : ∀ e ∈ o, e.2.DrawsOn given
  models : ∀ e ∈ p.registry.models, e.2.DrawsOn given
  document : p.document.DrawsOn given

theorem Progress.DrawsOn.of_eq {o : Overrides} {p q : Progress} (h : p.DrawsOn given o)
    (hr : q.registry = p.registry) (hd : q.document = p.document) : q.DrawsOn given o :=
  ⟨hr ▸ h.overrides, h.named, hr ▸ h.models, hd ▸ h.document⟩

namespace Run

variable {w : World} {o : Overrides} {α β : Type} {x : Run α}

/-- A step that succeeds leaves only given values in the state, and its result has a property. -/
def Delivers (given : Value → Prop) (o : Overrides) (x : Run α) (P : α → Prop) : Prop :=
  ∀ ⦃p q a⦄, p.DrawsOn given o → x p = .ok a q → q.DrawsOn given o ∧ P a

namespace Delivers

variable {P : α → Prop} {Q : β → Prop} {f : α → Run β}

theorem bind (hx : Delivers given o x P) (hf : ∀ a, P a → Delivers given o (f a) Q) :
    Delivers given o (x >>= f) Q := by
  intro p r b hp h
  obtain ⟨a, q, ha, h⟩ := bind_ok.1 h
  obtain ⟨hq, pa⟩ := hx hp ha
  exact hf a pa hq h

theorem pure {a : α} (h : P a) : Delivers given o (pure a) P := by
  intro p q b hp hb
  obtain ⟨rfl, rfl⟩ := pure_ok.1 hb
  exact ⟨hp, h⟩

theorem throw (e : Failure) : Delivers given o (throw e : Run α) P := nofun

theorem of_reports {a : α} (hx : Reports x a) (h : P a) : Delivers given o x P := by
  intro p q b hp hb
  obtain ⟨notices, h'⟩ := hx p
  obtain ⟨rfl, rfl⟩ := EStateM.Result.ok.inj (h'.symm.trans hb)
  exact ⟨hp.of_eq rfl rfl, h⟩

theorem report (n : Notice) : Delivers given o (report n) fun _ => True :=
  .of_reports (.report n) trivial

end Delivers

theorem resolveFields_delivers {f : TypeExpr → Run Schema} {fields : List ModelField}
    (hf : ∀ m ∈ fields, Delivers given o (f m.type) (Schema.DrawsOn given)) :
    ∀ {properties : Table Schema} {required : List String},
      (∀ e ∈ properties, e.2.DrawsOn given) →
      Delivers given o (resolveFields f fields properties required)
        fun out => ∀ e ∈ out.1, e.2.DrawsOn given := by
  induction fields with
  | nil => exact fun hp => .pure hp
  | cons m ms ih =>
    intro properties required hp
    obtain ⟨first, rest⟩ := List.forall_mem_cons.1 hf
    exact first.bind fun s hs => ih rest (Table.forall_insert hp (hs.describedUnless m.description))

theorem buildModel_delivers {f : TypeExpr → Run Schema} {fields : List ModelField}
    (hf : ∀ m ∈ fields, Delivers given o (f m.type) (Schema.DrawsOn given)) (t : TypeExpr)
    (name : String) : Delivers given o (buildModel f t name fields) fun _ => True := by
  intro p q u hp h
  obtain ⟨properties, required, r, hr, rfl⟩ := buildModel_iff.1 h
  have pushed : Progress.DrawsOn given o
      { p with registry.resolving := name :: p.registry.resolving } :=
    ⟨hp.overrides, hp.named, hp.models, hp.document⟩
  obtain ⟨hr, made⟩ := resolveFields_delivers hf (List.forall_mem_nil _) pushed hr
  have model : (objectModel name (p.registry.models.get? name) properties required).DrawsOn given :=
    drawsOn_objectModel (fun _ hold => hp.models _ (Table.mem_of_get? hold)) made
  exact ⟨⟨hr.overrides, hr.named, Table.forall_insert hr.models model, hr.document⟩, trivial⟩

theorem untyped_delivers (t : TypeExpr) (reason : String) :
    Delivers given o (untyped w t reason) (Schema.DrawsOn given) :=
  (Delivers.report _).bind fun _ _ => .pure Schema.drawsOn_opaqueObject

theorem resolveModel_delivers {f : TypeExpr → Run Schema} {t : TypeExpr}
    (hf : ∀ fields, w.fieldsOf t = .ok fields → ∀ m ∈ fields,
      Delivers given o (f m.type) (Schema.DrawsOn given)) :
    Delivers given o (resolveModel w f t) (Schema.DrawsOn given) := by
  intro p q s hp h
  cases hn : w.modelName t with
  | error e =>
    unfold resolveModel at h
    rw [bind_of_error (ofExcept_error.2 ⟨hn, rfl⟩)] at h
    cases h
  | ok name =>
    rw [resolveModel_apply hn] at h
    split at h
    · cases h
      exact ⟨hp, Schema.drawsOn_refTo name⟩
    · cases hfields : w.fieldsOf t with
      | error reason =>
        rw [hfields] at h
        exact untyped_delivers t reason hp h
      | ok fields =>
        rw [hfields] at h
        have built := buildModel_delivers (hf fields hfields) t name
        exact (built.bind fun _ _ => .pure (Schema.drawsOn_refTo name)) hp h

/-- Resolving goes down along the types that the type leads to, each of which is covered. -/
theorem resolveWithin_delivers (bound : Nat) :
    ∀ {t : TypeExpr}, w.ListsGiven o given t →
      Delivers given o (resolveWithin w bound t) (Schema.DrawsOn given) := by
  induction bound with
  | zero => exact fun _ => .throw _
  | succ bound ih =>
    intro t ht p q s hp h
    have h : resolveShape w (resolveWithin w bound) t p = .ok s q := h
    rcases resolveShape_cases h with ⟨u, r, hu, hr, rfl⟩ | ⟨hm, hmodel⟩ | ⟨hflat, notices, rfl⟩
    · rw [hp.overrides] at hu
      obtain ⟨hq, hr⟩ := ih (ht.descends (.part hu)) hp hr
      exact ⟨hq, hr.around _⟩
    · rw [hp.overrides] at hm
      refine resolveModel_delivers (fun fields found m hmem => ih (ht.descends ?_)) hp hmodel
      exact .field ⟨hm, found⟩ hmem
    · rw [hp.overrides] at hflat
      exact ⟨hp.of_eq rfl rfl, World.drawsOn_flat hp.named (ht .refl) hflat⟩

theorem resolve_delivers {t : TypeExpr} (ht : w.ListsGiven o given t) :
    Delivers given o (resolve w t) (Schema.DrawsOn given) :=
  resolveWithin_delivers nestingBound ht

/-! ### Building -/

theorem addModels_drawsOn {d : Document} {models : Table Schema} (hd : d.DrawsOn given)
    (hm : ∀ e ∈ models, e.2.DrawsOn given) : (d.addModels models).1.DrawsOn given where
  definitions := Document.forall_addModels (fun _ _ ho hs => ho.unite hs) hd.definitions hm
  operations := by
    obtain ⟨definitions, hdoc⟩ := Document.addModels_document models d
    rw [hdoc]
    exact hd.operations

theorem addModelsOf_delivers (s : Schema) : Delivers given o (addModelsOf s) fun _ => True := by
  intro p q u hp h
  rw [addModelsOf_apply] at h
  obtain ⟨_, rfl⟩ := EStateM.Result.ok.inj h
  have registered : ∀ e ∈ p.registry.modelsFor s, e.2.DrawsOn given :=
    fun e he => hp.models e ((Registry.mem_reachable he).resolve_left List.not_mem_nil)
  have added := addModels_drawsOn hp.document registered
  exact ⟨⟨hp.overrides, hp.named, hp.models, added⟩, trivial⟩

theorem addModel_delivers {name : String} {model : Schema} (hm : model.DrawsOn given) :
    Delivers given o (onDocument fun d => d.addModel name model) fun _ => True := by
  intro p q u hp h
  rw [onDocument_apply] at h
  obtain ⟨_, rfl⟩ := EStateM.Result.ok.inj h
  have added : (p.document.addModels [(name, model)]).1.DrawsOn given :=
    addModels_drawsOn hp.document fun e he => List.mem_singleton.1 he ▸ hm
  exact ⟨⟨hp.overrides, hp.named, hp.models, added⟩, trivial⟩

theorem shapeIn_delivers {t : TypeExpr} (ht : w.ListsGiven o given t) (container : String) :
    Delivers given o (shapeIn w t container) (Schema.DrawsOn given) :=
  (resolve_delivers ht).bind fun s hs => (addModelsOf_delivers s).bind fun _ _ =>
    .pure (hs.inContainer container)

theorem responseHeaders_delivers {headers : List HeaderInfo}
    (ht : ∀ t ∈ World.headerTypes headers, w.ListsGiven o given t) :
    ∀ {out : Table Schema}, (∀ e ∈ out, e.2.DrawsOn given) →
      Delivers given o (responseHeaders w headers out) fun out => ∀ e ∈ out, e.2.DrawsOn given := by
  induction headers with
  | nil => exact fun hout => .pure hout
  | cons h hs ih =>
    intro out hout
    have rest : ∀ t ∈ World.headerTypes hs, w.ListsGiven o given t :=
      fun t hmem => ht t (World.headerTypes_cons_subset h hs hmem)
    unfold responseHeaders
    split
    · exact ih rest hout
    · rename_i named
      have shape := shapeIn_delivers (ht _ (World.type_mem_headerTypes named hs)) h.container
      exact shape.bind fun s hs => ih rest (Table.forall_insert hout (hs.described h.description))

theorem drawsOn_setResponse {op : Operation} (ho : op.DrawsOn given) (code : Int) {r : Response}
    (hr : r.DrawsOn given) : (op.setResponse code r).DrawsOn given where
  parameters := ho.parameters
  responses := Table.forall_insert ho.responses hr

theorem successResponse_delivers {m : Method} (ht : ∀ t ∈ w.payloadType m, w.ListsGiven o given t)
    {headers : Table Schema} (hh : ∀ e ∈ headers, e.2.DrawsOn given) {op : Operation}
    (ho : op.DrawsOn given) :
    Delivers given o (successResponse w m headers op) (Operation.DrawsOn given) := by
  unfold successResponse
  cases hp : w.payloadType m with
  | none => exact .pure ho
  | some t =>
    refine (shapeIn_delivers (ht t hp) _).bind fun s hs => .pure (drawsOn_setResponse ho 200 ?_)
    exact ⟨fun _ hsome => Option.some.inj hsome ▸ hs, hh⟩

theorem declaredResponses_delivers {responses : List ResponseInfo}
    (ht : ∀ t ∈ responses.flatMap World.responseTypes, w.ListsGiven o given t) :
    ∀ {op : Operation}, op.DrawsOn given →
      Delivers given o (declaredResponses w responses op) (Operation.DrawsOn given) := by
  induction responses with
  | nil => exact fun ho => .pure ho
  | cons r rs ih =>
    intro op ho
    rw [List.flatMap_cons] at ht
    have rest : ∀ t ∈ rs.flatMap World.responseTypes, w.ListsGiven o given t :=
      fun t h => ht t (List.mem_append_right _ h)
    have own : ∀ t ∈ World.responseTypes r, w.ListsGiven o given t :=
      fun t h => ht t (List.mem_append_left _ h)
    unfold declaredResponses
    refine (responseHeaders_delivers (fun t h => own t (List.mem_append_left _ h))
      (List.forall_mem_nil _)).bind fun headers hh => ?_
    have stored : ∀ shape : Option Schema, (∀ s, shape = some s → s.DrawsOn given) →
        Operation.DrawsOn given
          (op.setResponse r.code { description := r.message, shape, headers }) :=
      fun _ hs => drawsOn_setResponse ho r.code ⟨hs, hh⟩
    split
    · exact ih rest (stored none fun _ h => by cases h)
    · rename_i content
      have shape := shapeIn_delivers (own _ (World.type_mem_responseTypes content)) r.container
      refine Delivers.bind (P := fun shape => ∀ s, shape = some s → s.DrawsOn given) ?_
        fun shape hs => ih rest (stored shape hs)
      exact shape.bind fun s hs => .pure fun _ hsome => Option.some.inj hsome ▸ hs

theorem resolveArguments_delivers {arguments : List Argument}
    (ht : ∀ a ∈ arguments, w.ListsGiven o given a.annotation) :
    Delivers given o (resolveArguments w arguments)
      fun shaped => shaped.map Prod.fst = arguments ∧ ∀ e ∈ shaped, e.2.DrawsOn given := by
  induction arguments with
  | nil => exact .pure ⟨rfl, nofun⟩
  | cons a rest ih =>
    obtain ⟨first, others⟩ := List.forall_mem_cons.1 ht
    refine (resolve_delivers first).bind fun s hs => (ih others).bind fun shaped hshaped => ?_
    exact .pure ⟨by rw [List.map_cons, hshaped.1], List.forall_mem_cons.2 ⟨hs, hshaped.2⟩⟩

theorem foldArguments_delivers {shaped : List (Argument × Schema)}
    (hs : ∀ e ∈ shaped, e.2.DrawsOn given) :
    ∀ {properties : Table Schema} {required : List String},
      (∀ e ∈ properties, e.2.DrawsOn given) →
      Delivers given o (foldArguments shaped properties required)
        fun out => ∀ e ∈ out.1, e.2.DrawsOn given := by
  induction shaped with
  | nil => exact fun hp => .pure hp
  | cons e rest ih =>
    intro properties required hp
    obtain ⟨first, others⟩ := List.forall_mem_cons.1 hs
    unfold foldArguments
    split
    · exact ih others hp
    · rename_i info _
      exact (addModelsOf_delivers _).bind fun _ _ =>
        ih others (Table.forall_insert hp (first.describedUnless info.description))

theorem bodyParameter_drawsOn (model : String) : (bodyParameter model).DrawsOn given :=
  ⟨nofun, Schema.drawsOn_refTo model⟩

theorem objectBody_delivers {shaped : List (Argument × Schema)}
    (hs : ∀ e ∈ shaped, e.2.DrawsOn given) (name reference : String) :
    Delivers given o (objectBody shaped name reference) (Parameter.DrawsOn given) :=
  (foldArguments_delivers hs (List.forall_mem_nil _)).bind fun _ hp =>
    (addModel_delivers (Schema.drawsOn_object hp)).bind fun _ _ =>
      .pure (bodyParameter_drawsOn name)

theorem tokenBody_delivers {m : Method} {element : TypeExpr}
    (ht : w.ListsGiven o given element) :
    Delivers given o (tokenBody w m element) (Parameter.DrawsOn given) := by
  refine (resolve_delivers ht).bind fun s hs => ?_
  split
  · rename_i items _ hi
    exact (addModelsOf_delivers s).bind fun _ _ =>
      (addModel_delivers (hs.items hi).arrayOf).bind fun _ _ => .pure (bodyParameter_drawsOn _)
  · exact .throw _

theorem form_drawsOn {a : Argument} {shape : Schema} {x : Parameter} (hs : shape.DrawsOn given)
    (hd : ∀ info, a.param = some info → given info.default) (h : a.form? shape = some x) :
    x.DrawsOn given := by
  obtain ⟨info, hinfo, rfl⟩ := Option.map_eq_some_iff.1 h
  exact ⟨fun _ => hd info hinfo, hs⟩

theorem implicitForm_drawsOn {i : ImplicitParam} {x : Parameter} (hd : given i.default)
    (h : i.form? = some x) : x.DrawsOn given := by
  obtain ⟨location, _, rfl⟩ := Option.map_eq_some_iff.1 h
  refine ⟨fun _ => hd, ?_⟩
  dsimp only
  exact Primitive.drawsOn_schema i.typeName

theorem foldedImplicit_drawsOn {is : List ImplicitParam} (hd : ∀ i ∈ is, given i.default) :
    ∀ {properties : Table Schema} {required : List String},
      (∀ e ∈ properties, e.2.DrawsOn given) →
      ∀ e ∈ (foldedImplicit is properties required).1, e.2.DrawsOn given := by
  induction is with
  | nil => exact fun hp => hp
  | cons i is ih =>
    intro properties required hp
    obtain ⟨first, rest⟩ := List.forall_mem_cons.1 hd
    have plain : ((Primitive.schema i.typeName).1).DrawsOn given := Primitive.drawsOn_schema _
    unfold foldedImplicit
    generalize (Primitive.schema i.typeName).1 = s at plain ⊢
    exact ih rest (Table.forall_insert hp (plain.withDefault fun _ => first))

theorem implicitParameters_delivers {m : Method}
    (hd : ∀ i ∈ m.decl.implicitParams, given i.default) :
    Delivers given o (implicitParameters m) fun xs => ∀ x ∈ xs, x.DrawsOn given := by
  unfold implicitParameters
  extract_lets implicit
  split
  · have folded : Delivers given o (foldImplicit implicit [] [])
        fun out => ∀ e ∈ out.1, e.2.DrawsOn given :=
      .of_reports (foldImplicit_reports implicit [] [])
        (foldedImplicit_drawsOn hd (List.forall_mem_nil _))
    refine folded.bind fun _ hp => ?_
    refine (addModel_delivers (Schema.drawsOn_object hp)).bind fun _ _ => .pure fun x hx => ?_
    exact List.mem_singleton.1 hx ▸ bodyParameter_drawsOn _
  · refine .of_reports (implicitList_forms implicit) fun x hx => ?_
    obtain ⟨i, hi, form⟩ := List.mem_filterMap.1 hx
    exact implicitForm_drawsOn (hd i hi) form

theorem request_arguments (m : Method) : m.request.1 = m.requestArguments := by
  unfold Method.request Method.requestArguments
  cases m.requestBody <;> rfl

section Method

variable {m : Method} (hm : ∀ v, w.SuppliedBy o m v → given v)
include hm

/-- What the types of a method list is supplied by it. -/
theorem listsGiven {t : TypeExpr} (ht : t ∈ w.typesOf m) : w.ListsGiven o given t :=
  fun _ hu v hv => hm v (.listed ⟨t, ht, hu⟩ hv)

theorem classify_delivers :
    Delivers given o (classify w m) fun xs => ∀ x ∈ xs, x.DrawsOn given := by
  have ht : ∀ t ∈ m.requestTypes, w.ListsGiven o given t :=
    fun t h => listsGiven hm (List.mem_append_right _ h)
  unfold classify
  unfold Method.requestTypes at ht
  rw [request_arguments] at ht
  cases he : m.requestElement with
  | some e =>
    rw [he] at ht
    exact (tokenBody_delivers (ht e (List.mem_singleton_self e))).bind fun x hx =>
      .pure fun _ hmem => List.mem_singleton.1 hmem ▸ hx
  | none =>
    rw [he] at ht
    have found : Delivers given o (candidates m) fun found => found.1 = m.requestArguments := by
      intro p q found hp h
      obtain ⟨rfl, arguments⟩ := candidates_ok h
      exact ⟨hp, arguments⟩
    refine found.bind fun found hfound => ?_
    obtain ⟨arguments, name, reference⟩ := found
    have defaults : ∀ a ∈ arguments, ∀ info, a.param = some info → given info.default := by
      intro a ha info hi
      exact hm _ (.argument (by rw [request_arguments, ← hfound]; exact ha) hi)
    rw [← hfound] at ht
    cases arguments with
    | nil => exact .pure nofun
    | cons first rest =>
      simp only at ht ⊢
      split
      · rename_i annotated
        rw [if_pos annotated] at ht
        refine (resolveArguments_delivers fun a ha => ht _ (List.mem_map_of_mem ha)).bind
          fun shaped hshaped => ?_
        split
        · refine .of_reports (formParameters_reports shaped) fun x hx => ?_
          obtain ⟨e, he, form⟩ := List.mem_filterMap.1 hx
          refine form_drawsOn (hshaped.2 e he) (defaults e.1 ?_) form
          exact hshaped.1 ▸ List.mem_map_of_mem he
        · exact (objectBody_delivers hshaped.2 name reference).bind fun x hx =>
            .pure fun _ hmem => List.mem_singleton.1 hmem ▸ hx
      · split
        · exact implicitParameters_delivers fun i hi => hm _ (.implicit hi)
        · exact .throw _

/-- Building the operation of a method whose supplied values are given leaves given values only. -/
theorem build_delivers :
    Delivers given o (build w m) fun built => ∀ op, built = some op → op.DrawsOn given := by
  have lists : ∀ t ∈ w.typesOf m, w.ListsGiven o given t := fun t h => listsGiven hm h
  unfold World.typesOf at lists
  simp only [List.mem_append, Option.mem_toList] at lists
  unfold build
  extract_lets info op op'
  split
  · exact .pure nofun
  · have start : op'.DrawsOn given := by
      rw [show op' = _ from Operation.foldl_addSecurity info.authorizations op]
      exact ⟨nofun, nofun⟩
    refine (responseHeaders_delivers (fun t h => lists t (.inl (.inl (.inl h))))
      (List.forall_mem_nil _)).bind fun headers hh => ?_
    refine (successResponse_delivers (fun t h => lists t (.inl (.inl (.inr h)))) hh start).bind
      fun op₁ h₁ => ?_
    have typed : Operation.DrawsOn given
        { op₁ with consumes := m.decl.consumes, produces := m.decl.produces } :=
      ⟨h₁.parameters, h₁.responses⟩
    refine (declaredResponses_delivers (fun t h => lists t (.inl (.inr h))) typed).bind
      fun op₂ h₂ => ?_
    refine (classify_delivers hm).bind fun parameters hparameters => .pure fun built hbuilt => ?_
    have placed : Operation.DrawsOn given { op₂ with parameters } := ⟨hparameters, h₂.responses⟩
    obtain rfl := Option.some.inj hbuilt
    split
    · exact drawsOn_setResponse placed 0 ⟨nofun, nofun⟩
    · exact placed

end Method

end Run

end ApiCompiler
