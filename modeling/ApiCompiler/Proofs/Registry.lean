import ApiCompiler.Resolution.Resolve
import ApiCompiler.Proofs.Definitions
import ApiCompiler.Proofs.Denotation
import ApiCompiler.Proofs.Steps

/-!
# The registry of models

A reference to a model is handed out before the model exists, while its fields are being resolved.
`Registry.Sound` allows this: the models refer to names that have a model or are being built, and
once nothing is being built every reference has a model. Resolution preserves it whatever the types
are, recursive models and distinct types of one name included.
-/

set_option autoImplicit false

namespace ApiCompiler

namespace Registry

/-- A name that a reference may carry: it has a model, or one is being built. -/
def Known (r : Registry) (name : String) : Prop := r.models.has name ∨ name ∈ r.resolving

structure Sound (r : Registry) : Prop where
  overrides : ∀ e ∈ r.overrides, e.2.references = []
  references : ∀ e ∈ r.models, ∀ n ∈ e.2.references, r.Known n
  required : ∀ e ∈ r.models, e.2.RequiresOwn

/-- No model is lost, and the same names are being built. -/
structure Grows (r r' : Registry) : Prop where
  models : ∀ n, r.models.has n → r'.models.has n
  resolving : r'.resolving = r.resolving

theorem Grows.refl (r : Registry) : r.Grows r := ⟨fun _ h => h, rfl⟩

theorem Grows.trans {r r' r'' : Registry} (h : r.Grows r') (h' : r'.Grows r'') : r.Grows r'' :=
  ⟨fun n hn => h'.models n (h.models n hn), h'.resolving.trans h.resolving⟩

theorem Grows.known {r r' : Registry} (h : r.Grows r') {n : String} (hn : r.Known n) :
    r'.Known n :=
  hn.imp (h.models n) fun hn => h.resolving ▸ hn

/-- A schema as resolution hands it out. A simple one refers to nothing, so that it may stand where
no models are added. -/
structure Covers (r : Registry) (s : Schema) : Prop where
  known : ∀ n ∈ s.references, r.Known n
  simple : s.isSimple → s.references = []

theorem Covers.mono {r r' : Registry} (h : r.Grows r') {s : Schema} (hs : r.Covers s) :
    r'.Covers s :=
  ⟨fun n hn => h.known (hs.known n hn), hs.simple⟩

theorem covers_of_references {r : Registry} {s : Schema} (h : s.references = []) : r.Covers s :=
  ⟨fun _ hn => absurd (h ▸ hn) List.not_mem_nil, fun _ => h⟩

theorem covers_refTo {r : Registry} {name : String} (h : r.Known name) :
    r.Covers (.refTo name) :=
  ⟨fun _ hn => Schema.eq_of_mem_references_refTo hn ▸ h,
    fun hs => by simp [Schema.isSimple, Schema.refTo, SchemaKind.isSimple] at hs⟩

theorem Covers.arrayOf {r : Registry} {s : Schema} (h : r.Covers s) : r.Covers (.arrayOf s) := by
  refine ⟨fun n hn => h.known n (by simpa using hn), fun hs => ?_⟩
  have hk : s.kind.isSimple = true := by
    simpa [Schema.isSimple, Schema.arrayOf, SchemaKind.isSimple] using hs
  rw [Schema.references_arrayOf]
  exact h.simple (by simp [Schema.isSimple, hk])

theorem Covers.mapOf {r : Registry} {s : Schema} (h : r.Covers s) : r.Covers (.mapOf s) :=
  ⟨fun n hn => h.known n (by simpa using hn),
    fun hs => by simp [Schema.isSimple, Schema.mapOf, SchemaKind.isSimple] at hs⟩

theorem Covers.around {r : Registry} {s : Schema} (h : r.Covers s) (shape : Shape) :
    r.Covers (shape.around s) := by
  cases shape with
  | array item => exact h.arrayOf
  | map value => exact h.mapOf
  | fixed | alike | model | unmappable => exact h

theorem Covers.described {r : Registry} {s : Schema} (h : r.Covers s) (description : String) :
    r.Covers { s with description } :=
  ⟨fun n hn => h.known n (Schema.references_described s description ▸ hn),
    fun hs => (Schema.references_described s description).trans (h.simple hs)⟩

end Registry

namespace World

theorem references_enumerationSchema {w : World} {t : TypeExpr} {s : Schema}
    (h : w.enumerationSchema? t = some s) : s.references = [] := by
  unfold enumerationSchema? at h
  split at h
  · cases h
    exact Schema.references_primitive
  · cases h

theorem references_primitiveSchema {w : World} {t : TypeExpr} {s : Schema}
    (h : w.primitiveSchema? t = some s) : s.references = [] := by
  unfold primitiveSchema? at h
  split at h
  · cases h
  · split at h
    · cases h
      exact Schema.references_primitive
    · split at h
      · cases h
        exact Schema.references_primitive
      · cases h

theorem references_ownShape {w : World} {t : TypeExpr} {s : Schema}
    (h : w.ownShape t = .fixed s) : s.references = [] := by
  unfold ownShape at h
  split at h
  any_goals cases h
  · exact Schema.references_primitive
  · split at h
    · cases h
      rename_i hs
      rw [Option.orElse_eq_orElse, Option.orElse_eq_or, Option.or_eq_some_iff] at hs
      rcases hs with hs | ⟨_, hs⟩
      · exact references_enumerationSchema hs
      · exact references_primitiveSchema hs
    · split at h
      · cases h
        exact Schema.references_primitive
      · split at h
        · cases h
        · split at h
          · split at h <;> cases h
          · cases h
      · cases h

/-- A schema that stands for a type as it is refers to nothing. -/
theorem references_shape {w : World} {overrides : Overrides} {t : TypeExpr} {s : Schema}
    (ho : ∀ e ∈ overrides, e.2.references = []) (h : w.shape overrides t = .fixed s) :
    s.references = [] := by
  unfold shape at h
  split at h
  · cases h
  · cases h
  · split at h
    · cases h
    · split at h
      · split at h <;> cases h
      · split at h <;> cases h
      · split at h
        · cases h
          rename_i hs
          obtain ⟨e, he, rfl⟩ := Option.map_eq_some_iff.1 hs
          exact ho e (List.mem_of_find?_eq_some he)
        · exact references_ownShape h

theorem references_flat {w : World} {overrides : Overrides} {t : TypeExpr} {s : Schema}
    (ho : ∀ e ∈ overrides, e.2.references = []) (h : (w.shape overrides t).flat? = some s) :
    s.references = [] := by
  cases hs : w.shape overrides t with
  | fixed r =>
    rw [hs] at h
    cases h
    exact references_shape ho hs
  | array item =>
    rw [hs] at h
    cases item <;> cases h
    exact Schema.references_opaqueObject
  | map value =>
    rw [hs] at h
    cases value <;> cases h
    exact Schema.references_opaqueObject
  | unmappable reason =>
    rw [hs] at h
    cases h
    exact Schema.references_opaqueObject
  | alike | model =>
    rw [hs] at h
    cases h

end World

namespace Registry

section Reachable

variable {models : Table Schema}

theorem mem_reachable {pending : List String} {out : Table Schema} {e : String × Schema}
    (h : e ∈ reachable models pending out) : e ∈ out ∨ e ∈ models := by
  fun_induction reachable models pending out with
  | case1 out => exact .inl h
  | case2 out name pending seen ih => exact ih h
  | case3 out name pending new absent ih => exact ih h
  | case4 out name pending new m found ih =>
    rcases ih h with h | h
    · rcases List.mem_append.1 h with h | h
      · exact .inl h
      · exact .inr (List.mem_singleton.1 h ▸ Table.mem_of_get? found)
    · exact .inr h

theorem get?_of_mem_reachable {pending : List String} {out : Table Schema} {e : String × Schema}
    (h : e ∈ reachable models pending out) : e ∈ out ∨ models.get? e.1 = some e.2 := by
  fun_induction reachable models pending out with
  | case1 out => exact .inl h
  | case2 name pending out seen ih => exact ih h
  | case3 name pending out new absent ih => exact ih h
  | case4 name pending out new m found ih =>
    rcases ih h with h | h
    · rcases List.mem_append.1 h with h | h
      · exact .inl h
      · rw [List.mem_singleton.1 h]
        exact .inr found
    · exact .inr h

theorem has_append {out : Table Schema} {name : String} {m : Schema} {n : String} :
    Table.has (out ++ [(name, m)]) n ↔ out.has n ∨ n = name := by
  simp only [Table.has_iff_mem_keys, Table.keys, List.map_append, List.mem_append, List.map_cons,
    List.map_nil, List.mem_singleton]

theorem has_reachable {pending : List String} {out : Table Schema} {n : String}
    (h : out.has n ∨ (n ∈ pending ∧ models.has n)) : (reachable models pending out).has n := by
  fun_induction reachable models pending out with
  | case1 out => exact h.resolve_right fun h => by cases h.1
  | case2 out name pending seen ih =>
    refine ih ?_
    rcases h with h | ⟨h, hn⟩
    · exact .inl h
    · rcases List.mem_cons.1 h with rfl | h
      · exact .inl seen
      · exact .inr ⟨h, hn⟩
  | case3 out name pending new absent ih =>
    refine ih (h.imp_right fun ⟨h, hn⟩ => ⟨(List.mem_cons.1 h).resolve_left ?_, hn⟩)
    rintro rfl
    simp [Table.has, absent] at hn
  | case4 out name pending new m found ih =>
    refine ih ?_
    rcases h with h | ⟨h, hn⟩
    · exact .inl (has_append.2 (.inl h))
    · rcases List.mem_cons.1 h with h | h
      · exact .inl (has_append.2 (.inr h))
      · exact .inr ⟨List.mem_append_left _ h, hn⟩

/-- Following references ends with a table that holds every model its entries refer to. -/
theorem reachable_closed {pending : List String} {out : Table Schema}
    (ho : ∀ e ∈ out, ∀ n ∈ e.2.references, models.has n → out.has n ∨ n ∈ pending) :
    ∀ e ∈ reachable models pending out, ∀ n ∈ e.2.references, models.has n →
      (reachable models pending out).has n := by
  fun_induction reachable models pending out with
  | case1 out => exact fun e he n hn hm => (ho e he n hn hm).resolve_right nofun
  | case2 out name pending seen ih =>
    refine ih fun e he n hn hm => ?_
    rcases ho e he n hn hm with h | h
    · exact .inl h
    · rcases List.mem_cons.1 h with rfl | h
      · exact .inl seen
      · exact .inr h
  | case3 out name pending new absent ih =>
    refine ih fun e he n hn hm => (ho e he n hn hm).imp_right fun h => ?_
    refine (List.mem_cons.1 h).resolve_left ?_
    rintro rfl
    simp [Table.has, absent] at hm
  | case4 out name pending new m found ih =>
    refine ih fun e he n hn hm => ?_
    rcases List.mem_append.1 he with he | he
    · rcases ho e he n hn hm with h | h
      · exact .inl (has_append.2 (.inl h))
      · rcases List.mem_cons.1 h with h | h
        · exact .inl (has_append.2 (.inr h))
        · exact .inr (List.mem_append_left _ h)
    · rw [List.mem_singleton.1 he] at hn
      exact .inr (List.mem_append_right _ hn)

end Reachable

/-- The models of a schema hold what the schema and they themselves refer to, once nothing is being
built. -/
theorem Sound.modelsFor_closed {r : Registry} (h : r.Sound) (hr : r.resolving = []) {s : Schema}
    (hs : r.Covers s) :
    (∀ n ∈ s.references, (r.modelsFor s).has n) ∧
      ∀ e ∈ r.modelsFor s, e ∈ r.models ∧ ∀ n ∈ e.2.references, (r.modelsFor s).has n := by
  have present : ∀ {n}, r.Known n → r.models.has n := fun hn =>
    hn.resolve_right fun hn => by rw [hr] at hn; cases hn
  refine ⟨fun n hn => has_reachable (.inr ⟨hn, present (hs.known n hn)⟩), fun e he => ?_⟩
  have hm : e ∈ r.models := (mem_reachable he).resolve_left nofun
  refine ⟨hm, fun n hn => ?_⟩
  exact reachable_closed (by rintro _ ⟨⟩) e he n hn (present (h.references e hm n hn))

end Registry

namespace Run

/-- What a resolver does to a sound registry. -/
def Finds (f : TypeExpr → Run Schema) : Prop :=
  ∀ ⦃t : TypeExpr⦄ ⦃p q : Progress⦄ ⦃s : Schema⦄, f t p = .ok s q → p.registry.Sound →
    q.registry.Sound ∧ p.registry.Grows q.registry ∧ q.registry.Covers s

theorem objectModel_references {name : String} {known : Option Schema} {properties : Table Schema}
    {required : List String} {n : String}
    (h : n ∈ (objectModel name known properties required).references) :
    (∃ old, known = some old ∧ n ∈ old.references) ∨ n ∈ Schema.tableReferences properties := by
  cases known with
  | none => exact .inr (Schema.mem_references_object.1 h)
  | some old =>
    obtain ⟨e, he, hn⟩ := Schema.mem_tableReferences.1 (Schema.mem_references_object.1 h)
    rcases Table.mem_merge he with he | he
    · refine .inl ⟨old, rfl, Schema.mem_references.2 (.inr (.inr (.inr ?_)))⟩
      exact Schema.mem_tableReferences.2 ⟨e, he, hn⟩
    · exact .inr (Schema.mem_tableReferences.2 ⟨e, he, hn⟩)

theorem objectModel_requiresOwn {name : String} {known : Option Schema} {properties : Table Schema}
    {required : List String} (hk : ∀ old, known = some old → old.RequiresOwn)
    (hr : ∀ n ∈ required, properties.has n) :
    (objectModel name known properties required).RequiresOwn := by
  cases known with
  | none => exact hr
  | some old =>
    intro n hn
    show Table.has (Table.merge old.properties properties) n = true
    rw [Table.has_merge]
    exact (List.mem_append.1 (mem_distinctNames.1 hn)).imp (hk old rfl n) (hr n)

theorem resolveFields_ok {f : TypeExpr → Run Schema} (hf : Finds f) {fields : List ModelField} :
    ∀ {properties : Table Schema} {required : List String} {p q : Progress}
      {out : Table Schema × List String},
      resolveFields f fields properties required p = .ok out q → p.registry.Sound →
      (∀ n ∈ Schema.tableReferences properties, p.registry.Known n) →
      (∀ n ∈ required, properties.has n) →
      q.registry.Sound ∧ p.registry.Grows q.registry ∧
        (∀ n ∈ Schema.tableReferences out.1, q.registry.Known n) ∧ ∀ n ∈ out.2, out.1.has n := by
  induction fields with
  | nil =>
    intro properties required p q out h hp hk hr
    cases h
    exact ⟨hp, .refl _, hk, hr⟩
  | cons m ms ih =>
    intro properties required p q out h hp hk hr
    obtain ⟨s, r, hs, h⟩ := bind_ok.1 h
    obtain ⟨hr', hg, hc⟩ := hf hs hp
    have hc' : r.registry.Covers (if m.description = "" then s
        else { s with description := m.description }) := by
      split
      · exact hc
      · exact hc.described _
    refine (fun ⟨h₁, h₂, h₃⟩ => ⟨h₁, hg.trans h₂, h₃⟩) (ih h hr' (fun n hn => ?_) ?_)
    · rcases Schema.mem_tableReferences_insert hn with hn | hn
      · exact hc'.known n hn
      · exact hg.known (hk n hn)
    · exact Schema.has_insert_of_required hr

/-- Building a model resolves the fields with its name marked, and then puts in place what they make
together with what was known under the name. -/
theorem buildModel_iff {f : TypeExpr → Run Schema} {t : TypeExpr} {name : String}
    {fields : List ModelField} {p q : Progress} {u : Unit} :
    buildModel f t name fields p = .ok u q ↔
      ∃ properties required r,
        resolveFields f fields [] []
          { p with registry.resolving := name :: p.registry.resolving } =
            .ok (properties, required) r ∧
        q = { r with
          registry := { r.registry.put name
            (objectModel name (p.registry.models.get? name) properties required) t with
            resolving := r.registry.resolving.erase name }
          notices := .modelResolved name (objectModel name (p.registry.models.get? name)
            properties required).properties.length :: r.notices } := by
  unfold buildModel
  rw [bind_of_ok (get_apply p), bind_of_ok (onRegistry_apply _ p)]
  constructor
  · intro h
    obtain ⟨model, r, hg, h⟩ := bind_ok.1 h
    obtain ⟨r, hb, rfl⟩ := guarded_ok.1 hg
    obtain ⟨⟨properties, required⟩, s, hs, hb⟩ := bind_ok.1 hb
    cases hb
    cases h
    exact ⟨properties, required, s, hs, rfl⟩
  · rintro ⟨properties, required, r, hr, rfl⟩
    let model := objectModel name (p.registry.models.get? name) properties required
    exact bind_ok.2 ⟨model, _, guarded_ok.2 ⟨{ r with registry := r.registry.put name model t },
      bind_ok.2 ⟨(properties, required), r, hr, rfl⟩, rfl⟩, rfl⟩

theorem resolveModel_apply {w : World} {f : TypeExpr → Run Schema} {t : TypeExpr} {name : String}
    {p : Progress} (hn : w.modelName t = .ok name) :
    resolveModel w f t p =
      if name ∈ p.registry.resolving ∨ p.registry.isCurrent name t then .ok (.refTo name) p
      else match w.fieldsOf t with
        | .error reason => untyped w t reason p
        | .ok fields => (buildModel f t name fields >>= fun _ => pure (.refTo name)) p := by
  unfold resolveModel
  rw [bind_of_ok (ofExcept_ok.2 ⟨hn, rfl⟩), bind_of_ok (get_apply p)]
  split
  · rfl
  · cases w.fieldsOf t <;> rfl

/-- Building a model leaves a model of its name, so that references to it that were handed out on
the way are good. -/
theorem buildModel_ok {f : TypeExpr → Run Schema} (hf : Finds f) {t : TypeExpr} {name : String}
    {fields : List ModelField} {p q : Progress} {u : Unit}
    (h : buildModel f t name fields p = .ok u q) (hp : p.registry.Sound) :
    q.registry.Sound ∧ p.registry.Grows q.registry ∧ q.registry.models.has name := by
  unfold buildModel at h
  rw [bind_of_ok (get_apply p), bind_of_ok (onRegistry_apply _ p)] at h
  obtain ⟨model, r, hg, h⟩ := bind_ok.1 h
  obtain ⟨r, hb, rfl⟩ := guarded_ok.1 hg
  obtain ⟨⟨properties, required⟩, s, hs, hb⟩ := bind_ok.1 hb
  cases hb
  cases h
  have known_pushed : ∀ {n}, p.registry.Known n →
      Registry.Known { p.registry with resolving := name :: p.registry.resolving } n :=
    fun hn => hn.imp_right (List.mem_cons_of_mem _)
  have pushed : Registry.Sound { p.registry with resolving := name :: p.registry.resolving } :=
    ⟨hp.overrides, fun e he n hn => known_pushed (hp.references e he n hn), hp.required⟩
  obtain ⟨hs, hg, hk, hr⟩ := resolveFields_ok hf hs pushed nofun nofun
  have old : ∀ {m}, p.registry.models.get? name = some m → (name, m) ∈ p.registry.models :=
    Table.mem_of_get?
  let model := objectModel name (p.registry.models.get? name) properties required
  have known : ∀ {n}, s.registry.Known n → Registry.Known { s.registry.put name model t with
      resolving := s.registry.resolving.erase name } n := by
    intro n hn
    by_cases h : n = name
    · exact .inl (Table.has_insert.2 (.inl h.symm))
    · exact hn.imp (fun hn => Table.has_insert.2 (.inr hn)) (List.mem_erase_of_ne h).2
  refine ⟨⟨hs.overrides, fun e he n hn => ?_, fun e he => ?_⟩, ⟨fun n hn => ?_, ?_⟩, ?_⟩
  · rcases Table.mem_insert he with rfl | he
    · rcases objectModel_references hn with ⟨m, hm, hn⟩ | hn
      · exact known (hg.known (known_pushed (hp.references _ (old hm) n hn)))
      · exact known (hk n hn)
    · exact known (hs.references e he n hn)
  · rcases Table.mem_insert he with rfl | he
    · exact objectModel_requiresOwn (fun m hm => hp.required _ (old hm)) hr
    · exact hs.required e he
  · exact Table.has_insert.2 (.inr (hg.models n hn))
  · show s.registry.resolving.erase name = p.registry.resolving
    rw [hg.resolving, List.erase_cons_head]
  · exact Table.has_insert.2 (.inl rfl)

theorem untyped_ok {w : World} {t : TypeExpr} {reason : String} {p q : Progress} {s : Schema}
    (h : untyped w t reason p = .ok s q) (hp : p.registry.Sound) :
    q.registry.Sound ∧ p.registry.Grows q.registry ∧ q.registry.Covers s := by
  cases h
  exact ⟨hp, .refl _, Registry.covers_of_references Schema.references_opaqueObject⟩

theorem resolveModel_ok {w : World} {f : TypeExpr → Run Schema} (hf : Finds f) {t : TypeExpr}
    {p q : Progress} {s : Schema} (h : resolveModel w f t p = .ok s q) (hp : p.registry.Sound) :
    q.registry.Sound ∧ p.registry.Grows q.registry ∧ q.registry.Covers s := by
  unfold resolveModel at h
  obtain ⟨name, r, hn, hm⟩ := bind_ok.1 h
  obtain ⟨_, rfl⟩ := ofExcept_ok.1 hn
  rw [bind_of_ok (get_apply p)] at hm
  split at hm
  · rename_i known
    cases hm
    refine ⟨hp, .refl _, Registry.covers_refTo ?_⟩
    refine known.symm.imp (fun known => ?_) id
    unfold Registry.isCurrent at known
    exact (Bool.and_eq_true_iff.1 known).1
  · cases hfields : w.fieldsOf t with
    | error reason =>
      rw [hfields] at hm
      exact untyped_ok hm hp
    | ok fields =>
      rw [hfields] at hm
      obtain ⟨_, r', hb, hm⟩ := bind_ok.1 hm
      cases hm
      obtain ⟨hs, hg, built⟩ := buildModel_ok hf hb hp
      exact ⟨hs, hg, Registry.covers_refTo (.inl built)⟩

theorem resolveShape_ok {w : World} {f : TypeExpr → Run Schema} (hf : Finds f) :
    Finds (resolveShape w f) := by
  intro t p q s h hp
  rcases resolveShape_cases h with ⟨u, r, _, hr, rfl⟩ | ⟨_, hm⟩ | ⟨hs, _, rfl⟩
  · exact (hf hr hp).imp_right (And.imp_right fun covers => covers.around _)
  · exact resolveModel_ok hf hm hp
  · exact ⟨hp, .refl _, Registry.covers_of_references (World.references_flat hp.overrides hs)⟩

/-- Resolution preserves a sound registry, and every schema that it hands out is covered. -/
theorem resolve_ok (w : World) : Finds (resolve w) := by
  have within : ∀ bound, Finds (resolveWithin w bound) := by
    intro bound
    induction bound with
    | zero => intro t p q s h; cases h
    | succ bound ih => exact resolveShape_ok ih
  exact within nestingBound

/-- Adding the models of a schema does not fail. -/
theorem addModelsOf_apply (s : Schema) (p : Progress) : addModelsOf s p = .ok () { p with
    document := (p.document.addModels (p.registry.modelsFor s)).1
    notices := (p.document.addModels (p.registry.modelsFor s)).2.reverse ++ p.notices } :=
  onDocument_apply (fun d => d.addModels (p.registry.modelsFor s)) p

end Run

end ApiCompiler
