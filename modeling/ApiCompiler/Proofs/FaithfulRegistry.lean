import Mathlib.Data.List.Forall2
import ApiCompiler.Proofs.Denotation
import ApiCompiler.Proofs.Registry
import ApiCompiler.Proofs.SameTypes

/-!
# A registry that is faithful to its types

Resolution leaves a type early when a model of its name is being built, or when the model of its name
was built from it. Two properties make this harmless. `Registry.Faithful` says that each model is the
one that its object type denotes, `Registry.Encloses` that the models that are being built belong to
object types above the type. Where names tell object types apart, a known name is a known type, so
that resolution hands out what types denote and keeps the registry faithful.
-/

set_option autoImplicit false

namespace ApiCompiler

section Definitions

variable (w : World) (o : Overrides) (M : TypeExpr → Prop)

/-- An object type among the given types with the name of its model. -/
structure World.Names (name : String) (t : TypeExpr) (fields : List ModelField) : Prop where
  met : M t
  object : w.HasFields o t fields
  named : w.modelName t.bare = .ok name

/-- Names tell the object types among the given types apart, and nothing below an object type that
has its name is without fields. -/
structure World.NamesApart : Prop where
  objects : ∀ ⦃t u : TypeExpr⦄ ⦃fields fields' : List ModelField⦄ ⦃name : String⦄,
    w.Names o M name t fields → w.Names o M name u fields' → t.bare = u.bare
  below : ∀ ⦃t u : TypeExpr⦄ ⦃fields : List ModelField⦄ ⦃name : String⦄,
    w.Names o M name t fields → Relation.ReflTransGen (w.Descends o) t u →
    w.shape o u = .model → w.modelName u.bare = .ok name → ∃ fields', w.HasFields o u fields'

namespace Registry

/-- The object type that the schema of a type refers to, if there is one, has its name known. -/
def CoversType (r : Registry) (t : TypeExpr) : Prop :=
  ∀ ⦃u : TypeExpr⦄ ⦃fields : List ModelField⦄, Relation.ReflTransGen (w.PartOf o) t u →
    w.HasFields o u fields → ∃ name, w.modelName u.bare = .ok name ∧ r.Known name

/-- A model that is built from an object type, as its fields say. -/
structure Holds (r : Registry) (name : String) (model : Schema) (t : TypeExpr)
    (fields : List ModelField) (schemas : List Schema) : Prop extends
    w.Names o M name t fields where
  source : r.sources.get? name = some t.bare
  denotes : List.Forall₂ (fun f s => w.Denotes o f.type s) fields schemas
  covers : ∀ f ∈ fields, r.CoversType w o f.type
  model : model = World.modelOf name fields schemas

structure Faithful (r : Registry) : Prop where
  overrides : r.overrides = o
  models : ∀ ⦃name : String⦄ ⦃model : Schema⦄, r.models.get? name = some model →
    ∃ t fields schemas, r.Holds w o M name model t fields schemas

/-- The models that are being built are those of object types above a type. -/
def Encloses (r : Registry) (t : TypeExpr) : Prop :=
  ∀ name ∈ r.resolving, ∃ u fields, w.Names o M name u fields ∧
    Relation.ReflTransGen (w.Descends o) u t

/-- From one registry to another by finding the schema of a type. -/
structure Yields (r r' : Registry) (t : TypeExpr) (s : Schema) : Prop where
  faithful : r'.Faithful w o M
  grows : r.Grows r'
  denotes : w.Denotes o t s
  covers : r'.CoversType w o t

end Registry

/-- What a resolver does to a faithful registry. -/
def Run.Follows (f : TypeExpr → Run Schema) : Prop :=
  ∀ ⦃t : TypeExpr⦄ ⦃p q : Progress⦄ ⦃s : Schema⦄, M t → f t p = .ok s q →
    p.registry.Faithful w o M → p.registry.Encloses w o M t →
    p.registry.Yields w o M q.registry t s

end Definitions

variable {w : World} {o : Overrides} {M : TypeExpr → Prop} {t u : TypeExpr} {s : Schema}
  {name : String} {fields : List ModelField}

namespace Registry

section CoversType

variable {r r' : Registry}

theorem CoversType.mono (h : r.Grows r') (ht : r.CoversType w o t) : r'.CoversType w o t := by
  intro u fields hu hf
  obtain ⟨name, hn, hk⟩ := ht hu hf
  exact ⟨name, hn, h.known hk⟩

theorem CoversType.part (h : w.PartOf o t u) (ht : r.CoversType w o t) : r.CoversType w o u :=
  World.Referred.part h ht

theorem CoversType.of_part (h : w.PartOf o t u) (hu : r.CoversType w o u) :
    r.CoversType w o t :=
  World.Referred.of_part h hu

theorem CoversType.of_no_part (hp : (w.shape o t).part? = none)
    (h : ∀ fields, w.HasFields o t fields → ∃ name, w.modelName t.bare = .ok name ∧ r.Known name) :
    r.CoversType w o t :=
  World.Referred.of_no_part hp h

theorem CoversType.of_flat (h : (w.shape o t).flat? = some s) : r.CoversType w o t :=
  World.Referred.of_flat h

end CoversType

/-- What a model says of each field that it is built from. -/
theorem Holds.forall₂ {r : Registry} {model : Schema} {schemas : List Schema}
    (closed : ∀ {t u : TypeExpr}, M t → w.Descends o t u → M u)
    (h : r.Holds w o M name model t fields schemas) :
    List.Forall₂ (fun f s => (M f.type ∧ r.CoversType w o f.type) ∧ w.Denotes o f.type s)
      fields schemas := by
  refine (List.forall₂_and_left _ _).2 ⟨fun f hf => ⟨?_, h.covers f hf⟩, h.denotes⟩
  exact closed h.met (.field h.object hf)

section Encloses

variable {r r' : Registry}

theorem encloses_of_done (h : r.resolving = []) : r.Encloses w o M t := by
  intro n hn
  rw [h] at hn
  cases hn

theorem Encloses.of_resolving (h : r.Encloses w o M t) (hr : r'.resolving = r.resolving) :
    r'.Encloses w o M t :=
  fun n hn => h n (hr ▸ hn)

theorem Encloses.descends (h : r.Encloses w o M t) (hd : w.Descends o t u) :
    r.Encloses w o M u := by
  intro n hn
  obtain ⟨v, fields, hv, ht⟩ := h n hn
  exact ⟨v, fields, hv, ht.tail hd⟩

/-- Beginning to build the model of an object type. -/
theorem Encloses.push (h : r.Encloses w o M t) (ht : w.Names o M name t fields) :
    Encloses w o M { r with resolving := name :: r.resolving } t := by
  intro n hn
  rcases List.mem_cons.1 hn with rfl | hn
  · exact ⟨t, fields, ht, .refl⟩
  · exact h n hn

end Encloses

namespace Faithful

variable {r : Registry}

theorem start : Faithful w o M { overrides := o } := ⟨rfl, nofun⟩

/-- The model under the name of an object type is its own. -/
theorem exists_holds (h : r.Faithful w o M) (apart : w.NamesApart o M)
    (ht : w.Names o M name t fields) (hk : r.models.has name) :
    ∃ model schemas, r.models.get? name = some model ∧
      r.Holds w o M name model t fields schemas := by
  obtain ⟨model, hm⟩ := Option.isSome_iff_exists.1 hk
  obtain ⟨u, fields', schemas, hu⟩ := h.models hm
  have hbare : u.bare = t.bare := apart.objects hu.toNames ht
  obtain rfl := hu.object.unique ht.object hbare
  refine ⟨model, schemas, hm, ht, ?_, hu.denotes, hu.covers, hu.model⟩
  rw [hu.source, hbare]

/-- Once nothing is being built, what a schema refers to has its model. -/
theorem exists_holds_of_covers (h : r.Faithful w o M) (apart : w.NamesApart o M)
    (hdone : r.resolving = []) (ht : M t) (hf : w.HasFields o t fields)
    (hc : r.CoversType w o t) :
    ∃ name model schemas, r.models.get? name = some model ∧
      r.Holds w o M name model t fields schemas := by
  obtain ⟨name, hn, hk⟩ := hc .refl hf
  have hhas : r.models.has name := by
    refine hk.resolve_right fun hr => ?_
    rw [hdone] at hr
    cases hr
  obtain ⟨model, schemas, hm, holds⟩ := h.exists_holds apart ⟨ht, hf, hn⟩ hhas
  exact ⟨name, model, schemas, hm, holds⟩

/-- The registry has a model that was built from the type, so that the type has fields. -/
theorem exists_hasFields (h : r.Faithful w o M) (hs : w.shape o t = .model)
    (hk : r.isCurrent name t.bare = true) : ∃ fields, w.HasFields o t fields := by
  unfold isCurrent at hk
  obtain ⟨hhas, hsame⟩ := Bool.and_eq_true_iff.1 hk
  obtain ⟨model, hm⟩ := Option.isSome_iff_exists.1 hhas
  obtain ⟨u, fields, _, hu⟩ := h.models hm
  rw [hu.source, Option.any_some] at hsame
  have found : (w.fieldsOf t.bare).isOk = true := by
    rw [World.fieldsOf_isOk_of_same hsame, hu.object.found]
    rfl
  obtain ⟨fields', hfields⟩ := except_isOk.1 found
  exact ⟨fields', hs, hfields⟩

/-- To ask whether a model is being built, or has been built from a type, is to ask whether the type
is an object type whose name is known. -/
theorem exit_iff (h : r.Faithful w o M) (apart : w.NamesApart o M) (he : r.Encloses w o M t)
    (ht : M t) (hs : w.shape o t = .model) (hn : w.modelName t.bare = .ok name) :
    (name ∈ r.resolving ∨ r.isCurrent name t.bare = true) ↔
      r.Known name ∧ ∃ fields, w.HasFields o t fields := by
  constructor
  · rintro (hk | hk)
    · obtain ⟨u, fields, hu, hut⟩ := he name hk
      exact ⟨.inr hk, apart.below hu hut hs hn⟩
    · have hhas : r.models.has name = true := by
        unfold isCurrent at hk
        exact (Bool.and_eq_true_iff.1 hk).1
      exact ⟨.inl hhas, h.exists_hasFields hs hk⟩
  · rintro ⟨hk, fields, hfields⟩
    rcases hk with hk | hk
    · obtain ⟨_, _, _, hm⟩ := h.exists_holds apart ⟨ht, hfields, hn⟩ hk
      right
      unfold isCurrent
      rw [hk, hm.source]
      exact TypeExpr.same_refl t.bare
    · exact .inl hk

theorem push (h : r.Faithful w o M) (name : String) :
    Faithful w o M { r with resolving := name :: r.resolving } where
  overrides := h.overrides
  models n model hm := by
    obtain ⟨u, fields', schemas, hu⟩ := h.models hm
    refine ⟨u, fields', schemas, hu.toNames, hu.source, hu.denotes, fun f hf v _ hv hfields => ?_,
      hu.model⟩
    obtain ⟨n', hn', hk⟩ := hu.covers f hf hv hfields
    exact ⟨n', hn', hk.imp_right (List.mem_cons_of_mem _)⟩

/-- The model of an object type is put in its place. -/
theorem put {schemas : List Schema} {resolving : List String} (h : r.Faithful w o M)
    (ht : w.Names o M name t fields) (hr : r.resolving = name :: resolving)
    (hs : List.Forall₂ (fun f s => w.Denotes o f.type s) fields schemas)
    (hc : ∀ f ∈ fields, r.CoversType w o f.type) :
    Faithful w o M { r.put name (World.modelOf name fields schemas) t.bare with resolving } := by
  let r' : Registry := { r.put name (World.modelOf name fields schemas) t.bare with resolving }
  have known : ∀ {n}, r.Known n → r'.Known n := by
    intro n hn
    by_cases h : n = name
    · exact .inl (Table.has_insert.2 (.inl h.symm))
    · refine hn.imp (fun hn => Table.has_insert.2 (.inr hn)) fun hn => ?_
      rw [hr] at hn
      exact (List.mem_cons.1 hn).resolve_left h
  have covers : ∀ {v}, r.CoversType w o v → r'.CoversType w o v := by
    intro v hv u fields hu hf
    obtain ⟨n, hn, hk⟩ := hv hu hf
    exact ⟨n, hn, known hk⟩
  refine ⟨h.overrides, fun n model hm => ?_⟩
  change (r.models.insert name _).get? n = some model at hm
  rw [Table.get?_insert] at hm
  by_cases hname : name = n
  · subst hname
    rw [if_pos rfl] at hm
    refine ⟨t, fields, schemas, ht, ?_, hs, fun f hf => covers (hc f hf),
      (Option.some.inj hm).symm⟩
    change (r.sources.insert name t.bare).get? name = some t.bare
    rw [Table.get?_insert, if_pos rfl]
  · rw [if_neg hname] at hm
    obtain ⟨u, fields', schemas', hu⟩ := h.models hm
    refine ⟨u, fields', schemas', hu.toNames, ?_, hu.denotes,
      fun f hf => covers (hu.covers f hf), hu.model⟩
    change (r.sources.insert name t.bare).get? n = some u.bare
    rw [Table.get?_insert, if_neg hname, hu.source]

end Faithful

end Registry

namespace Run

variable {f : TypeExpr → Run Schema} {p q : Progress}

/-- Resolving fields adds their properties and the names of the required ones. -/
theorem resolveFields_follows (hf : Follows w o M f) :
    ∀ {fields : List ModelField} {properties : Table Schema} {required : List String}
      {p q : Progress} {out : Table Schema × List String},
      (∀ m ∈ fields, M m.type ∧ p.registry.Encloses w o M m.type) →
      resolveFields f fields properties required p = .ok out q → p.registry.Faithful w o M →
      q.registry.Faithful w o M ∧ p.registry.Grows q.registry ∧
        (∀ m ∈ fields, q.registry.CoversType w o m.type) ∧
        ∃ schemas, List.Forall₂ (fun m s => w.Denotes o m.type s) fields schemas ∧
          out = (properties.merge (World.fieldProperties fields schemas),
            required ++ World.requiredNames fields) := by
  intro fields
  induction fields with
  | nil =>
    intro properties required p q out _ h hp
    cases h
    refine ⟨hp, .refl _, nofun, [], .nil, ?_⟩
    rw [World.requiredNames, List.filter_nil, List.map_nil, List.append_nil]
    rfl
  | cons m ms ih =>
    intro properties required p q out hM h hp
    obtain ⟨s, r, hs, h⟩ := bind_ok.1 h
    obtain ⟨hmet, hencloses⟩ := hM m List.mem_cons_self
    have hm := hf hmet hs hp hencloses
    have rest : ∀ m' ∈ ms, M m'.type ∧ r.registry.Encloses w o M m'.type := by
      intro m' hm'
      obtain ⟨hmet', hencloses'⟩ := hM m' (List.mem_cons_of_mem _ hm')
      exact ⟨hmet', hencloses'.of_resolving hm.grows.resolving⟩
    obtain ⟨hq, hg, hc, schemas, hd, rfl⟩ := ih rest h hm.faithful
    refine ⟨hq, hm.grows.trans hg, ?_, s :: schemas, .cons hm.denotes hd, ?_⟩
    · intro m' hm'
      rcases List.mem_cons.1 hm' with rfl | hm'
      · exact hm.covers.mono hg
      · exact hc m' hm'
    · cases hr : m.required <;> simp [World.requiredNames, World.fieldProperties, Table.merge,
        ModelField.schemaOf, hr]

section Follows

variable (closed : ∀ {t u : TypeExpr}, M t → w.Descends o t u → M u) (apart : w.NamesApart o M)

include closed in
/-- What building the model of an object type needs to know of its fields. -/
theorem fields_enclosed (ht : w.Names o M name t fields) (he : p.registry.Encloses w o M t) :
    ∀ m ∈ fields, M m.type ∧
      Registry.Encloses w o M { p.registry with resolving := name :: p.registry.resolving } m.type :=
  fun _ hm => ⟨closed ht.met (.field ht.object hm), (he.push ht).descends (.field ht.object hm)⟩

include closed in
/-- Building the model of an object type whose name is new puts what the type denotes in place. -/
theorem buildModel_follows (hf : Follows w o M f) (ht : w.Names o M name t fields)
    (hnew : ¬ p.registry.Known name) {x : Unit} (h : buildModel f t.bare name fields p = .ok x q)
    (hp : p.registry.Faithful w o M) (he : p.registry.Encloses w o M t) :
    q.registry.Faithful w o M ∧ p.registry.Grows q.registry ∧ q.registry.models.has name := by
  obtain ⟨properties, required, r, hr, rfl⟩ := buildModel_iff.1 h
  obtain ⟨hfaithful, hgrows, hcovers, schemas, hdenotes, hout⟩ := resolveFields_follows hf
    (fields_enclosed closed ht he) hr (hp.push name)
  cases hout
  have absent : p.registry.models.get? name = none := by
    rw [← Option.not_isSome_iff_eq_none]
    exact fun hm => hnew (.inl hm)
  have model : objectModel name (p.registry.models.get? name)
      (Table.merge [] (World.fieldProperties fields schemas)) ([] ++ World.requiredNames fields) =
        World.modelOf name fields schemas := by
    rw [absent]
    rfl
  have resolving : r.registry.resolving.erase name = p.registry.resolving := by
    rw [hgrows.resolving, List.erase_cons_head]
  rw [model, resolving]
  refine ⟨hfaithful.put ht hgrows.resolving hdenotes hcovers, ⟨fun n hn => ?_, rfl⟩, ?_⟩
  · exact Table.has_insert.2 (.inr (hgrows.models n hn))
  · exact Table.has_insert.2 (.inl rfl)

section Model

variable (ht : M t) (hs : w.shape o t = .model) (hn : w.modelName t.bare = .ok name)
  (hp : p.registry.Faithful w o M) (he : p.registry.Encloses w o M t)

include apart ht hs hn hp he

theorem resolveModel_known (hf : w.HasFields o t fields) (hk : p.registry.Known name) :
    resolveModel w f t.bare p = .ok (.refTo name) p := by
  rw [resolveModel_apply hn, if_pos ((hp.exit_iff apart he ht hs hn).2 ⟨hk, fields, hf⟩)]

theorem resolveModel_new (hf : w.HasFields o t fields) (hk : ¬ p.registry.Known name) :
    resolveModel w f t.bare p =
      (buildModel f t.bare name fields >>= fun _ => pure (.refTo name)) p := by
  rw [resolveModel_apply hn, if_neg fun h => hk ((hp.exit_iff apart he ht hs hn).1 h).1, hf.found]

theorem resolveModel_fieldless {reason : String} (hf : w.fieldsOf t.bare = .error reason) :
    resolveModel w f t.bare p = untyped w t.bare reason p := by
  have stays : ¬ (name ∈ p.registry.resolving ∨ p.registry.isCurrent name t.bare = true) := by
    intro h
    obtain ⟨_, fields, hfields⟩ := (hp.exit_iff apart he ht hs hn).1 h
    cases hfields.found.symm.trans hf
  rw [resolveModel_apply hn, if_neg stays, hf]

end Model

include closed apart in
theorem resolveModel_follows (hf : Follows w o M f) (ht : M t) (hs : w.shape o t = .model)
    (h : resolveModel w f t.bare p = .ok s q) (hp : p.registry.Faithful w o M)
    (he : p.registry.Encloses w o M t) : p.registry.Yields w o M q.registry t s := by
  obtain ⟨name, _, hname, _⟩ := bind_ok.1 h
  obtain ⟨hn, _⟩ := ofExcept_ok.1 hname
  have covers {r : Registry} (hk : ∀ fields, w.HasFields o t fields → r.Known name) :
      r.CoversType w o t := by
    refine .of_no_part ?_ fun fields hfields => ⟨name, hn, hk fields hfields⟩
    rw [hs]
    rfl
  cases hfound : w.fieldsOf t.bare with
  | error reason =>
    rw [resolveModel_fieldless apart ht hs hn hp he hfound] at h
    cases h
    refine ⟨hp, .refl _, .fieldless hs hn hfound, covers fun fields hf => ?_⟩
    cases hf.found.symm.trans hfound
  | ok fields =>
    have hfields : w.HasFields o t fields := ⟨hs, hfound⟩
    by_cases hk : p.registry.Known name
    · rw [resolveModel_known apart ht hs hn hp he hfields hk] at h
      cases h
      exact ⟨hp, .refl _, .object hfields hn, covers fun _ _ => hk⟩
    · rw [resolveModel_new apart ht hs hn hp he hfields hk] at h
      obtain ⟨_, r, hb, h⟩ := bind_ok.1 h
      cases h
      obtain ⟨hq, hg, built⟩ := buildModel_follows closed hf ⟨ht, hfields, hn⟩ hk hb hp he
      exact ⟨hq, hg, .object hfields hn, covers fun _ _ => .inl built⟩

include closed apart in
theorem resolveShape_follows (hf : Follows w o M f) : Follows w o M (resolveShape w f) := by
  intro t p q s ht h hp he
  rcases resolveShape_cases h with ⟨u, r, hu, hr, rfl⟩ | ⟨hs, hm⟩ | ⟨hs, _, rfl⟩
  · rw [hp.overrides] at hu ⊢
    have found := hf (closed ht (.part hu)) hr hp (he.descends (.part hu))
    exact ⟨found.faithful, found.grows, .of_part hu found.denotes, found.covers.of_part hu⟩
  · rw [hp.overrides] at hs
    exact resolveModel_follows closed apart hf ht hs hm hp he
  · rw [hp.overrides] at hs
    exact ⟨hp, .refl _, .of_flat hs, .of_flat hs⟩

include closed apart in
/-- Resolution hands out what types denote and keeps the registry faithful, however deep it goes. -/
theorem resolveWithin_follows (bound : Nat) : Follows w o M (resolveWithin w bound) := by
  induction bound with
  | zero => intro t p q s _ h _ _; cases h
  | succ bound ih => exact resolveShape_follows closed apart ih

end Follows

end Run

end ApiCompiler
