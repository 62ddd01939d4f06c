import ApiCompiler.Proofs.Additions
import ApiCompiler.Proofs.Failures
import ApiCompiler.Proofs.FreshResolver

/-!
# Resolving again

Where object types are told apart by the names of their models, each model has one owner and is
built once: `Registry.Owned` holds through every resolution, and a model that is there stays as it
is. A type that has been resolved is resolved again without a change of the registry. Where nothing
below an object type takes its name either, resolution comes to the same schema from any faithful
registry, unless it nests too deep.
-/

set_option autoImplicit false

namespace ApiCompiler

section Definitions

variable (w : World) (o : Overrides) (M : TypeExpr → Prop)

/-- Names tell the object types among the given types apart. -/
def World.ObjectsApart : Prop := ∀ ⦃t u : TypeExpr⦄ ⦃fields fields' : List ModelField⦄
  ⦃name : String⦄, w.Names o M name t fields → w.Names o M name u fields' → t.bare = u.bare

/-- Every model was built from an object type of its name, and those that are being built are not
there yet. -/
structure Registry.Owned (r : Registry) : Prop where
  overrides : r.overrides = o
  owner : ∀ ⦃name : String⦄ ⦃model : Schema⦄, r.models.get? name = some model →
    ∃ t fields, w.Names o M name t fields ∧ r.sources.get? name = some t.bare
  fresh : ∀ name ∈ r.resolving, r.models.get? name = none

/-- All models are as they were, and the same ones are being built. -/
structure Registry.Retains (r r' : Registry) : Prop where
  models : r.models.Within r'.models
  resolving : r'.resolving = r.resolving

/-- What a resolver does to a registry whose models have owners. -/
def Run.Owns (f : TypeExpr → Run Schema) : Prop :=
  ∀ ⦃t : TypeExpr⦄ ⦃p q : Progress⦄ ⦃s : Schema⦄, M t → f t p = .ok s q →
    p.registry.Owned w o M →
    q.registry.Owned w o M ∧ p.registry.Retains q.registry ∧ q.registry.CoversType w o t

/-- Every type that resolution comes to from a type has a schema. -/
def World.Denotable (t : TypeExpr) : Prop :=
  ∀ u, Relation.ReflTransGen (w.Descends o) t u → ∃ s, w.Denotes o u s

end Definitions

variable {w : World} {o : Overrides} {M : TypeExpr → Prop} {t u : TypeExpr} {s : Schema}
  {name : String} {fields : List ModelField}

namespace Registry

namespace Retains

variable {r r' r'' : Registry}

theorem refl (r : Registry) : r.Retains r := ⟨.refl _, rfl⟩

theorem trans (h : r.Retains r') (h' : r'.Retains r'') : r.Retains r'' :=
  ⟨h.models.trans h'.models, h'.resolving.trans h.resolving⟩

theorem grows (h : r.Retains r') : r.Grows r' := ⟨fun _ hn => h.models.has hn, h.resolving⟩

end Retains

namespace Owned

variable {r : Registry}

theorem start : Owned w o M { overrides := o } := ⟨rfl, nofun, nofun⟩

/-- A model under the name of an object type was built from that type. -/
theorem isCurrent (h : r.Owned w o M) (apart : w.ObjectsApart o M) (ht : w.Names o M name t fields)
    (hk : r.models.has name) : r.isCurrent name t.bare = true := by
  obtain ⟨model, hm⟩ := Option.isSome_iff_exists.1 hk
  obtain ⟨u, fields', hu, hsource⟩ := h.owner hm
  unfold Registry.isCurrent
  rw [hk, hsource, apart hu ht]
  exact TypeExpr.same_refl t.bare

/-- A type that a model was built from has fields. -/
theorem exists_hasFields (h : r.Owned w o M) (hs : w.shape o t = .model)
    (hk : r.isCurrent name t.bare = true) : ∃ fields, w.HasFields o t fields := by
  unfold Registry.isCurrent at hk
  obtain ⟨hhas, hsame⟩ := Bool.and_eq_true_iff.1 hk
  obtain ⟨model, hm⟩ := Option.isSome_iff_exists.1 hhas
  obtain ⟨u, fields, hu, hsource⟩ := h.owner hm
  rw [hsource, Option.any_some] at hsame
  have found : (w.fieldsOf t.bare).isOk = true := by
    rw [World.fieldsOf_isOk_of_same hsame, hu.object.found]
    rfl
  obtain ⟨fields', hfields⟩ := except_isOk.1 found
  exact ⟨fields', hs, hfields⟩

theorem push (h : r.Owned w o M) (hn : r.models.get? name = none) :
    Owned w o M { r with resolving := name :: r.resolving } where
  overrides := h.overrides
  owner := h.owner
  fresh n hmem := by
    rcases List.mem_cons.1 hmem with rfl | hmem
    · exact hn
    · exact h.fresh n hmem

/-- A model is put in its place, for an object type of its name. -/
theorem put {model : Schema} {resolving : List String} (h : r.Owned w o M)
    (ht : w.Names o M name t fields) (hr : r.resolving = name :: resolving)
    (hn : name ∉ resolving) :
    Owned w o M { r.put name model t.bare with resolving } where
  overrides := h.overrides
  owner n model' hm := by
    change (r.models.insert name model).get? n = some model' at hm
    rw [Table.get?_insert] at hm
    by_cases hname : name = n
    · subst hname
      refine ⟨t, fields, ht, ?_⟩
      change (r.sources.insert name t.bare).get? name = some t.bare
      rw [Table.get?_insert, if_pos rfl]
    · rw [if_neg hname] at hm
      obtain ⟨u, fields', hu, hsource⟩ := h.owner hm
      refine ⟨u, fields', hu, ?_⟩
      change (r.sources.insert name t.bare).get? n = some u.bare
      rw [Table.get?_insert, if_neg hname, hsource]
  fresh n hmem := by
    have hname : name ≠ n := by
      rintro rfl
      exact hn hmem
    change (r.models.insert name model).get? n = none
    rw [Table.get?_insert, if_neg hname]
    exact h.fresh n (hr ▸ List.mem_cons_of_mem _ hmem)

end Owned

end Registry

namespace Run

variable {f : TypeExpr → Run Schema} {p q : Progress}

theorem resolveFields_owns (hf : Owns w o M f) :
    ∀ {fields : List ModelField} {properties : Table Schema} {required : List String}
      {p q : Progress} {out : Table Schema × List String}, (∀ m ∈ fields, M m.type) →
      resolveFields f fields properties required p = .ok out q → p.registry.Owned w o M →
      q.registry.Owned w o M ∧ p.registry.Retains q.registry := by
  intro fields
  induction fields with
  | nil => intro properties required p q out _ h hp; cases h; exact ⟨hp, .refl _⟩
  | cons m ms ih =>
    intro properties required p q out hM h hp
    obtain ⟨s, r, hs, h⟩ := bind_ok.1 h
    obtain ⟨hr, hg, _⟩ := hf (hM m List.mem_cons_self) hs hp
    exact (ih (fun m' hm' => hM m' (List.mem_cons_of_mem _ hm')) h hr).imp_right hg.trans

section Owns

variable (closed : ∀ {t u : TypeExpr}, M t → w.Descends o t u → M u) (apart : w.ObjectsApart o M)

include closed in
/-- Building a model under a new name changes no other one. -/
theorem buildModel_owns (hf : Owns w o M f) (ht : w.Names o M name t fields)
    (hnew : p.registry.models.get? name = none) (hr : name ∉ p.registry.resolving) {x : Unit}
    (h : buildModel f t.bare name fields p = .ok x q) (hp : p.registry.Owned w o M) :
    q.registry.Owned w o M ∧ p.registry.Retains q.registry ∧ q.registry.models.has name := by
  obtain ⟨properties, required, r, hfields, rfl⟩ := buildModel_iff.1 h
  obtain ⟨howned, hg⟩ := resolveFields_owns hf
    (fun m hm => closed ht.met (.field ht.object hm)) hfields (hp.push hnew)
  have resolving : r.registry.resolving.erase name = p.registry.resolving := by
    rw [hg.resolving, List.erase_cons_head]
  rw [resolving]
  refine ⟨howned.put ht hg.resolving hr, ⟨fun n model hm => ?_, rfl⟩, ?_⟩
  · change (r.registry.models.insert name _).get? n = some model
    have hname : name ≠ n := by
      rintro rfl
      cases hnew.symm.trans hm
    rw [Table.get?_insert, if_neg hname]
    exact hg.models hm
  · exact Table.has_insert.2 (.inl rfl)

include closed apart in
theorem resolveModel_owns (hf : Owns w o M f) (ht : M t) (hs : w.shape o t = .model)
    (h : resolveModel w f t.bare p = .ok s q) (hp : p.registry.Owned w o M) :
    q.registry.Owned w o M ∧ p.registry.Retains q.registry ∧ q.registry.CoversType w o t := by
  obtain ⟨name, _, hname, _⟩ := bind_ok.1 h
  obtain ⟨hn, _⟩ := ofExcept_ok.1 hname
  have covers {r : Registry} (hk : ∀ fields, w.HasFields o t fields → r.Known name) :
      r.CoversType w o t := by
    refine .of_no_part ?_ fun fields hfields => ⟨name, hn, hk fields hfields⟩
    rw [hs]
    rfl
  rw [resolveModel_apply hn] at h
  split at h
  · rename_i known
    cases h
    refine ⟨hp, .refl _, covers fun _ _ => known.symm.imp_left fun known => ?_⟩
    unfold Registry.isCurrent at known
    exact (Bool.and_eq_true_iff.1 known).1
  · rename_i unknown
    rw [not_or] at unknown
    cases hfound : w.fieldsOf t.bare with
    | error reason =>
      rw [hfound] at h
      cases h
      exact ⟨hp, .refl _, covers fun fields hf => by cases hf.found.symm.trans hfound⟩
    | ok fields =>
      rw [hfound] at h
      have names : w.Names o M name t fields := ⟨ht, ⟨hs, hfound⟩, hn⟩
      have absent : p.registry.models.get? name = none := by
        rw [← Option.not_isSome_iff_eq_none]
        exact fun hk => unknown.2 (hp.isCurrent apart names hk)
      obtain ⟨_, r, hb, h⟩ := bind_ok.1 h
      cases h
      obtain ⟨hq, hg, built⟩ := buildModel_owns closed hf names absent unknown.1 hb hp
      exact ⟨hq, hg, covers fun _ _ => .inl built⟩

include closed apart in
theorem resolveShape_owns (hf : Owns w o M f) : Owns w o M (resolveShape w f) := by
  intro t p q s ht h hp
  rcases resolveShape_cases h with ⟨u, r, hu, hr, _⟩ | ⟨hs, hm⟩ | ⟨hs, _, rfl⟩
  · rw [hp.overrides] at hu
    obtain ⟨owned, retains, covers⟩ := hf (closed ht (.part hu)) hr hp
    exact ⟨owned, retains, covers.of_part hu⟩
  · rw [hp.overrides] at hs
    exact resolveModel_owns closed apart hf ht hs hm hp
  · rw [hp.overrides] at hs
    exact ⟨hp, .refl _, .of_flat hs⟩

include closed apart in
/-- Resolution builds each model once, however deep it goes. -/
theorem resolveWithin_owns (bound : Nat) : Owns w o M (resolveWithin w bound) := by
  induction bound with
  | zero => intro t p q s _ h _; cases h
  | succ bound ih => exact resolveShape_owns closed apart ih

/-- While no model is being built, an object type is resolved to a reference and any other type
without a model to an object without known properties. -/
theorem resolveModel_idle (hs : w.shape o t = .model)
    (h : resolveModel w f t.bare p = .ok s q) (hp : p.registry.Owned w o M)
    (hidle : p.registry.resolving = []) : w.Denotes o t s := by
  obtain ⟨name, _, hname, _⟩ := bind_ok.1 h
  obtain ⟨hn, _⟩ := ofExcept_ok.1 hname
  rw [resolveModel_apply hn] at h
  split at h
  · rename_i known
    cases h
    have current := known.resolve_left fun hmem => by rw [hidle] at hmem; cases hmem
    obtain ⟨fields, hfields⟩ := hp.exists_hasFields hs current
    exact .object hfields hn
  · cases hfound : w.fieldsOf t.bare with
    | error reason =>
      rw [hfound] at h
      cases h
      exact .fieldless hs hn hfound
    | ok fields =>
      rw [hfound] at h
      obtain ⟨_, r, _, h⟩ := bind_ok.1 h
      cases h
      exact .object ⟨hs, hfound⟩ hn

include apart in
/-- Once its model is there, a type is resolved without a change of the registry. -/
theorem resolveModel_again (ht : M t) (hs : w.shape o t = .model) (hd : w.Denotes o t s)
    (hp : p.registry.Owned w o M) (hidle : p.registry.resolving = [])
    (hc : p.registry.CoversType w o t) :
    ∃ notices, resolveModel w f t.bare p = .ok s { p with notices } := by
  have shaped := hd.by_shape
  rw [hs] at shaped
  obtain ⟨name, hn, rfl⟩ := shaped
  rw [resolveModel_apply hn]
  cases hfound : w.fieldsOf t.bare with
  | error reason =>
    have unknown : ¬ (name ∈ p.registry.resolving ∨
        p.registry.isCurrent name t.bare = true) := by
      rintro (hmem | current)
      · rw [hidle] at hmem
        cases hmem
      · obtain ⟨fields, hfields⟩ := hp.exists_hasFields hs current
        cases hfields.found.symm.trans hfound
    rw [if_neg unknown]
    exact ⟨_, rfl⟩
  | ok fields =>
    have hfields : w.HasFields o t fields := ⟨hs, hfound⟩
    obtain ⟨name', hn', hk⟩ := hc .refl hfields
    obtain rfl : name = name' := Except.ok.inj (hn.symm.trans hn')
    have built := hk.resolve_right fun hmem => by rw [hidle] at hmem; cases hmem
    rw [if_pos (.inr (hp.isCurrent apart ⟨ht, hfields, hn⟩ built))]
    exact ⟨p.notices, rfl⟩

include closed apart in
/-- While no model is being built, resolution hands out what a type denotes; and where the type is
covered already, it does so again without a change of the registry. -/
theorem resolveWithin_idle (bound : Nat) :
    ∀ {t : TypeExpr} {p q : Progress} {s : Schema}, M t → p.registry.Owned w o M →
      p.registry.resolving = [] → resolveWithin w bound t p = .ok s q →
      w.Denotes o t s ∧ ∀ p' : Progress, p'.registry.Owned w o M → p'.registry.resolving = [] →
        p'.registry.CoversType w o t →
        ∃ notices, resolveWithin w bound t p' = .ok s { p' with notices } := by
  induction bound with
  | zero => intro t p q s _ _ _ h; cases h
  | succ bound ih =>
    intro t p q s ht hp hidle h
    rcases resolveShape_cases h with ⟨u, r, hu, hr, rfl⟩ | ⟨hs, hm⟩ | ⟨hs, _⟩
    · rw [hp.overrides] at hu ⊢
      obtain ⟨hd, again⟩ := ih (closed ht (.part hu)) hp hidle hr
      refine ⟨.of_part hu hd, fun p' hp' hidle' hc => ?_⟩
      obtain ⟨notices, found⟩ := again p' hp' hidle' (hc.part hu)
      refine ⟨notices, ?_⟩
      change resolveShape w (resolveWithin w bound) t p' = _
      rw [resolveShape_of_part (hp'.overrides.symm ▸ hu), hp'.overrides]
      exact bind_of_ok found
    · rw [hp.overrides] at hs
      have hd := resolveModel_idle hs hm hp hidle
      refine ⟨hd, fun p' hp' hidle' hc => ?_⟩
      change ∃ notices, resolveShape w (resolveWithin w bound) t p' = _
      rw [resolveShape_of_model (hp'.overrides.symm ▸ hs)]
      exact resolveModel_again apart ht hs hd hp' hidle' hc
    · rw [hp.overrides] at hs
      exact ⟨.of_flat hs, fun p' hp' _ _ => resolveShape_of_flat (hp'.overrides.symm ▸ hs)⟩

end Owns

end Run

/-- A step that gives a result or runs out of the steps that it may take inside one another. -/
def Run.Halts {α : Type} (x : Run α) (p : Progress) : Prop :=
  (∃ a q, x p = .ok a q) ∨ ∃ q, x p = .error .endless q

theorem World.Denotes.exists_part (h : w.Denotes o t s) (hp : w.PartOf o t u) :
    ∃ s', w.Denotes o u s' := by
  unfold World.PartOf at hp
  cases h with
  | fixed h | array h | map h | unmappable h => rw [h] at hp; cases hp
  | alike h hu | items h hu | values h hu => rw [h] at hp; cases hp; exact ⟨_, hu⟩
  | object h hn => rw [h.shape] at hp; cases hp
  | fieldless h hn hf => rw [h] at hp; cases hp

theorem exists_of_mem_left {α β : Type} {R : α → β → Prop} {xs : List α} {ys : List β}
    (h : List.Forall₂ R xs ys) {x : α} (hx : x ∈ xs) : ∃ y ∈ ys, R x y := by
  induction h with
  | nil => cases hx
  | cons hxy _ ih =>
    rcases List.mem_cons.1 hx with rfl | hx
    · exact ⟨_, List.mem_cons_self, hxy⟩
    · obtain ⟨y, hy, hxy⟩ := ih hx
      exact ⟨y, List.mem_cons_of_mem _ hy, hxy⟩

section Faithful

variable (closed : ∀ {t u : TypeExpr}, M t → w.Descends o t u → M u) (apart : w.NamesApart o M)

namespace Registry.Faithful

variable {r r' : Registry}

include apart in
/-- Faithful registries have the same model under a name that both have. -/
theorem model_unique (h : r.Faithful w o M) (h' : r'.Faithful w o M) {model model' : Schema}
    (hm : r.models.get? name = some model) (hm' : r'.models.get? name = some model') :
    model = model' := by
  obtain ⟨t, fields, schemas, holds⟩ := h.models hm
  obtain ⟨t', fields', schemas', holds'⟩ := h'.models hm'
  obtain rfl : fields = fields' :=
    holds.object.unique holds'.object (apart.objects holds.toNames holds'.toNames)
  have hschemas : schemas = schemas' := List.right_unique_forall₂'
    (R := fun (f : ModelField) s => w.Denotes o f.type s) (fun _ _ _ h h' => h.unique h')
    holds.denotes holds'.denotes
  rw [holds.model, holds'.model, hschemas]

include closed apart in
/-- A type that a complete registry covers has a schema, and so has every type below it. -/
theorem denotable (h : r.Faithful w o M) (hdone : r.resolving = []) (ht : M t)
    (hd : w.Denotes o t s) (hc : r.CoversType w o t) : w.Denotable o t := by
  intro u hu
  induction hu with
  | refl => exact ⟨s, hd⟩
  | @tail u v hu step ih =>
    obtain ⟨s, hs⟩ := ih
    cases step with
    | part hp => exact hs.exists_part hp
    | field hfields hf =>
      obtain ⟨hmet, hcovers⟩ := h.covers_below closed apart hdone ht hc hu
      obtain ⟨_, _, _, _, holds⟩ := h.exists_holds_of_covers apart hdone hmet hfields hcovers
      obtain ⟨s, _, hs⟩ := exists_of_mem_left holds.denotes hf
      exact ⟨s, hs⟩

end Registry.Faithful

end Faithful

/-- A type that has a schema, and leads to no type without one, is resolved, unless resolution nests
too deep. -/
theorem Run.resolveWithin_halts {p : Progress} (bound : Nat) (h : w.Denotable o t)
    (ho : p.registry.overrides = o) : Halts (resolveWithin w bound t) p := by
  unfold Halts
  cases hr : resolveWithin w bound t p with
  | ok s q => exact .inl ⟨s, q, rfl⟩
  | error e q =>
    rcases resolveWithin_error hr ho with rfl | ⟨u, hu, nameless⟩
    · exact .inr ⟨q, rfl⟩
    · obtain ⟨s, hs⟩ := h u hu
      exact absurd nameless hs.not_nameless

end ApiCompiler
