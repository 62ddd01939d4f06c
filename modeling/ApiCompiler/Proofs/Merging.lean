import ApiCompiler.Proofs.Denotation
import ApiCompiler.Proofs.Registry
import ApiCompiler.Proofs.Slots

/-!
# Models that fields are merged into

When a model is built under a name that has one, the fields that were there stay where they are, and
new ones come after them. A copy that was made before can be told from the model by that: uniting
such a copy with the model, as the document does, gives the model itself. While a model is being
built its name is closed, so that nothing is merged into it from below.
-/

set_option autoImplicit false

namespace ApiCompiler

namespace Table

variable {α : Type} {keys more : List String}

theorem prefix_foldl_addKey (keys more : List String) : keys <+: more.foldl addKey keys := by
  induction more generalizing keys with
  | nil => exact List.prefix_rfl
  | cons k more ih =>
    refine List.IsPrefix.trans ?_ (ih _)
    unfold addKey
    split
    · exact List.prefix_rfl
    · exact List.prefix_append _ _

theorem nodup_foldl_addKey (h : keys.Nodup) : (more.foldl addKey keys).Nodup := by
  induction more generalizing keys with
  | nil => exact h
  | cons k more ih =>
    refine ih ?_
    unfold addKey
    split
    · exact h
    · rename_i hk
      refine List.nodup_append.2 ⟨h, List.pairwise_singleton _ _, fun a ha b hb => ?_⟩
      rw [List.mem_singleton.1 hb]
      rintro rfl
      exact hk ha

theorem foldl_addKey_of_nodup (h : (keys ++ more).Nodup) :
    more.foldl addKey keys = keys ++ more := by
  induction more generalizing keys with
  | nil => exact (List.append_nil keys).symm
  | cons k more ih =>
    have hk : k ∉ keys := fun hk => (List.nodup_append.1 h).2.2 k hk k List.mem_cons_self rfl
    rw [List.foldl_cons, addKey, if_neg hk, ih (by rwa [List.append_assoc]), List.append_assoc]
    rfl

/-- Adding a list to a part of it that it begins with gives the whole list. -/
theorem foldl_addKey_of_prefix (h : keys <+: more) (hm : more.Nodup) :
    more.foldl addKey keys = more := by
  obtain ⟨rest, rfl⟩ := h
  rw [List.foldl_append, foldl_addKey_of_subset fun _ hk => hk, foldl_addKey_of_nodup hm]

theorem Distinct.lastAt {t : Table α} (h : t.Distinct) (key : String) :
    Table.lastAt t key = Table.get? t key := by
  induction t with
  | nil => rfl
  | cons e t ih =>
    obtain ⟨k, a⟩ := e
    obtain ⟨hnew, ht⟩ := List.nodup_cons.1 h
    rw [lastAt_cons, ih ht, get?_cons]
    by_cases hk : k = key
    · have absent : Table.get? t key = none := by
        rw [← Option.not_isSome_iff_eq_none]
        exact fun hhas => hnew (hk ▸ has_iff_mem_keys.1 hhas)
      rw [absent, Option.none_or]
    · rw [if_neg hk, if_neg hk, Option.or_none]

/-- Writing a whole table over the part that it begins with gives the table. -/
theorem Distinct.merge_of_prefix {t u : Table α} (hu : u.Distinct) (h : t.keys <+: u.keys) :
    t.merge u = u := by
  have ht : t.Distinct := h.sublist.nodup hu
  have hkeys : (t.merge u).keys = u.keys := by rw [keys_merge, foldl_addKey_of_prefix h hu]
  refine (ht.merge u).ext hkeys fun key hkey => ?_
  obtain ⟨a, ha⟩ := Option.isSome_iff_exists.1 (has_iff_mem_keys.2 (hkeys ▸ hkey))
  rw [get?_merge, hu.lastAt, ha, Option.some_or]

end Table

theorem distinctNames_append (names more : List String) :
    distinctNames (names ++ more) = more.foldl Table.addKey (distinctNames names) :=
  List.foldl_append

theorem nodup_distinctNames (names : List String) : (distinctNames names).Nodup := by
  show (names.foldl Table.addKey []).Nodup
  exact Table.nodup_foldl_addKey List.nodup_nil

theorem distinctNames_of_nodup {names : List String} (h : names.Nodup) :
    distinctNames names = names :=
  Table.foldl_addKey_of_prefix List.nil_prefix h

namespace Schema

/-- The second schema has come from the first by merging fields into it. -/
structure MergedInto (old new : Schema) : Prop where
  properties : Table.keys old.properties <+: Table.keys new.properties
  required : distinctNames old.required <+: new.required
  nodup : new.required.Nodup

/-- A schema has been left as it is, or fields have been merged into it. -/
def KeptIn (old new : Schema) : Prop := new = old ∨ old.MergedInto new

theorem MergedInto.trans {s s' s'' : Schema} (h : s.MergedInto s') (h' : s'.MergedInto s'') :
    s.MergedInto s'' where
  properties := h.properties.trans h'.properties
  required := by
    refine h.required.trans ?_
    rw [← distinctNames_of_nodup h.nodup]
    exact h'.required
  nodup := h'.nodup

theorem KeptIn.trans {s s' s'' : Schema} (h : s.KeptIn s') (h' : s'.KeptIn s'') :
    s.KeptIn s'' := by
  rcases h' with rfl | h'
  · exact h
  · rcases h with rfl | h
    · exact .inr h'
    · exact .inr (h.trans h')

/-- Uniting an earlier copy with a model gives the model. -/
theorem MergedInto.unite {old new : Schema} (h : old.MergedInto new)
    (hd : Table.Distinct new.properties) : Document.unite old new = new := by
  have required : distinctNames (old.required ++ new.required) = new.required := by
    rw [distinctNames_append, Table.foldl_addKey_of_prefix h.required h.nodup]
  cases new
  rw [Document.unite, required, hd.merge_of_prefix h.properties]

end Schema

namespace Registry

/-- The properties of each model are distinct. -/
def Distinct (r : Registry) : Prop :=
  ∀ name model, r.models.get? name = some model → Table.Distinct model.properties

/-- From one registry to another by building models. -/
structure Evolves (r r' : Registry) : Prop where
  overrides : r'.overrides = r.overrides
  resolving : r'.resolving = r.resolving
  models : ∀ name old, r.models.get? name = some old →
    ∃ new, r'.models.get? name = some new ∧ old.KeptIn new
  closed : ∀ name ∈ r.resolving, r'.models.get? name = r.models.get? name
  distinct : r.Distinct → r'.Distinct

namespace Evolves

theorem refl (r : Registry) : r.Evolves r :=
  ⟨rfl, rfl, fun _ old h => ⟨old, h, .inl rfl⟩, fun _ _ => rfl, id⟩

theorem trans {r r' r'' : Registry} (h : r.Evolves r') (h' : r'.Evolves r'') : r.Evolves r'' where
  overrides := h'.overrides.trans h.overrides
  resolving := h'.resolving.trans h.resolving
  models name old hold := by
    obtain ⟨mid, hmid, kept⟩ := h.models name old hold
    obtain ⟨new, hnew, kept'⟩ := h'.models name mid hmid
    exact ⟨new, hnew, kept.trans kept'⟩
  closed name hname := (h'.closed name (h.resolving ▸ hname)).trans (h.closed name hname)
  distinct hr := h'.distinct (h.distinct hr)

end Evolves

end Registry

namespace Run

variable {w : World} {f : TypeExpr → Run Schema} {t : TypeExpr} {name : String}
  {fields : List ModelField} {properties : Table Schema} {required : List String}
  {p q : Progress} {s : Schema}

/-- What fields make: a property for each of them, under its name. -/
theorem resolveFields_out {out : Table Schema × List String}
    (h : resolveFields f fields properties required p = .ok out q) :
    ∃ schemas, schemas.length = fields.length ∧
      out = (properties.merge (World.fieldProperties fields schemas),
        required ++ World.requiredNames fields) := by
  induction fields generalizing properties required p with
  | nil =>
    obtain ⟨rfl, _⟩ := pure_ok.1 h
    refine ⟨[], rfl, ?_⟩
    rw [World.requiredNames, List.filter_nil, List.map_nil, List.append_nil]
    rfl
  | cons m ms ih =>
    obtain ⟨s, r, _, h⟩ := bind_ok.1 h
    obtain ⟨schemas, hlength, rfl⟩ := ih h
    refine ⟨s :: schemas, congrArg (· + 1) hlength, ?_⟩
    cases hr : m.required <;> simp [World.requiredNames, World.fieldProperties, Table.merge,
      ModelField.schemaOf, hr]

theorem keys_fieldProperties {schemas : List Schema} (h : schemas.length = fields.length) :
    Table.keys (World.fieldProperties fields schemas) = fields.map ModelField.name := by
  induction fields generalizing schemas with
  | nil => rfl
  | cons m ms ih =>
    cases schemas with
    | nil => cases h
    | cons s schemas => exact congrArg (m.name :: ·) (ih (Nat.succ.inj h))

/-- The properties of fields come in the order of the fields. -/
theorem keys_of_resolveFields (h : resolveFields f fields [] [] p = .ok (properties, required) q) :
    properties.keys = (fields.map ModelField.name).foldl Table.addKey [] := by
  obtain ⟨schemas, hlength, hout⟩ := resolveFields_out h
  rw [(Prod.mk.inj hout).1, Table.keys_merge, keys_fieldProperties hlength]
  rfl

theorem distinct_of_resolveFields
    (h : resolveFields f fields [] [] p = .ok (properties, required) q) : properties.Distinct := by
  unfold Table.Distinct
  rw [keys_of_resolveFields h]
  exact Table.nodup_foldl_addKey List.nodup_nil

theorem has_objectModel {known : Option Schema} {k : String} :
    Table.has (objectModel name known properties required).properties k ↔
      (∃ old, known = some old ∧ Table.has old.properties k) ∨ properties.has k := by
  cases known with
  | none => exact ⟨.inr, fun h => h.resolve_left nofun⟩
  | some old =>
    show Table.has (Table.merge old.properties properties) k ↔ _
    rw [Table.has_merge]
    exact or_congr_left ⟨fun h => ⟨old, rfl, h⟩, by rintro ⟨_, ⟨⟩, h⟩; exact h⟩

theorem distinct_objectModel {known : Option Schema}
    (hk : ∀ old, known = some old → Table.Distinct old.properties) (hp : properties.Distinct) :
    Table.Distinct (objectModel name known properties required).properties := by
  cases known with
  | none => exact hp
  | some old => exact (hk old rfl).merge properties

theorem objectModel_mergedInto (old : Schema) :
    old.MergedInto (objectModel name (some old) properties required) where
  properties := by
    show Table.keys old.properties <+: (Table.merge old.properties properties).keys
    rw [Table.keys_merge]
    exact Table.prefix_foldl_addKey _ _
  required := by
    show distinctNames old.required <+: distinctNames (old.required ++ required)
    rw [distinctNames_append]
    exact Table.prefix_foldl_addKey _ _
  nodup := nodup_distinctNames _

theorem resolveFields_evolves
    (hf : ∀ ⦃t p q s⦄, f t p = .ok s q → p.registry.Evolves q.registry)
    {out : Table Schema × List String}
    (h : resolveFields f fields properties required p = .ok out q) :
    p.registry.Evolves q.registry := by
  induction fields generalizing properties required p with
  | nil =>
    obtain ⟨_, rfl⟩ := pure_ok.1 h
    exact .refl _
  | cons m ms ih =>
    obtain ⟨s, r, hs, h⟩ := bind_ok.1 h
    exact (hf hs).trans (ih h)

theorem buildModel_evolves
    (hf : ∀ ⦃t p q s⦄, f t p = .ok s q → p.registry.Evolves q.registry) {u : Unit}
    (hnew : name ∉ p.registry.resolving) (h : buildModel f t name fields p = .ok u q) :
    p.registry.Evolves q.registry := by
  obtain ⟨properties, required, r, hr, rfl⟩ := buildModel_iff.1 h
  have inside := resolveFields_evolves hf hr
  have known : r.registry.models.get? name = p.registry.models.get? name :=
    inside.closed name List.mem_cons_self
  refine ⟨inside.overrides, ?_, fun n old hold => ?_, fun n hn => ?_, fun hp n model hm => ?_⟩
  · show r.registry.resolving.erase name = p.registry.resolving
    rw [inside.resolving]
    exact List.erase_cons_head name p.registry.resolving
  · show ∃ new, (r.registry.models.insert name _).get? n = some new ∧ _
    rw [Table.get?_insert]
    by_cases hname : name = n
    · subst hname
      rw [if_pos rfl, hold]
      exact ⟨_, rfl, .inr (objectModel_mergedInto old)⟩
    · rw [if_neg hname]
      exact inside.models n old hold
  · show (r.registry.models.insert name _).get? n = _
    have hne : name ≠ n := fun he => hnew (he ▸ hn)
    rw [Table.get?_insert, if_neg hne]
    exact inside.closed n (List.mem_cons_of_mem _ hn)
  · change (r.registry.models.insert name _).get? n = some model at hm
    rw [Table.get?_insert] at hm
    split at hm
    · rw [← Option.some.inj hm]
      exact distinct_objectModel (hp name) (distinct_of_resolveFields hr)
    · exact inside.distinct hp n model hm

theorem resolveModel_evolves
    (hf : ∀ ⦃t p q s⦄, f t p = .ok s q → p.registry.Evolves q.registry)
    (h : resolveModel w f t p = .ok s q) : p.registry.Evolves q.registry := by
  obtain ⟨name, _, hn, _⟩ := bind_ok.1 h
  rw [resolveModel_apply (ofExcept_ok.1 hn).1] at h
  split at h
  · cases h
    exact .refl _
  · rename_i new
    split at h
    · cases h
      exact .refl _
    · obtain ⟨u, _, hb, h⟩ := bind_ok.1 h
      obtain ⟨_, rfl⟩ := pure_ok.1 h
      exact buildModel_evolves hf (fun hmem => new (.inl hmem)) hb

/-- Resolving a type merges fields into models, and nothing else happens to those that are there. -/
theorem resolveWithin_evolves (w : World) {bound : Nat} (h : resolveWithin w bound t p = .ok s q) :
    p.registry.Evolves q.registry := by
  induction bound generalizing t p q s with
  | zero => cases h
  | succ bound ih =>
    have ih : ∀ ⦃t p q s⦄, resolveWithin w bound t p = .ok s q →
        p.registry.Evolves q.registry := fun _ _ _ _ h => ih h
    rcases resolveShape_cases h with ⟨u, r, _, hu, _⟩ | ⟨_, hm⟩ | ⟨_, _, rfl⟩
    · exact ih hu
    · exact resolveModel_evolves ih hm
    · exact .refl _

end Run

end ApiCompiler
