import ApiCompiler.Proofs.Agreement
import ApiCompiler.Proofs.FreshResolver

/-!
# Fields of namesakes

Object types may share the name of their model, and the model then is to have the fields of all of
them. Resolution closes a name while a model of that name is being built, whatever type it is built
from. A type below another one of its name is therefore left out, and so is what only it leads to.
`World.Shadows` names such pairs. Fields are merged wherever no shadow falls: the types that have
been finished and those that are being built are followed through the registry, as in any search
that goes depth first.
-/

set_option autoImplicit false

namespace ApiCompiler

section Definitions

variable (w : World) (o : Overrides) (M : TypeExpr → Prop)

/-- Two object types of one name, the first of which leads to the second or counts as the same. -/
structure World.Shadows (v u : TypeExpr) : Prop where
  namesakes : ∃ name fields fields', w.Names o M name v fields ∧ w.Names o M name u fields'
  other : v.bare ≠ u.bare
  above : Relation.ReflTransGen (w.Descends o) v u ∨ u.bare.same v.bare = true

/-- No type casts a shadow on the type. -/
def World.Unshadowed (u : TypeExpr) : Prop := ∀ v, ¬ w.Shadows o M v u

/-- There is a way from the first type to the second one on which no shadow falls. -/
def World.LeadsOpenly (t u : TypeExpr) : Prop :=
  w.Unshadowed o M t ∧
    Relation.ReflTransGen (fun a b => w.Descends o a b ∧ w.Unshadowed o M b) t u

/-- The object type that the schema of a type refers to, if there is one and it is not in a shadow,
is among those given. -/
def World.RefersInto (S : TypeExpr → Prop) (t : TypeExpr) : Prop :=
  w.Referred o (fun u => w.Unshadowed o M u → S u.bare) t

/-- The object types that have been finished have all their fields in the registry, and their fields
refer to object types that have been finished or are being built. -/
structure Registry.Explored (r : Registry) (done building : TypeExpr → Prop) : Prop where
  sources : ∀ ⦃name source⦄, r.models.has name → r.sources.get? name = some source →
    done source ∧ ∃ u fields, w.Names o M name u fields ∧ u.bare = source
  fields : ∀ ⦃u fields⦄, done u.bare → w.HasFields o u fields →
    ∃ name m, w.modelName u.bare = .ok name ∧ r.models.get? name = some m ∧
      ∀ f ∈ fields, Table.has m.properties f.name
  below : ∀ ⦃u fields⦄, done u.bare → w.HasFields o u fields →
    ∀ f ∈ fields, w.RefersInto o M (fun b => done b ∨ building b) f.type

/-- What a resolver does to an explored registry. -/
def Run.Explores (f : TypeExpr → Run Schema) : Prop :=
  ∀ ⦃t : TypeExpr⦄ ⦃p q : Progress⦄ ⦃s : Schema⦄ ⦃done building : TypeExpr → Prop⦄, M t →
    f t p = .ok s q → p.registry.overrides = o → p.registry.Explored w o M done building →
    p.registry.Encloses w o (fun u => M u ∧ building u.bare) t →
    ∃ done', (∀ b, done b → done' b) ∧ q.registry.Explored w o M done' building ∧
      w.RefersInto o M (fun b => done' b ∨ building b) t

end Definitions

variable {w : World} {o : Overrides} {M : TypeExpr → Prop} {t u : TypeExpr} {s : Schema}
  {name : String} {fields : List ModelField}

theorem World.RefersInto.mono {S S' : TypeExpr → Prop} (h : ∀ b, S b → S' b)
    (ht : w.RefersInto o M S t) : w.RefersInto o M S' t :=
  Referred.mono (fun u hu hopen => h u.bare (hu hopen)) ht

namespace Registry

theorem Encloses.mono {r : Registry} {M' : TypeExpr → Prop} (hM : ∀ t, M t → M' t)
    (h : r.Encloses w o M t) : r.Encloses w o M' t := by
  intro n hn
  obtain ⟨u, fields, hu, ht⟩ := h n hn
  exact ⟨u, fields, ⟨hM u hu.met, hu.object, hu.named⟩, ht⟩

/-- A type whose name is closed is being built, unless it is in a shadow. -/
theorem Encloses.building_of_mem {r : Registry} {building : TypeExpr → Prop}
    (he : r.Encloses w o (fun u => M u ∧ building u.bare) t) (ht : M t)
    (hn : w.modelName t.bare = .ok name) (hr : name ∈ r.resolving) (hf : w.HasFields o t fields)
    (hopen : w.Unshadowed o M t) : building t.bare := by
  obtain ⟨v, fields', hv, hvt⟩ := he name hr
  by_cases hbare : v.bare = t.bare
  · exact hbare ▸ hv.met.2
  · exact absurd ⟨⟨name, fields', fields, ⟨hv.met.1, hv.object, hv.named⟩, ht, hf, hn⟩, hbare,
      .inl hvt⟩ (hopen v)

namespace Explored

variable {r : Registry} {done building : TypeExpr → Prop}

theorem start : Explored w o M { overrides := o } (fun _ => False) building :=
  ⟨nofun, nofun, nofun⟩

/-- A type whose model is current has been finished, unless it is in a shadow. -/
theorem of_isCurrent (h : r.Explored w o M done building) (ht : M t)
    (hn : w.modelName t.bare = .ok name) (hr : r.isCurrent name t.bare = true)
    (hf : w.HasFields o t fields) (hopen : w.Unshadowed o M t) : done t.bare := by
  unfold isCurrent at hr
  obtain ⟨hhas, hsame⟩ := Bool.and_eq_true_iff.1 hr
  cases hget : r.sources.get? name with
  | none =>
    rw [hget] at hsame
    cases hsame
  | some source =>
    rw [hget, Option.any_some] at hsame
    obtain ⟨hdone, v, fields', hv, rfl⟩ := h.sources hhas hget
    by_cases hbare : v.bare = t.bare
    · exact hbare ▸ hdone
    · exact absurd ⟨⟨name, fields', fields, hv, ht, hf, hn⟩, hbare, .inr hsame⟩ (hopen v)

/-- Closing a name to build the model of a type. -/
theorem push (h : r.Explored w o M done building) :
    Explored w o M { r with resolving := name :: r.resolving } done
      (fun b => b = t.bare ∨ building b) where
  sources := h.sources
  fields := h.fields
  below _ _ hu hf f hmem := (h.below hu hf f hmem).mono fun _ => Or.imp_right .inr

/-- The model of a type is put in place, over what the name has had before. -/
theorem put {known : Option Schema} {properties : Table Schema} {required : List String}
    (h : r.Explored w o M done (fun b => b = t.bare ∨ building b))
    (hknown : r.models.get? name = known) (ht : w.Names o M name t fields)
    (hfields : ∀ f ∈ fields, properties.has f.name)
    (hbelow : ∀ f ∈ fields,
      w.RefersInto o M (fun b => done b ∨ b = t.bare ∨ building b) f.type)
    (resolving : List String) :
    Explored w o M
      { r.put name (Run.objectModel name known properties required) t.bare with resolving }
      (fun b => done b ∨ b = t.bare) building where
  sources n source hhas hsource := by
    change (r.sources.insert name t.bare).get? n = some source at hsource
    rw [Table.get?_insert] at hsource
    split at hsource
    · rename_i hname
      subst hname
      exact ⟨.inr (Option.some.inj hsource).symm, t, fields, ht, Option.some.inj hsource⟩
    · rename_i hname
      have hhas : r.models.has n := (Table.has_insert.1 hhas).resolve_left hname
      obtain ⟨hdone, hnames⟩ := h.sources hhas hsource
      exact ⟨.inl hdone, hnames⟩
  fields u fields' hu hf := by
    rcases hu with hu | hu
    · obtain ⟨n, m, hn, hm, hall⟩ := h.fields hu hf
      by_cases hname : name = n
      · subst hname
        exact ⟨name, _, hn, (Table.get?_insert _ _ _ _).trans (if_pos rfl), fun f hmem =>
          Run.has_objectModel.2 (.inl ⟨m, hknown.symm.trans hm, hall f hmem⟩)⟩
      · exact ⟨n, m, hn, (Table.get?_insert _ _ _ _).trans ((if_neg hname).trans hm), hall⟩
    · obtain rfl := hf.unique ht.object hu
      exact ⟨name, _, hu ▸ ht.named, (Table.get?_insert _ _ _ _).trans (if_pos rfl),
        fun f hmem => Run.has_objectModel.2 (.inr (hfields f hmem))⟩
  below u fields' hu hf f hmem := by
    have regroup : ∀ b, done b ∨ b = t.bare ∨ building b → (done b ∨ b = t.bare) ∨ building b :=
      fun _ => or_assoc.2
    rcases hu with hu | hu
    · exact (h.below hu hf f hmem).mono regroup
    · obtain rfl := hf.unique ht.object hu
      exact (hbelow f hmem).mono regroup

end Explored

end Registry

namespace Run

variable {f : TypeExpr → Run Schema} {p q : Progress} {done building : TypeExpr → Prop}

theorem resolveFields_explores (hf : Explores w o M f)
    (hg : ∀ ⦃t p q s⦄, f t p = .ok s q → p.registry.Evolves q.registry)
    (done building : TypeExpr → Prop) {properties : Table Schema} {required : List String}
    {out : Table Schema × List String}
    (hM : ∀ m ∈ fields, M m.type ∧
      p.registry.Encloses w o (fun u => M u ∧ building u.bare) m.type)
    (h : resolveFields f fields properties required p = .ok out q)
    (ho : p.registry.overrides = o) (hp : p.registry.Explored w o M done building) :
    ∃ done', (∀ b, done b → done' b) ∧ q.registry.Explored w o M done' building ∧
      ∀ m ∈ fields, w.RefersInto o M (fun b => done' b ∨ building b) m.type := by
  induction fields generalizing properties required p done with
  | nil =>
    obtain ⟨_, rfl⟩ := pure_ok.1 h
    exact ⟨done, fun _ => id, hp, nofun⟩
  | cons m ms ih =>
    obtain ⟨s, r, hs, h⟩ := bind_ok.1 h
    obtain ⟨hmet, hencloses⟩ := hM m List.mem_cons_self
    have evolves := hg hs
    obtain ⟨done₁, grows₁, explored₁, refers₁⟩ := hf hmet hs ho hp hencloses
    have rest : ∀ m' ∈ ms, M m'.type ∧
        r.registry.Encloses w o (fun u => M u ∧ building u.bare) m'.type := by
      intro m' hm'
      obtain ⟨hmet', hencloses'⟩ := hM m' (List.mem_cons_of_mem _ hm')
      exact ⟨hmet', hencloses'.of_resolving evolves.resolving⟩
    obtain ⟨done₂, grows₂, explored₂, refers₂⟩ :=
      ih done₁ rest h (evolves.overrides.trans ho) explored₁
    refine ⟨done₂, fun b hb => grows₂ b (grows₁ b hb), explored₂, fun m' hm' => ?_⟩
    rcases List.mem_cons.1 hm' with rfl | hm'
    · exact refers₁.mono fun b => Or.imp_left (grows₂ b)
    · exact refers₂ m' hm'

section Closed

variable (closed : ∀ {t u : TypeExpr}, M t → w.Descends o t u → M u)
include closed

theorem buildModel_explores (hf : Explores w o M f)
    (hg : ∀ ⦃t p q s⦄, f t p = .ok s q → p.registry.Evolves q.registry) {v : Unit}
    (ht : w.Names o M name t fields)
    (h : buildModel f t.bare name fields p = .ok v q) (ho : p.registry.overrides = o)
    (hp : p.registry.Explored w o M done building)
    (he : p.registry.Encloses w o (fun u => M u ∧ building u.bare) t) :
    ∃ done', (∀ b, done b → done' b) ∧ q.registry.Explored w o M done' building ∧
      done' t.bare := by
  obtain ⟨properties, required, r, hr, rfl⟩ := buildModel_iff.1 h
  have inside := resolveFields_evolves hg hr
  have known : r.registry.models.get? name = p.registry.models.get? name :=
    inside.closed name List.mem_cons_self
  have enclosed : Registry.Encloses w o (fun u => M u ∧ (u.bare = t.bare ∨ building u.bare))
      { p.registry with resolving := name :: p.registry.resolving } t :=
    (he.mono fun _ => And.imp_right .inr).push ⟨⟨ht.met, .inl rfl⟩, ht.object, ht.named⟩
  obtain ⟨done', grows, explored, refers⟩ := resolveFields_explores hf hg done
    (fun b => b = t.bare ∨ building b)
    (fun m hm => ⟨closed ht.met (.field ht.object hm), enclosed.descends (.field ht.object hm)⟩)
    hr ho hp.push
  have named : ∀ m ∈ fields, properties.has m.name := fun m hm => by
    rw [Table.has_iff_mem_keys, keys_of_resolveFields hr]
    exact Table.mem_foldl_addKey.2 (.inr (List.mem_map_of_mem hm))
  exact ⟨_, fun b hb => .inl (grows b hb), explored.put known ht named refers _, .inr rfl⟩

theorem resolveModel_explores (hf : Explores w o M f)
    (hg : ∀ ⦃t p q s⦄, f t p = .ok s q → p.registry.Evolves q.registry) (ht : M t)
    (hshape : w.shape o t = .model) (h : resolveModel w f t.bare p = .ok s q)
    (ho : p.registry.overrides = o) (hp : p.registry.Explored w o M done building)
    (he : p.registry.Encloses w o (fun u => M u ∧ building u.bare) t) :
    ∃ done', (∀ b, done b → done' b) ∧ q.registry.Explored w o M done' building ∧
      w.RefersInto o M (fun b => done' b ∨ building b) t := by
  have part : (w.shape o t).part? = none := by rw [hshape]; rfl
  obtain ⟨name, _, hn, _⟩ := bind_ok.1 h
  have hn := (ofExcept_ok.1 hn).1
  rw [resolveModel_apply hn] at h
  split at h
  · rename_i known
    cases h
    refine ⟨done, fun _ => id, hp, World.Referred.of_no_part part fun fields hfields hopen => ?_⟩
    rcases known with hr | hr
    · exact .inr (he.building_of_mem ht hn hr hfields hopen)
    · exact .inl (hp.of_isCurrent ht hn hr hfields hopen)
  · cases hfound : w.fieldsOf t.bare with
    | error reason =>
      rw [hfound] at h
      cases h
      refine ⟨done, fun _ => id, hp, World.Referred.of_no_part part fun fields hfields _ => ?_⟩
      cases hfound.symm.trans hfields.found
    | ok fields =>
      rw [hfound] at h
      obtain ⟨v, r, hb, h⟩ := bind_ok.1 h
      obtain ⟨_, rfl⟩ := pure_ok.1 h
      obtain ⟨done', grows, explored, finished⟩ :=
        buildModel_explores closed hf hg ⟨ht, ⟨hshape, hfound⟩, hn⟩ hb ho hp he
      exact ⟨done', grows, explored, World.Referred.of_no_part part fun _ _ _ => .inl finished⟩

/-- Resolution explores the types that it comes to. -/
theorem resolveWithin_explores (bound : Nat) : Explores w o M (resolveWithin w bound) := by
  induction bound with
  | zero =>
    intro t p q s done building _ h
    cases h
  | succ bound ih =>
    intro t p q s done building ht h ho hp he
    rcases resolveShape_cases h with ⟨u, r, hu, hr, _⟩ | ⟨hs, hm⟩ | ⟨hs, _, rfl⟩
    · rw [ho] at hu
      obtain ⟨done', grows, explored, refers⟩ :=
        ih (closed ht (.part hu)) hr ho hp (he.descends (.part hu))
      exact ⟨done', grows, explored, World.Referred.of_part hu refers⟩
    · rw [ho] at hs
      exact resolveModel_explores closed ih (fun _ _ _ _ => resolveWithin_evolves w) ht hs hm ho hp
        he
    · rw [ho] at hs
      exact ⟨done, fun _ => id, hp, World.Referred.of_flat hs⟩

end Closed

end Run

section Closed

variable (closed : ∀ {t u : TypeExpr}, M t → w.Descends o t u → M u)
include closed

/-- Resolving types one after the other leads to explored registries in which nothing is being
built. -/
theorem World.Reached.explored {ts : List TypeExpr} {r : Registry} (h : w.Reached o ts r)
    (ht : ∀ t ∈ ts, M t) :
    r.overrides = o ∧ r.resolving = [] ∧ ∃ done, r.Explored w o M done fun _ => False := by
  induction h with
  | start => exact ⟨rfl, rfl, _, .start⟩
  | resolve _ hs ih =>
    obtain ⟨overrides, idle, done, explored⟩ := ih fun t h => ht t (List.mem_cons_of_mem _ h)
    have evolves := Run.resolveWithin_evolves w hs
    obtain ⟨done', _, explored', _⟩ := Run.resolveWithin_explores closed _
      (ht _ List.mem_cons_self) hs overrides explored (Registry.encloses_of_done idle)
    exact ⟨evolves.overrides.trans overrides, evolves.resolving.trans idle, done', explored'⟩

end Closed

namespace Run

/-- The model of an object type that is built anew has the properties that were there before, and
those of its own fields; nothing that is built on the way adds to them. -/
theorem resolveWithin_properties {bound : Nat} {p q : Progress}
    (h : resolveWithin w bound t p = .ok s q) (hidle : p.registry.resolving = [])
    (hf : w.HasFields p.registry.overrides t fields) (hn : w.modelName t.bare = .ok name)
    (hnew : p.registry.isCurrent name t.bare = false) :
    ∃ m, q.registry.models.get? name = some m ∧ ∀ k, Table.has m.properties k ↔
      (∃ old, p.registry.models.get? name = some old ∧ Table.has old.properties k) ∨
        k ∈ fields.map ModelField.name := by
  cases bound with
  | zero => cases h
  | succ bound =>
    rcases resolveShape_cases h with ⟨u, r, hu, _⟩ | ⟨_, h⟩ | ⟨hs, _⟩
    · exact absurd hu hf.not_partOf
    · have fresh : ¬ (name ∈ p.registry.resolving ∨
          p.registry.isCurrent name t.bare = true) := by
        rw [hidle, hnew]
        rintro (h | h) <;> cases h
      rw [resolveModel_apply hn, if_neg fresh, hf.found] at h
      obtain ⟨v, r, hb, h⟩ := bind_ok.1 h
      obtain ⟨_, rfl⟩ := pure_ok.1 h
      obtain ⟨properties, required, r, hr, rfl⟩ := buildModel_iff.1 hb
      refine ⟨_, (Table.get?_insert _ _ _ _).trans (if_pos rfl), fun k => ?_⟩
      rw [has_objectModel, Table.has_iff_mem_keys (t := properties), keys_of_resolveFields hr,
        Table.mem_foldl_addKey]
      simp
    · rw [hf.shape] at hs
      cases hs

/-- No field is lost where no shadow falls. After resolving types one after the other, each of them
in full, every object type that the last one leads to openly has all its fields in the model of its
name, whatever other types have that name. In a shadow fields are lost: when the last type is an
object type whose model is built anew, the model gets the type's own fields and no others. -/
theorem resolve_fields {ts : List TypeExpr} {bound : Nat} {p q : Progress}
    (hp : w.Reached o ts p.registry) (h : resolveWithin w bound t p = .ok s q) :
    (∀ u fields, w.LeadsOpenly o (w.Met o (t :: ts)) t u → w.HasFields o u fields →
      ∃ name m, w.modelName u.bare = .ok name ∧ q.registry.models.get? name = some m ∧
        ∀ f ∈ fields, Table.has m.properties f.name) ∧
    ∀ fields name, w.HasFields o t fields → w.modelName t.bare = .ok name →
      p.registry.isCurrent name t.bare = false →
      ∃ m, q.registry.models.get? name = some m ∧ ∀ k, Table.has m.properties k ↔
        (∃ old, p.registry.models.get? name = some old ∧ Table.has old.properties k) ∨
          k ∈ fields.map ModelField.name := by
  have closed {t' u' : TypeExpr} (ht : w.Met o (t :: ts) t') (hd : w.Descends o t' u') :
      w.Met o (t :: ts) u' := ht.trans (.single hd)
  have met : w.Met o (t :: ts) t := .of_mem List.mem_cons_self
  obtain ⟨ho, idle, done, explored⟩ := hp.explored closed fun t' ht' =>
    .of_mem (List.mem_cons_of_mem _ ht')
  obtain ⟨done', _, explored', refers⟩ := resolveWithin_explores closed bound met h ho explored
    (Registry.encloses_of_done idle)
  refine ⟨fun u fields hu hf => ?_, fun fields name hf hn hnew =>
    resolveWithin_properties h idle (ho.symm ▸ hf) hn hnew⟩
  -- Along the way, what a type refers to has been finished; a step through a field uses that the
  -- type with the field is in no shadow.
  have onWay : w.Met o (t :: ts) u ∧ w.Unshadowed o (w.Met o (t :: ts)) u ∧
      w.RefersInto o (w.Met o (t :: ts)) (fun b => done' b ∨ False) u := by
    obtain ⟨hopen, hway⟩ := hu
    clear hf
    induction hway with
    | refl => exact ⟨met, hopen, refers⟩
    | tail _ hstep ih =>
      obtain ⟨hmet, hopen', refers'⟩ := ih
      obtain ⟨hd, hopen''⟩ := hstep
      refine ⟨closed hmet hd, hopen'', ?_⟩
      cases hd with
      | part hpart => exact World.Referred.part hpart refers'
      | field hfields hmem =>
        have finished := (refers' .refl hfields hopen').resolve_right id
        exact explored'.below finished hfields _ hmem
  obtain ⟨_, hopen, refers'⟩ := onWay
  have finished : done' u.bare := (refers' .refl hf hopen).resolve_right id
  exact explored'.fields finished hf

end Run

namespace World

def weighedFields : List ModelField := [
  { name := "weight", type := .builtin .int, required := true }]

def measuredFields : List ModelField := [
  { name := "height", type := .builtin .int, required := true }]

theorem shelf_weighed : shelf.HasFields [] (.declared 0) weighedFields := ⟨rfl, rfl⟩

theorem shelf_measured : shelf.HasFields [] (.declared 1) measuredFields := ⟨rfl, rfl⟩

theorem shelf_shelf : shelf.HasFields [] (.declared 2) [
    { name := "left", type := .declared 0, required := true },
    { name := "right", type := .declared 1, required := true }] := ⟨rfl, rfl⟩

/-- A box leads to itself and to numbers. -/
theorem shelf_below_box {t u : TypeExpr} (ht : t = .declared 0 ∨ t = .declared 1)
    (h : Relation.ReflTransGen (shelf.Descends []) t u) : u = t ∨ u = .builtin .int := by
  induction h with
  | refl => exact .inl rfl
  | tail _ hd ih =>
    rcases ih with rfl | rfl
    · cases hd with
      | part hp => rcases ht with rfl | rfl <;> cases hp
      | field hfields hf =>
        rcases ht with rfl | rfl
        · rw [hfields.unique shelf_weighed rfl] at hf
          exact .inr (List.mem_singleton.1 hf ▸ rfl)
        · rw [hfields.unique shelf_measured rfl] at hf
          exact .inr (List.mem_singleton.1 hf ▸ rfl)
    · cases hd with
      | part hp => cases hp
      | field hfields _ => cases hfields.shape

/-- The shelf leads to its boxes and to numbers. -/
theorem shelf_met {t : TypeExpr} (h : shelf.Met [] [.declared 2] t) :
    t = .declared 0 ∨ t = .declared 1 ∨ t = .declared 2 ∨ t = .builtin .int := by
  obtain ⟨root, hroot, h⟩ := h
  obtain rfl := List.mem_singleton.1 hroot
  rcases h.cases_head with rfl | ⟨u, hd, h⟩
  · exact .inr (.inr (.inl rfl))
  · cases hd with
    | part hp => cases hp
    | field hfields hf =>
      rw [hfields.unique shelf_shelf rfl] at hf
      rcases List.mem_cons.1 hf with rfl | hf
      · rcases shelf_below_box (.inl rfl) h with rfl | rfl
        · exact .inl rfl
        · exact .inr (.inr (.inr rfl))
      · obtain rfl := List.mem_singleton.1 hf
        rcases shelf_below_box (.inr rfl) h with rfl | rfl
        · exact .inr (.inl rfl)
        · exact .inr (.inr (.inr rfl))

theorem shelf_names {name : String} {t : TypeExpr} {fields : List ModelField}
    (h : shelf.Names [] (shelf.Met [] [.declared 2]) name t fields) :
    (t = .declared 0 ∨ t = .declared 1) ∧ "app.Box" = name ∨
      t = .declared 2 ∧ "app.Shelf" = name := by
  rcases shelf_met h.met with rfl | rfl | rfl | rfl
  · exact .inl ⟨.inl rfl, Except.ok.inj h.named⟩
  · exact .inl ⟨.inr rfl, Except.ok.inj h.named⟩
  · exact .inr ⟨rfl, Except.ok.inj h.named⟩
  · cases h.object.shape

/-- The boxes are side by side, so that none is in the shadow of the other. -/
theorem shelf_unshadowed (u : TypeExpr) : shelf.Unshadowed [] (shelf.Met [] [.declared 2]) u := by
  rintro v ⟨⟨name, fields, fields', hv, hu⟩, hother, habove⟩
  rcases shelf_names hv with ⟨hv, hn⟩ | ⟨rfl, hn⟩ <;>
    rcases shelf_names hu with ⟨hu, hn'⟩ | ⟨rfl, hn'⟩
  · rcases habove with h | h
    · rcases shelf_below_box hv h with rfl | rfl
      · exact hother rfl
      · rcases hu with hu | hu <;> cases hu
    · rcases hv with rfl | rfl <;> rcases hu with rfl | rfl
      · exact hother rfl
      · cases h
      · cases h
      · exact hother rfl
  · exact absurd (hn.trans hn'.symm) (by decide)
  · exact absurd (hn.trans hn'.symm) (by decide)
  · exact hother rfl

theorem shelf_leads {u : TypeExpr} (h : shelf.Descends [] (.declared 2) u) :
    shelf.LeadsOpenly [] (shelf.Met [] [.declared 2]) (.declared 2) u :=
  ⟨shelf_unshadowed _, .single ⟨h, shelf_unshadowed _⟩⟩

end World

/-- Both kinds of boxes have their fields in the one model of boxes. -/
theorem Run.resolve_fields_shelf :
    ∃ s q m, resolve World.shelf (.declared 2) {} = .ok s q ∧
      World.shelf.modelName (.declared 0) = .ok "app.Box" ∧
      World.shelf.modelName (.declared 1) = .ok "app.Box" ∧
      q.registry.models.get? "app.Box" = some m ∧
      Table.has m.properties "weight" ∧ Table.has m.properties "height" := by
  have returns : (resolve World.shelf (.declared 2)).observe (fun _ => ()) = some () := by
    decide +kernel
  obtain ⟨s, q, hq, _⟩ := observe_some returns
  obtain ⟨kept, _⟩ := resolve_fields (p := {}) .start hq
  obtain ⟨name, m, hn, hm, weighed⟩ := kept (.declared 0) World.weighedFields
    (World.shelf_leads (.field World.shelf_shelf List.mem_cons_self)) World.shelf_weighed
  obtain ⟨name', m', hn', hm', measured⟩ := kept (.declared 1) World.measuredFields
    (World.shelf_leads (.field World.shelf_shelf (List.mem_cons_of_mem _ List.mem_cons_self)))
    World.shelf_measured
  obtain rfl : "app.Box" = name := Except.ok.inj hn
  obtain rfl : "app.Box" = name' := Except.ok.inj hn'
  obtain rfl : m = m' := Option.some.inj (hm.symm.trans hm')
  exact ⟨s, q, m, hq, hn, hn', hm, weighed _ List.mem_cons_self, measured _ List.mem_cons_self⟩

/-- A box with a box of another class, and of the same qualified name, inside. -/
def World.nestedBoxes : World where
  decls := [
    .cls {
      name := "Box"
      qualname := "Box"
      above := [.builtin .object]
      annotations := [("weight", .builtin .int)] },
    .cls {
      name := "Box"
      qualname := "Box"
      above := [.builtin .object]
      annotations := [("inner", .declared 0)] }]
  names := [("Part", .declared 0), ("Box", .declared 1)]

/-- Two classes that refer to each other, and a field that no schema is found for. -/
def World.halted : World where
  decls := [
    .cls {
      name := "First"
      qualname := "First"
      above := [.builtin .object]
      annotations := [("second", .declared 1), ("rest", .applied (.builtin .list) [.ellipsis])] },
    .cls {
      name := "Second"
      qualname := "Second"
      above := [.builtin .object]
      annotations := [("first", .declared 0)] }]
  names := [("First", .declared 0), ("Second", .declared 1)]

/-- Fields are lost in two ways. The name of an inner box is closed while the model of the outer one
is being built. What has been resolved before a failure is not built again, although a model that
it refers to has never been registered. -/
theorem World.fields_lost :
    (nestedBoxes.Descends [] (.declared 1) (.declared 0) ∧
      nestedBoxes.HasFields [] (.declared 0)
        [{ name := "weight", type := .builtin .int, required := true }] ∧
      nestedBoxes.modelName (.declared 0) = .ok "app.Box" ∧
      nestedBoxes.modelName (.declared 1) = .ok "app.Box" ∧
      ∃ s q m, Run.resolve nestedBoxes (.declared 1) {} = .ok s q ∧
        q.registry.models.get? "app.Box" = some m ∧ Table.keys m.properties = ["inner"] ∧
        Table.has m.properties "weight" = false) ∧
    (halted.Descends [] (.declared 1) (.declared 0) ∧
      (∃ fields, halted.HasFields [] (.declared 0) fields) ∧
      halted.modelName (.declared 0) = .ok "app.First" ∧
      ∃ e p s q, Run.resolve halted (.declared 0) {} = .error e p ∧
        Run.resolve halted (.declared 1) p = .ok s q ∧
        q.registry.models.get? "app.First" = none) := by
  constructor
  · have outer : nestedBoxes.HasFields [] (.declared 1)
        [{ name := "inner", type := .declared 0, required := true }] := ⟨rfl, rfl⟩
    refine ⟨.field outer List.mem_cons_self, ⟨rfl, rfl⟩, rfl, rfl, ?_⟩
    have seen : (Run.resolve nestedBoxes (.declared 1)).observe (fun q =>
        (q.registry.models.get? "app.Box").map fun m => Table.keys m.properties) =
          some (some ["inner"]) := by decide +kernel
    obtain ⟨s, q, hq, hkeys⟩ := Run.observe_some seen
    obtain ⟨m, hm, hkeys⟩ := Option.map_eq_some_iff.1 hkeys
    refine ⟨s, q, m, hq, hm, hkeys, ?_⟩
    rw [← Bool.not_eq_true, Table.has_iff_mem_keys, hkeys]
    decide
  · have second : halted.HasFields [] (.declared 1)
        [{ name := "first", type := .declared 0, required := true }] := ⟨rfl, rfl⟩
    refine ⟨.field second List.mem_cons_self, ⟨_, rfl, rfl⟩, rfl, ?_⟩
    have seen : (match Run.resolve halted (.declared 0) {} with
        | .ok _ _ => none
        | .error _ p => match Run.resolve halted (.declared 1) p with
          | .error _ _ => none
          | .ok _ q => some (q.registry.models.has "app.First")) = some false := by decide +kernel
    cases hp : Run.resolve halted (.declared 0) {} with
    | ok s p => simp [hp] at seen
    | error e p =>
      cases hq : Run.resolve halted (.declared 1) p with
      | error e q => simp [hp, hq] at seen
      | ok s q =>
        simp only [hp, hq, Option.some.injEq] at seen
        have absent : q.registry.models.get? "app.First" = none := by
          rw [← Option.not_isSome_iff_eq_none, ← Table.has, seen]
          exact Bool.false_ne_true
        exact ⟨e, p, s, q, rfl, hq, absent⟩

end ApiCompiler
