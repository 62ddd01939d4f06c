import ApiCompiler.Proofs.FaithfulRegistry
import ApiCompiler.Proofs.Merging

/-!
# A resolver that has been used

Calls of a resolver follow one another, and some of them fail. Whatever they were, nothing is being
built afterwards, the overrides are the ones that the resolver was made with, and each model has
been gathered from types of its name: it requires what these require, and nothing else.
-/

set_option autoImplicit false

namespace ApiCompiler

namespace Run

theorem after_congr {α : Type} {x y : Run α} {p q : Progress} (h : x p = y q) :
    after x p = after y q := by
  unfold after
  rw [h]

/-- Returning something at the end changes no state. -/
theorem after_bind_pure {α β : Type} (x : Run α) (g : α → β) (p : Progress) :
    after (x >>= fun a => pure (g a)) p = after x p := by
  cases h : x p with
  | ok a q => rw [after_bind_of_ok h, after_of_ok h]; rfl
  | error e q => rw [after_of_error (bind_of_error h), after_of_error h]

end Run

section Definitions

variable (w : World) (o : Overrides) (M : TypeExpr → Prop)

/-- A model requires all that some type of its name requires, and nothing that none of them does.
Its properties have different names. -/
structure World.Gathers (name : String) (m : Schema) : Prop where
  distinct : Table.Distinct m.properties
  whole : ∃ t fields, w.Names o M name t fields ∧ World.requiredNames fields ⊆ m.required
  only : ∀ x ∈ m.required, ∃ t fields, w.Names o M name t fields ∧ x ∈ World.requiredNames fields

/-- Every model is gathered from types of its name, while some models are being built. -/
structure Registry.Gathered (r : Registry) (building : List String) : Prop where
  overrides : r.overrides = o
  resolving : r.resolving = building
  models : ∀ name m, r.models.get? name = some m → w.Gathers o M name m

/-- A resolver leaves the registry gathered, whether it finds a schema or fails. -/
def Run.Gathering (f : TypeExpr → Run Schema) : Prop :=
  ∀ ⦃t : TypeExpr⦄ ⦃p : Progress⦄ ⦃building : List String⦄, M t →
    p.registry.Gathered w o M building → (after (f t) p).registry.Gathered w o M building

/-- A registry after resolving some types one after the other, the last one first. Some may have
failed. -/
inductive World.Visited : List TypeExpr → Registry → Prop
  | start : Visited [] { overrides := o }
  | resolve {ts : List TypeExpr} {p : Progress} (h : Visited ts p.registry) (t : TypeExpr)
      (bound : Nat) : Visited (t :: ts) (Run.after (Run.resolveWithin w bound t) p).registry

end Definitions

variable {w : World} {o : Overrides} {M : TypeExpr → Prop} {t : TypeExpr} {name : String}
  {fields : List ModelField} {building : List String}

namespace World.Gathers

/-- What is built from a type besides what is known under its name. -/
theorem objectModel {known : Option Schema} {properties : Table Schema}
    (ht : w.Names o M name t fields) (hp : properties.Distinct)
    (hk : ∀ old, known = some old → w.Gathers o M name old) :
    w.Gathers o M name (Run.objectModel name known properties (requiredNames fields)) := by
  have distinct :
      Table.Distinct (Run.objectModel name known properties (requiredNames fields)).properties :=
    Run.distinct_objectModel (fun old hold => (hk old hold).distinct) hp
  cases known with
  | none => exact ⟨distinct, ⟨t, fields, ht, fun _ h => h⟩, fun x hx => ⟨t, fields, ht, hx⟩⟩
  | some old =>
    have required (x : String) :
        x ∈ (Run.objectModel name (some old) properties (requiredNames fields)).required ↔
          x ∈ old.required ∨ x ∈ requiredNames fields := by
      show x ∈ distinctNames (old.required ++ requiredNames fields) ↔ _
      rw [mem_distinctNames, List.mem_append]
    refine ⟨distinct, ⟨t, fields, ht, fun x hx => (required x).2 (.inr hx)⟩, fun x hx => ?_⟩
    rcases (required x).1 hx with hx | hx
    · exact (hk old rfl).only x hx
    · exact ⟨t, fields, ht, hx⟩

/-- Where all types of a name have the same fields, a model of the name requires what they do. -/
theorem mem_required {m : Schema} (h : w.Gathers o M name m)
    (alone : ∀ u fields', w.Names o M name u fields' → fields' = fields) (x : String) :
    x ∈ m.required ↔ x ∈ requiredNames fields := by
  constructor
  · intro hx
    obtain ⟨u, fields', hu, hx⟩ := h.only x hx
    exact alone u fields' hu ▸ hx
  · intro hx
    obtain ⟨u, fields', hu, whole⟩ := h.whole
    exact whole (alone u fields' hu ▸ hx)

end World.Gathers

namespace Registry.Gathered

variable {r : Registry}

theorem start : Gathered w o M { overrides := o } [] := ⟨rfl, rfl, nofun⟩

theorem withBuilding (h : r.Gathered w o M building) (names : List String) :
    Gathered w o M { r with resolving := names } names :=
  ⟨h.overrides, rfl, h.models⟩

theorem put {model : Schema} {source : TypeExpr} (h : r.Gathered w o M building)
    (hm : w.Gathers o M name model) : (r.put name model source).Gathered w o M building where
  overrides := h.overrides
  resolving := h.resolving
  models n m hn := by
    change (r.models.insert name model).get? n = some m at hn
    rw [Table.get?_insert] at hn
    split at hn
    · rename_i hname
      obtain rfl := Option.some.inj hn
      exact hname ▸ hm
    · exact h.models n m hn

end Registry.Gathered

namespace Run

variable {f : TypeExpr → Run Schema} {p : Progress}

theorem resolveFields_gathering (hf : Gathering w o M f) (hM : ∀ m ∈ fields, M m.type)
    (properties : Table Schema) (required : List String)
    (hp : p.registry.Gathered w o M building) :
    (after (resolveFields f fields properties required) p).registry.Gathered w o M building := by
  induction fields generalizing properties required p with
  | nil => exact hp
  | cons m ms ih =>
    have first := hf (hM m List.mem_cons_self) hp
    unfold resolveFields
    cases hs : f m.type p with
    | error e q =>
      rw [after_of_error hs] at first
      rw [after_of_error (bind_of_error hs)]
      exact first
    | ok s q =>
      rw [after_of_ok hs] at first
      rw [after_bind_of_ok hs]
      exact ih (fun m' hm' => hM m' (List.mem_cons_of_mem _ hm')) _ _ first

/-- A model that is begun is not being built any more when its fields have been resolved, and
neither when one of them has failed. -/
theorem buildModel_gathering (hf : Gathering w o M f) (hM : ∀ m ∈ fields, M m.type)
    (ht : w.Names o M name t fields) {source : TypeExpr}
    (hp : p.registry.Gathered w o M building) :
    (after (buildModel f source name fields) p).registry.Gathered w o M building := by
  have inside := resolveFields_gathering hf hM [] []
    (p := { p with registry.resolving := name :: p.registry.resolving })
    (hp.withBuilding (name :: p.registry.resolving))
  have erased {q : Progress} (hq : q.registry.resolving = name :: p.registry.resolving) :
      q.registry.resolving.erase name = building := by
    rw [hq, List.erase_cons_head, hp.resolving]
  cases hr : resolveFields f fields [] [] { p with
      registry.resolving := name :: p.registry.resolving } with
  | error e q =>
    rw [after_of_error hr] at inside
    have failed : buildModel f source name fields p =
        .error e { q with registry.resolving := q.registry.resolving.erase name } := by
      unfold buildModel
      rw [bind_of_ok (get_apply p), bind_of_ok (onRegistry_apply _ p)]
      exact bind_of_error (guarded_error.2 ⟨q, bind_of_error hr, rfl⟩)
    rw [after_of_error failed, erased inside.resolving]
    exact inside.withBuilding building
  | ok out q =>
    obtain ⟨properties, required⟩ := out
    obtain ⟨schemas, _, hout⟩ := resolveFields_out hr
    obtain rfl : required = World.requiredNames fields := (Prod.mk.inj hout).2
    have distinct := distinct_of_resolveFields hr
    rw [after_of_ok hr] at inside
    rw [after_of_ok (a := ()) (buildModel_iff.2 ⟨properties, _, q, hr, rfl⟩),
      erased inside.resolving]
    exact (inside.put (.objectModel ht distinct (hp.models name))).withBuilding building

variable (closed : ∀ {t u : TypeExpr}, M t → w.Descends o t u → M u)

include closed in
theorem resolveModel_gathering (hf : Gathering w o M f) (ht : M t) (hs : w.shape o t = .model)
    (hp : p.registry.Gathered w o M building) :
    (after (resolveModel w f t.bare) p).registry.Gathered w o M building := by
  cases hn : w.modelName t.bare with
  | error e =>
    have failed : resolveModel w f t.bare p = .error e p :=
      bind_of_error (ofExcept_error.2 ⟨hn, rfl⟩)
    rw [after_of_error failed]
    exact hp
  | ok name =>
    by_cases known : name ∈ p.registry.resolving ∨ p.registry.isCurrent name t.bare
    · have found : resolveModel w f t.bare p = .ok (.refTo name) p := by
        rw [resolveModel_apply hn, if_pos known]
      rw [after_of_ok found]
      exact hp
    · cases hfields : w.fieldsOf t.bare with
      | error reason =>
        have found : resolveModel w f t.bare p = untyped w t.bare reason p := by
          rw [resolveModel_apply hn, if_neg known, hfields]
        rw [after_of_ok found]
        exact hp
      | ok fields =>
        have object : w.HasFields o t fields := ⟨hs, hfields⟩
        have builds : resolveModel w f t.bare p =
            (buildModel f t.bare name fields >>= fun _ => pure (.refTo name)) p := by
          rw [resolveModel_apply hn, if_neg known, hfields]
        rw [after_congr builds, after_bind_pure]
        exact buildModel_gathering hf (fun m hm => closed ht (.field object hm))
          ⟨ht, object, hn⟩ hp

include closed in
theorem resolveWithin_gathering (bound : Nat) : Gathering w o M (resolveWithin w bound) := by
  induction bound with
  | zero => exact fun _ _ _ _ hp => hp
  | succ bound ih =>
    intro t p building ht hp
    change (after (resolveShape w (resolveWithin w bound) t) p).registry.Gathered w o M building
    rcases w.shape_cases o t with ⟨u, hu⟩ | hm | ⟨s, hs⟩
    · rw [after_congr (resolveShape_of_part (hp.overrides.symm ▸ hu)), after_bind_pure]
      exact ih (closed ht (.part hu)) hp
    · rw [after_congr (resolveShape_of_model (hp.overrides.symm ▸ hm))]
      exact resolveModel_gathering closed ih ht hm hp
    · obtain ⟨notices, found⟩ := resolveShape_of_flat (f := resolveWithin w bound)
        (hp.overrides.symm ▸ hs)
      rw [after_of_ok found]
      exact hp

end Run

namespace World.Visited

variable {roots : List TypeExpr} {r : Registry}

/-- Whatever has been resolved, in vain or not, the registry is gathered from the types that
resolution has come to. -/
theorem gathered (h : w.Visited o roots r)
    (closed : ∀ {t u : TypeExpr}, M t → w.Descends o t u → M u) (hM : ∀ t ∈ roots, M t) :
    r.Gathered w o M [] := by
  induction h with
  | start => exact .start
  | resolve _ t bound ih =>
    exact Run.resolveWithin_gathering closed bound (hM t List.mem_cons_self)
      (ih fun u hu => hM u (List.mem_cons_of_mem _ hu))

/-- Between calls nothing is being built, the overrides stay, and all models have distinct
properties. -/
theorem idle (h : w.Visited o roots r) :
    r.resolving = [] ∧ r.overrides = o ∧ r.Distinct := by
  have gathered := h.gathered (M := fun _ => True) (fun _ _ => trivial) fun _ _ => trivial
  exact ⟨gathered.resolving, gathered.overrides,
    fun name m hm => (gathered.models name m hm).distinct⟩

end World.Visited

end ApiCompiler
