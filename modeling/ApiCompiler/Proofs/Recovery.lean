import ApiCompiler.Proofs.NewModels
import ApiCompiler.Proofs.ResolvingAgain

/-!
# Types that no schema kind fits

A type that no schema kind fits becomes an object without known properties, in the place where it
stands, and resolution goes on around it. One thing is not made up for: a type that would become a
model and has no name, such as the three dots outside of a tuple or the name of something that is
never declared. Wherever resolution comes to one it fails, and where it is not cut off it fails only
then.
-/

set_option autoImplicit false

namespace ApiCompiler

/-- Dots, a name that stands for nothing, an application of one, and marks on marks. -/
def TypeExpr.isUnnamed : TypeExpr → Bool
  | .ellipsis | .forward _ | .pending .. | .annotated .. => true
  | _ => false

namespace World

section Definitions

variable (w : World) (o : Overrides)

/-- No schema kind fits the type: its shape says so, or it is a class without fields. -/
def Unmappable (t : TypeExpr) : Prop :=
  (∃ reason, w.shape o t = .unmappable reason) ∨
    w.shape o t = .model ∧ ∃ reason, w.fieldsOf t.bare = .error reason

/-- The schema of a type holds another schema in the place of one of the parts of the type. -/
inductive Places : TypeExpr → Schema → TypeExpr → Schema → Prop
  | here {t : TypeExpr} {s : Schema} : Places t s t s
  | part {t u v : TypeExpr} {s r : Schema} (h : w.PartOf o t u) (hu : Places u s v r) :
      Places t ((w.shape o t).around s) v r

end Definitions

end World

/-- A model of the name that the type would give its own is being built. -/
structure Registry.Builds (w : World) (r : Registry) (t : TypeExpr) (name : String) : Prop where
  shape : w.shape r.overrides t = .model
  named : w.modelName t.bare = .ok name
  resolving : name ∈ r.resolving

/-- What has become of the parts of a type when its resolution returns. None was without a name.
Those that no schema kind fits are objects without known properties in their places. The fields of
an object type that was built anew have what the same resolver finds for their types. -/
structure Run.Recovered (w : World) (p : Progress) (t : TypeExpr) (s : Schema) (q : Progress) :
    Prop where
  named : ∀ u e, Relation.ReflTransGen (w.PartOf p.registry.overrides) t u →
    ¬ w.Nameless p.registry.overrides u e
  unmappable : ∀ u, Relation.ReflTransGen (w.PartOf p.registry.overrides) t u →
    w.Unmappable p.registry.overrides u → (∀ name, ¬ p.registry.Builds w u name) →
    w.Places p.registry.overrides t s u .opaqueObject
  fields : ∀ u fields name, Relation.ReflTransGen (w.PartOf p.registry.overrides) t u →
    w.HasFields p.registry.overrides u fields → w.modelName u.bare = .ok name →
    ¬ p.registry.Builds w u name → p.registry.isCurrent name u.bare = false →
    w.Places p.registry.overrides t s u (.refTo name) ∧ ∃ bound schemas,
      List.Forall₂ (fun f s => FindsLater w bound (p.building name) f.type s) fields schemas ∧
      q.registry.models.get? name = some (objectModel name (p.registry.models.get? name)
        (Table.ofList (World.fieldProperties fields schemas)) (World.requiredNames fields))

namespace World

variable {w : World} {o : Overrides} {t u : TypeExpr} {s : Schema} {e : Failure}

/-- Only a type that comes to its own shape is a model. -/
theorem ownShape_of_model (h : w.shape o t = .model) : w.ownShape t.bare = .model ∧
    t.bare ≠ .null ∧ ∀ ts, t.bare ≠ .either ts := by
  unfold World.shape at h
  split at h
  · cases h
  · cases h
  · rename_i notNull _
    split at h
    · cases h
    · split at h
      · split at h <;> cases h
      · split at h <;> cases h
      · rename_i _ notEither
        split at h
        · cases h
        · exact ⟨h, notNull, notEither⟩

theorem Nameless.isUnnamed (h : w.Nameless o t e) : t.bare.isUnnamed = true := by
  obtain ⟨own, notNull, notEither⟩ := ownShape_of_model h.shape
  have hn := h.unnamed
  cases hb : t.bare with
  | ellipsis | forward | pending | annotated => rfl
  | null => exact absurd hb notNull
  | applied head args =>
    rw [hb] at hn
    cases args <;> cases head <;> cases hn
  | either ts => exact absurd hb (notEither ts)
  | typeVar i => rw [hb] at own; cases own
  | _ => rw [hb] at hn; cases hn

/-- What no schema kind fits has no part. -/
theorem Unmappable.not_partOf (h : w.Unmappable o t) : ¬ w.PartOf o t u := by
  unfold PartOf
  rcases h with ⟨reason, hs⟩ | ⟨hs, _⟩ <;> rw [hs] <;> exact nofun

/-- What a type denotes holds what each of its parts denotes, in the place of the part. -/
theorem Denotes.places (h : w.Denotes o t s) (hu : Relation.ReflTransGen (w.PartOf o) t u) :
    ∃ r, w.Denotes o u r ∧ w.Places o t s u r := by
  induction hu using Relation.ReflTransGen.head_induction_on generalizing s with
  | refl => exact ⟨s, h, .here⟩
  | head hp _ ih =>
    obtain ⟨r, hr⟩ := h.exists_part hp
    obtain ⟨r', hr', placed⟩ := ih hr
    rw [h.unique (.of_part hp hr)]
    exact ⟨r', hr', .part hp placed⟩

/-- A type that no schema kind fits denotes an object without known properties. -/
theorem Denotes.of_unmappable (h : w.Denotes o t s) (hu : w.Unmappable o t) :
    s = .opaqueObject := by
  have shape := h.by_shape
  rcases hu with ⟨reason, hs⟩ | ⟨hs, reason, hf⟩
  · rw [hs] at shape
    exact shape
  · rw [hs, hf] at shape
    obtain ⟨_, _, rfl⟩ := shape
    rfl

end World

namespace Run

variable {w : World} {o : Overrides} {t u : TypeExpr} {s : Schema} {e : Failure} {bound : Nat}
  {p q : Progress} {fields : List ModelField} {name : String}

/-- The schema of a type holds, in the place of each part, what is found for the part. -/
theorem resolveWithin_places (h : resolveWithin w bound t p = .ok s q)
    (hu : Relation.ReflTransGen (w.PartOf p.registry.overrides) t u) :
    ∃ b r, resolveWithin w b u p = .ok r q ∧ w.Places p.registry.overrides t s u r := by
  induction hu using Relation.ReflTransGen.head_induction_on generalizing bound s with
  | refl => exact ⟨bound, s, h, .here⟩
  | head hp _ ih =>
    cases bound with
    | zero => cases h
    | succ bound =>
      change resolveShape w (resolveWithin w bound) _ p = .ok s q at h
      rw [resolveShape_of_part hp] at h
      obtain ⟨r, _, hr, h⟩ := bind_ok.1 h
      obtain ⟨rfl, rfl⟩ := pure_ok.1 h
      obtain ⟨b, r', hr', placed⟩ := ih hr
      exact ⟨b, r', hr', .part hp placed⟩

/-- What has no name is never resolved. -/
theorem not_nameless_of_ok (h : resolveWithin w bound t p = .ok s q) :
    ¬ w.Nameless p.registry.overrides t e := by
  rintro ⟨hm, hn⟩
  cases bound with
  | zero => cases h
  | succ bound =>
    change resolveShape w (resolveWithin w bound) t p = .ok s q at h
    rw [resolveShape_of_model hm, resolveModel_nameless hn] at h
    cases h

/-- A type that no schema kind fits is resolved to an object without known properties, unless it is
a class whose name is that of a model that is being built. -/
theorem resolveWithin_unmappable (h : resolveWithin w bound t p = .ok s q)
    (orderly : p.registry.Orderly w) (ht : w.Unmappable p.registry.overrides t)
    (free : ∀ name, ¬ p.registry.Builds w t name) : s = .opaqueObject := by
  refine (resolveWithin_denotes h orderly fun u name hu hs hn busy => ?_).of_unmappable ht
  rcases hu.cases_head with rfl | ⟨v, hv, _⟩
  · exact absurd ⟨hs, hn, busy⟩ (free name)
  · exact absurd hv ht.not_partOf

theorem resolveWithin_recovered (h : resolveWithin w bound t p = .ok s q)
    (orderly : p.registry.Orderly w) : Recovered w p t s q where
  named u e hu := by
    obtain ⟨b, r, hr, _⟩ := resolveWithin_places h hu
    exact not_nameless_of_ok hr
  unmappable u hu hunmappable free := by
    obtain ⟨b, r, hr, placed⟩ := resolveWithin_places h hu
    rw [← resolveWithin_unmappable hr orderly hunmappable free]
    exact placed
  fields u fields name hu hf hn free stale := by
    obtain ⟨b, r, hr, placed⟩ := resolveWithin_places h hu
    cases b with
    | zero => cases hr
    | succ b =>
      have new : name ∉ p.registry.resolving := fun busy => free ⟨hf.shape, hn, busy⟩
      obtain ⟨rfl, schemas, found, model⟩ := resolveWithin_new hr hf hn new stale
      exact ⟨placed, b, schemas, found, model⟩

/-- A resolver recovers from every type that no schema kind fits. Where it is not cut off it fails
only for what has no name, and it never gets past that. When it returns, each part that no schema
kind fits is an object without known properties in the place of the part, unless it is a class with
the name of a model that is being built; and what the fields of an object type have that is built
anew was found in the same way, in a state to which all of this applies again. Where names tell
object types apart it is true of the fields of every object type that the type leads to. -/
theorem resolveWithin_recovers (w : World) (t : TypeExpr) (bound : Nat)
    (orderly : p.registry.Orderly w) :
    (match resolveWithin w bound t p with
      | .error e _ => e = .endless ∨ ∃ u,
          Relation.ReflTransGen (w.Descends p.registry.overrides) t u ∧
            w.Nameless p.registry.overrides u e ∧ u.bare.isUnnamed = true
      | .ok s q => Recovered w p t s q) ∧
    ∀ s q ts o, resolveWithin w bound t p = .ok s q → w.Reached o ts p.registry →
      w.NamesApart o (w.Met o (t :: ts)) →
      ∀ u, Relation.ReflTransGen (w.Descends o) t u → (∀ e, ¬ w.Nameless o u e) ∧
        ∀ fields, w.HasFields o u fields → ∃ name schemas, w.modelName u.bare = .ok name ∧
          q.registry.models.get? name = some (World.modelOf name fields schemas) ∧
          List.Forall₂ (fun f s => ∀ v, Relation.ReflTransGen (w.PartOf o) f.type v →
            w.Unmappable o v → w.Places o f.type s v .opaqueObject) fields schemas := by
  constructor
  · cases h : resolveWithin w bound t p with
    | ok s q => exact resolveWithin_recovered h orderly
    | error e q =>
      exact (resolveWithin_error h rfl).imp_right fun ⟨u, hu, hn⟩ => ⟨u, hu, hn, hn.isUnnamed⟩
  · intro s q ts o h reached apart u hu
    have closed {t' u' : TypeExpr} (ht : w.Met o (t :: ts) t') (hd : w.Descends o t' u') :
        w.Met o (t :: ts) u' := ht.trans (.single hd)
    have met : w.Met o (t :: ts) t := .of_mem List.mem_cons_self
    obtain ⟨faithful, idle⟩ := reached.faithful closed apart fun t' ht' =>
      .of_mem (List.mem_cons_of_mem _ ht')
    have found := resolveWithin_follows closed apart bound met h faithful
      (Registry.encloses_of_done idle)
    have idle' : q.registry.resolving = [] := found.grows.resolving.trans idle
    obtain ⟨r, hr⟩ :=
      found.faithful.denotable closed apart idle' met found.denotes found.covers u hu
    refine ⟨fun e => hr.not_nameless, fun fields hf => ?_⟩
    obtain ⟨hmet, hcovers⟩ := found.faithful.covers_below closed apart idle' met found.covers hu
    obtain ⟨name, model, schemas, hm, holds⟩ :=
      found.faithful.exists_holds_of_covers apart idle' hmet hf hcovers
    refine ⟨name, schemas, holds.named, by rw [hm, holds.model], ?_⟩
    refine holds.denotes.imp fun f s hs v hv hunmappable => ?_
    obtain ⟨r', hr', placed⟩ := hs.places hv
    rw [← hr'.of_unmappable hunmappable]
    exact placed

end Run

namespace World

/-- A class with one field, in which there may be anything under texts. -/
def parcel : World where
  decls := [
    .cls {
      name := "Parcel"
      qualname := "Parcel"
      above := [.builtin .object]
      annotations := [("content", .applied (.builtin .dict) [.builtin .str, .any])] }]
  names := [("Parcel", .declared 0)]

def parcelContent : TypeExpr := .applied (.builtin .dict) [.builtin .str, .any]

def parcelFields : List ModelField := [
  { name := "content", type := parcelContent, required := true }]

theorem parcel_object : parcel.HasFields [] (.declared 0) parcelFields := ⟨rfl, rfl⟩

theorem parcel_met {t : TypeExpr} (h : parcel.Met [] [.declared 0] t) :
    t = .declared 0 ∨ t = parcelContent ∨ t = .any := by
  obtain ⟨root, hroot, h⟩ := h
  induction h with
  | refl => exact .inl (List.mem_singleton.1 hroot)
  | tail _ hd ih =>
    cases hd with
    | part hp =>
      rcases ih with rfl | rfl | rfl
      · cases hp
      · exact .inr (.inr (Option.some.inj hp).symm)
      · cases hp
    | field hfields hf =>
      rcases ih with rfl | rfl | rfl
      · rw [hfields.unique parcel_object rfl] at hf
        rw [List.mem_singleton.1 hf]
        exact .inr (.inl rfl)
      · cases hfields.shape
      · cases hfields.shape

theorem parcel_apart : parcel.NamesApart [] (parcel.Met [] [.declared 0]) := by
  have sole {t : TypeExpr} (ht : parcel.Met [] [.declared 0] t) (hs : parcel.shape [] t = .model) :
      t = .declared 0 := by
    rcases parcel_met ht with rfl | rfl | rfl
    · rfl
    · cases hs
    · cases hs
  constructor
  · intro t u _ _ _ ht hu
    rw [sole ht.met ht.object.shape, sole hu.met hu.object.shape]
  · intro t u _ _ ht hu hs _
    obtain rfl := sole (ht.met.trans hu) hs
    exact ⟨_, parcel_object⟩

/-- Anything in a parcel is an object without known properties. -/
theorem resolveWithin_recovers_parcel : Registry.Orderly parcel {} ∧
    ∃ s q, Run.resolveWithin parcel 4 (.declared 0) {} = .ok s q ∧
      Run.Recovered parcel {} (.declared 0) s q ∧ ∃ schema,
        q.registry.models.get? "app.Parcel" = some (modelOf "app.Parcel" parcelFields [schema]) ∧
        parcel.Places [] parcelContent schema .any .opaqueObject := by
  have orderly : Registry.Orderly parcel {} := Registry.orderly_start parcel []
  obtain ⟨s, q, h⟩ : ∃ s q, Run.resolveWithin parcel 4 (.declared 0) {} = .ok s q :=
    ⟨_, _, rfl⟩
  obtain ⟨found, models⟩ := Run.resolveWithin_recovers parcel (.declared 0) 4 (p := {}) orderly
  rw [h] at found
  refine ⟨orderly, s, q, h, found, ?_⟩
  obtain ⟨_, objects⟩ := models s q [] [] h .start parcel_apart (.declared 0) .refl
  obtain ⟨name, schemas, hn, hm, placed⟩ := objects parcelFields parcel_object
  obtain rfl : "app.Parcel" = name := Except.ok.inj hn
  cases placed with
  | cons hs rest =>
    cases rest
    exact ⟨_, hm, hs .any (.single rfl) (.inl ⟨_, rfl⟩)⟩

/-- A list of dots is not resolved: the dots are taken for a class and have no name. -/
theorem dots_fail : Run.resolve {} (.applied (.builtin .list) [.ellipsis]) {} =
    .error (.missingAttribute "ellipsis" "__module__") {} := rfl

end World

end ApiCompiler
