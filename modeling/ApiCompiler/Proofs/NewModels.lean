import ApiCompiler.Proofs.Failures
import ApiCompiler.Proofs.StableResults

/-!
# Models that are built anew

What a resolver puts in place when it comes to an object type whose model it has to build: one
property for each field, with the schema that the same resolver finds for the type of the field
while the model is being built. A statement about the schemas of types turns into one about the
properties of models by that.
-/

set_option autoImplicit false

namespace ApiCompiler

variable {w : World} {t : TypeExpr} {name : String} {fields : List ModelField}

/-- A later state of the resolver that builds the same models. -/
structure Progress.Leads (w : World) (p r : Progress) : Prop where
  evolves : p.registry.Evolves r.registry
  orderly : p.registry.Orderly w → r.registry.Orderly w

/-- The schema is what a resolver finds for a type at some point after a state. -/
def Run.FindsLater (w : World) (bound : Nat) (p : Progress) (t : TypeExpr) (s : Schema) : Prop :=
  ∃ r r', p.Leads w r ∧ resolveWithin w bound t r = .ok s r'

namespace Progress.Leads

variable {p q r : Progress}

theorem refl (p : Progress) : p.Leads w p := ⟨.refl _, id⟩

theorem trans (h : p.Leads w q) (h' : q.Leads w r) : p.Leads w r :=
  ⟨h.evolves.trans h'.evolves, fun hp => h'.orderly (h.orderly hp)⟩

end Progress.Leads

namespace Run

variable {bound : Nat} {p q : Progress} {s : Schema}

theorem resolveWithin_leads (h : resolveWithin w bound t p = .ok s q) : p.Leads w q :=
  ⟨resolveWithin_evolves w h, fun hp => (resolveWithin_continues w bound t h hp).orderly⟩

theorem FindsLater.mono (h : p.Leads w q) (hs : FindsLater w bound q t s) :
    FindsLater w bound p t s := by
  obtain ⟨r, r', hr, hs⟩ := hs
  exact ⟨r, r', h.trans hr, hs⟩

/-- What is found later is what the type denotes. -/
theorem FindsLater.denotes (h : FindsLater w bound p t s) (hp : p.registry.Orderly w)
    (clear : p.registry.Clear w t) : w.Denotes p.registry.overrides t s := by
  obtain ⟨r, r', hr, hs⟩ := h
  rw [← hr.evolves.overrides]
  refine resolveWithin_denotes hs (hr.orderly hp) ?_
  unfold Registry.Clear
  rw [hr.evolves.overrides, hr.evolves.resolving]
  exact clear

/-- Each field is resolved from a state that the first one leads to. -/
theorem resolveFields_finds {properties : Table Schema} {required : List String}
    {out : Table Schema × List String}
    (h : resolveFields (resolveWithin w bound) fields properties required p = .ok out q) :
    ∃ schemas, List.Forall₂ (fun f s => FindsLater w bound p f.type s) fields schemas ∧
      out = (properties.merge (World.fieldProperties fields schemas),
        required ++ World.requiredNames fields) := by
  induction fields generalizing properties required p with
  | nil =>
    obtain ⟨rfl, _⟩ := pure_ok.1 h
    refine ⟨[], .nil, ?_⟩
    rw [World.requiredNames, List.filter_nil, List.map_nil, List.append_nil]
    rfl
  | cons m ms ih =>
    obtain ⟨s, r, hs, h⟩ := bind_ok.1 h
    obtain ⟨schemas, found, rfl⟩ := ih h
    have first : FindsLater w bound p m.type s := ⟨p, r, .refl p, hs⟩
    have rest := found.imp fun _ _ hm => hm.mono (resolveWithin_leads hs)
    refine ⟨s :: schemas, .cons first rest, ?_⟩
    cases hr : m.required <;> simp [World.requiredNames, World.fieldProperties, Table.merge,
      ModelField.schemaOf, hr]

/-- The model of an object type that is built anew: its own fields, each with the schema that is
found for its type, over those that were known under the name. -/
theorem resolveWithin_new (h : resolveWithin w (bound + 1) t p = .ok s q)
    (hf : w.HasFields p.registry.overrides t fields) (hn : w.modelName t.bare = .ok name)
    (new : name ∉ p.registry.resolving) (stale : p.registry.isCurrent name t.bare = false) :
    s = .refTo name ∧ ∃ schemas,
      List.Forall₂ (fun f s => FindsLater w bound (p.building name) f.type s) fields schemas ∧
      q.registry.models.get? name = some (objectModel name (p.registry.models.get? name)
        (Table.ofList (World.fieldProperties fields schemas)) (World.requiredNames fields)) := by
  change resolveShape w (resolveWithin w bound) t p = .ok s q at h
  have fresh : ¬ (name ∈ p.registry.resolving ∨ p.registry.isCurrent name t.bare = true) := by
    rw [stale]
    exact fun h => h.elim new nofun
  rw [resolveShape_of_model hf.shape, resolveModel_apply hn, if_neg fresh, hf.found] at h
  obtain ⟨_, _, hb, h⟩ := bind_ok.1 h
  obtain ⟨rfl, rfl⟩ := pure_ok.1 h
  obtain ⟨properties, required, r, hr, rfl⟩ := buildModel_iff.1 hb
  obtain ⟨schemas, found, hout⟩ := resolveFields_finds hr
  obtain ⟨rfl, rfl⟩ := Prod.mk.inj hout
  exact ⟨rfl, schemas, found, (Table.get?_insert _ _ _ _).trans (if_pos rfl)⟩

end Run

end ApiCompiler
