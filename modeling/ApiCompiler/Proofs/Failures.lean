import ApiCompiler.Proofs.Merging

/-!
# How resolution fails

Resolving a type fails for two reasons: it is cut off, or it has come to a type that would become a
model and has no name. Everything else is made up for on the way. That a resolution cannot fail for
want of a name is thus a question about the types that the given one leads to, and not about what the
resolver has built.
-/

set_option autoImplicit false

namespace ApiCompiler

/-- The type would become a model, and there is no name for it. -/
structure World.Nameless (w : World) (o : Overrides) (t : TypeExpr) (e : Failure) : Prop where
  shape : w.shape o t = .model
  unnamed : w.modelName t.bare = .error e

/-- The state in which the fields of a model are resolved. -/
def Progress.building (name : String) (p : Progress) : Progress :=
  { p with registry.resolving := name :: p.registry.resolving }

variable {w : World} {o : Overrides} {t : TypeExpr} {e : Failure} {s : Schema} {name : String}
  {fields : List ModelField}

/-- What has no name denotes nothing. -/
theorem World.Denotes.not_nameless (h : w.Denotes o t s) : ¬ w.Nameless o t e := by
  intro hn
  have shape := h.by_shape
  rw [hn.shape] at shape
  obtain ⟨_, hname, _⟩ := shape
  cases hname.symm.trans hn.unnamed

namespace Run

variable {bound : Nat} {p q : Progress} {f : TypeExpr → Run Schema}

/-- Building a model fails where one of its fields does. -/
theorem buildModel_error_iff : (∃ q, buildModel f t name fields p = .error e q) ↔
    ∃ r, resolveFields f fields [] [] (p.building name) = .error e r := by
  unfold buildModel
  rw [bind_of_ok (get_apply p), bind_of_ok (onRegistry_apply _ p)]
  constructor
  · rintro ⟨q, h⟩
    rcases bind_error.1 h with h | ⟨_, _, _, h⟩
    · obtain ⟨r, h, _⟩ := guarded_error.1 h
      rcases bind_error.1 h with h | ⟨_, _, _, h⟩
      · exact ⟨r, h⟩
      · cases h
    · cases h
  · rintro ⟨r, h⟩
    exact ⟨_, bind_of_error (guarded_error.2 ⟨r, bind_of_error h, rfl⟩)⟩

/-- Without a name there is no model. -/
theorem resolveModel_nameless (h : w.modelName t = .error e) (p : Progress) :
    resolveModel w f t p = .error e p :=
  bind_of_error (ofExcept_error.2 ⟨h, rfl⟩)

/-- An object type fails because it has no name, or because one of its fields does when its model is
begun. -/
theorem resolveModel_error (h : resolveModel w f t p = .error e q) : w.modelName t = .error e ∨
    ∃ name fields r, w.modelName t = .ok name ∧ name ∉ p.registry.resolving ∧
      w.fieldsOf t = .ok fields ∧
      resolveFields f fields [] [] (p.building name) = .error e r := by
  cases hn : w.modelName t with
  | error e' =>
    rw [resolveModel_nameless hn] at h
    cases h
    exact .inl rfl
  | ok name =>
    rw [resolveModel_apply hn] at h
    split at h
    · cases h
    · rename_i begun
      have new : name ∉ p.registry.resolving := fun busy => begun (.inl busy)
      cases hf : w.fieldsOf t with
      | error reason => rw [hf] at h; cases h
      | ok fields =>
        rw [hf] at h
        rcases bind_error.1 h with h | ⟨_, _, _, h⟩
        · obtain ⟨r, h⟩ := buildModel_error_iff.1 ⟨q, h⟩
          exact .inr ⟨name, fields, r, rfl, new, rfl, h⟩
        · cases h

/-- Fields fail with one of their types, under the same overrides. -/
theorem resolveFields_error {properties : Table Schema} {required : List String}
    (h : resolveFields (resolveWithin w bound) fields properties required p = .error e q) :
    ∃ f ∈ fields, ∃ r r', r.registry.overrides = p.registry.overrides ∧
      resolveWithin w bound f.type r = .error e r' := by
  induction fields generalizing properties required p with
  | nil => cases h
  | cons m ms ih =>
    rcases bind_error.1 h with h | ⟨_, r, hs, h⟩
    · exact ⟨m, List.mem_cons_self, p, q, rfl, h⟩
    · obtain ⟨f, hf, r', r'', hr, h⟩ := ih h
      have same := hr.trans (resolveWithin_evolves w hs).overrides
      exact ⟨f, List.mem_cons_of_mem _ hf, r', r'', same, h⟩

/-- Resolution fails only where it is cut off, or where it has come to what has no name. -/
theorem resolveWithin_error (h : resolveWithin w bound t p = .error e q)
    (ho : p.registry.overrides = o) :
    e = .endless ∨ ∃ u, Relation.ReflTransGen (w.Descends o) t u ∧ w.Nameless o u e := by
  induction bound generalizing t p q with
  | zero =>
    cases h
    exact .inl rfl
  | succ bound ih =>
    have below {u : TypeExpr} {r r' : Progress} (hu : w.Descends o t u)
        (h : resolveWithin w bound u r = .error e r') (hr : r.registry.overrides = o) :
        e = .endless ∨ ∃ u, Relation.ReflTransGen (w.Descends o) t u ∧ w.Nameless o u e :=
      (ih h hr).imp_right fun ⟨v, hv, hn⟩ => ⟨v, .head hu hv, hn⟩
    change resolveShape w (resolveWithin w bound) t p = .error e q at h
    rcases w.shape_cases o t with ⟨u, hu⟩ | hm | ⟨s, hs⟩
    · rw [resolveShape_of_part (ho.symm ▸ hu)] at h
      rcases bind_error.1 h with h | ⟨_, _, _, h⟩
      · exact below (.part hu) h ho
      · cases h
    · rw [resolveShape_of_model (ho.symm ▸ hm)] at h
      rcases resolveModel_error h with hn | ⟨name, fields, _, _, _, hf, h⟩
      · exact .inr ⟨t, .refl, hm, hn⟩
      · obtain ⟨f, hmem, r, _, hr, h⟩ := resolveFields_error h
        exact below (.field ⟨hm, hf⟩ hmem) h (hr.trans ho)
    · obtain ⟨notices, hq⟩ := resolveShape_of_flat (f := resolveWithin w bound) (ho.symm ▸ hs)
      cases h.symm.trans hq

end Run

end ApiCompiler
