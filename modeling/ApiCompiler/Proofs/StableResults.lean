import ApiCompiler.Proofs.Failures
import ApiCompiler.Proofs.Rebuilding
import ApiCompiler.Proofs.SameTypes

/-!
# Results that do not depend on what has been resolved

What a step of building an operation returns does not depend on the models that a resolver has built
before. These decide only whether resolving a type comes to an end at all: a model that has been
built is not gone into again, and one that is gone into again may nest too deep, or may lead to a
type without a name that was not looked at before. A definition under a name that no model has, such
as one without a dot, is never touched by resolving types.
-/

set_option autoImplicit false

namespace ApiCompiler

/-- Resolving a type has nested too deep, or has led to something that has no name. -/
def Failure.Unresolvable (e : Failure) : Prop := e.family = .depth ∨ e.family = .member

namespace World

variable {w : World} {t : TypeExpr}

theorem moduleName_failure {e : Failure} (h : moduleName t = .error e) : e.family = .member := by
  fun_induction moduleName t with
  | case12 _ _ ih => exact ih h
  | _ => cases h <;> rfl

theorem simpleName_failure {e : Failure} (h : w.simpleName t = .error e) : e.family = .member := by
  unfold simpleName at h
  split at h
  all_goals cases h <;> rfl

theorem qualname_failure {e : Failure} (h : w.qualname t = .error e) : e.family = .member := by
  unfold qualname at h
  split at h
  case h_8 => exact simpleName_failure h
  all_goals cases h <;> rfl

theorem qualifiedName_failure {e : Failure} (h : w.qualifiedName t = .error e) :
    e.family = .member := by
  unfold qualifiedName at h
  cases hm : moduleName t with
  | error e' =>
    rw [hm] at h
    cases h
    exact moduleName_failure hm
  | ok m =>
    cases hq : w.qualname t with
    | error e' =>
      rw [hm, hq] at h
      cases h
      exact qualname_failure hq
    | ok q =>
      rw [hm, hq] at h
      cases h

/-- Naming a model fails only for want of a name. -/
theorem modelName_failure {e : Failure} (h : w.modelName t = .error e) : e.family = .member := by
  unfold modelName at h
  split at h
  · rename_i cls a args _ _
    cases hq : w.qualifiedName cls with
    | error e' =>
      rw [hq] at h
      cases h
      exact qualifiedName_failure hq
    | ok name =>
      rw [hq] at h
      cases h
  · exact qualifiedName_failure h

theorem dot_mem_qualifiedName {name : String} (h : w.qualifiedName t = .ok name) :
    '.' ∈ name.toList := by
  obtain ⟨m, _, h⟩ := except_bind_ok.1 h
  obtain ⟨q, _, h⟩ := except_bind_ok.1 h
  cases h
  simp

/-- The model of a type goes by that name. -/
def NamesModel (w : World) (name : String) : Prop := ∃ t, w.modelName t = .ok name

/-- The name of a model is a qualified one. -/
theorem not_namesModel {name : String} (plain : '.' ∉ name.toList) : ¬ w.NamesModel name := by
  rintro ⟨t, h⟩
  refine plain ?_
  unfold modelName at h
  split at h
  · obtain ⟨q, hq, h⟩ := except_bind_ok.1 h
    cases h
    simp [inBrackets, dot_mem_qualifiedName hq]
  · exact dot_mem_qualifiedName h

end World

namespace Registry

/-- Models go by names of types, and were last built from types that have fields. -/
structure Orderly (w : World) (r : Registry) : Prop where
  named : ∀ name, r.models.has name → w.NamesModel name
  built : ∀ name t, r.sources.get? name = some t → (w.fieldsOf t).isOk = true

/-- The registry is orderly later on as well, and builds the same models as before. -/
structure Continues (w : World) (r r' : Registry) : Prop where
  orderly : r'.Orderly w
  resolving : r'.resolving = r.resolving
  overrides : r'.overrides = r.overrides

variable {w : World} {r r' r'' : Registry} {t : TypeExpr} {name : String}

theorem orderly_start (w : World) (o : Overrides) : Orderly w { overrides := o } :=
  ⟨nofun, nofun⟩

theorem Continues.trans (h : r.Continues w r') (h' : r'.Continues w r'') : r.Continues w r'' :=
  ⟨h'.orderly, h'.resolving.trans h.resolving, h'.overrides.trans h.overrides⟩

theorem Orderly.put (h : r.Orderly w) (hn : w.modelName t = .ok name)
    (hf : (w.fieldsOf t).isOk = true) (model : Schema) : (r.put name model t).Orderly w where
  named n hn' := by
    rcases Table.has_insert.1 hn' with rfl | hn'
    · exact ⟨t, hn⟩
    · exact h.named n hn'
  built n u hu := by
    have hu : (r.sources.insert name t).get? n = some u := hu
    rw [Table.get?_insert] at hu
    split at hu
    · rw [← Option.some.inj hu]
      exact hf
    · exact h.built n u hu

/-- A type whose model was built last has fields. -/
theorem Orderly.fieldsOf_of_isCurrent (h : r.Orderly w) (hc : r.isCurrent name t = true) :
    ∃ fields, w.fieldsOf t = .ok fields := by
  obtain ⟨u, hu, hsame⟩ := (Option.any_eq_true _ _).1 (Bool.and_eq_true_iff.1 hc).2
  rw [← except_isOk, World.fieldsOf_isOk_of_same hsame]
  exact h.built name u hu

/-- No class without fields that the schema of a type comes to has the name of a model that is being
built. -/
def Clear (w : World) (r : Registry) (t : TypeExpr) : Prop :=
  ∀ (u : TypeExpr) (name : String), Relation.ReflTransGen (w.PartOf r.overrides) t u →
    w.shape r.overrides u = .model → w.modelName u.bare = .ok name → name ∈ r.resolving →
    (w.fieldsOf u.bare).isOk = true

theorem Clear.of_idle (h : r.resolving = []) : r.Clear w t := by
  intro u n _ _ _ hn
  rw [h] at hn
  cases hn

theorem Clear.part {u : TypeExpr} (h : r.Clear w t) (hu : w.PartOf r.overrides t u) :
    r.Clear w u :=
  fun v n hv => h v n (.head hu hv)

end Registry

namespace Run

variable {w : World} {f : TypeExpr → Run Schema} {α β : Type}

/-- A step that continues an orderly registry when it returns. -/
def Continues (w : World) (x : Run α) : Prop :=
  ∀ ⦃p a q⦄, x p = .ok a q → p.registry.Orderly w → p.registry.Continues w q.registry

theorem Continues.pure (a : α) : Continues w (pure a : Run α) := by
  intro p b q h hp
  obtain ⟨_, rfl⟩ := pure_ok.1 h
  exact ⟨hp, rfl, rfl⟩

theorem Continues.bind {x : Run α} {g : α → Run β} (hx : Continues w x)
    (hg : ∀ a, Continues w (g a)) : Continues w (x >>= g) := by
  intro p b q h hp
  obtain ⟨a, r, ha, h⟩ := bind_ok.1 h
  have first := hx ha hp
  exact first.trans (hg a h first.orderly)

theorem resolveFields_continues (hf : ∀ t, Continues w (f t)) (fields : List ModelField) :
    ∀ properties required, Continues w (resolveFields f fields properties required) := by
  induction fields with
  | nil => intro _ _; exact .pure _
  | cons m ms ih => intro _ _; exact (hf m.type).bind fun _ => ih _ _

theorem buildModel_continues (hf : ∀ t, Continues w (f t)) {t : TypeExpr} {name : String}
    {fields : List ModelField} (hn : w.modelName t = .ok name) (ht : w.fieldsOf t = .ok fields) :
    Continues w (buildModel f t name fields) := by
  intro p a q h hp
  obtain ⟨properties, required, r, hr, rfl⟩ := buildModel_iff.1 h
  have fields := resolveFields_continues hf _ _ _ hr ⟨hp.named, hp.built⟩
  have built := fields.orderly.put hn (except_isOk.2 ⟨_, ht⟩)
    (objectModel name (p.registry.models.get? name) properties required)
  refine ⟨⟨built.named, built.built⟩, ?_, fields.overrides⟩
  show r.registry.resolving.erase name = p.registry.resolving
  rw [fields.resolving, List.erase_cons_head]

theorem resolveModel_continues (hf : ∀ t, Continues w (f t)) (t : TypeExpr) :
    Continues w (resolveModel w f t) := by
  intro p a q h hp
  obtain ⟨name, hn⟩ : ∃ name, w.modelName t = .ok name := by
    obtain ⟨name, _, hn, _⟩ := bind_ok.1 h
    exact ⟨name, (ofExcept_ok.1 hn).1⟩
  rw [resolveModel_apply hn] at h
  split at h
  · cases h
    exact ⟨hp, rfl, rfl⟩
  · cases ht : w.fieldsOf t with
    | error reason =>
      rw [ht] at h
      cases h
      exact ⟨hp, rfl, rfl⟩
    | ok fields =>
      rw [ht] at h
      exact (buildModel_continues hf hn ht).bind (fun _ => .pure _) h hp

/-- Resolving a type builds models in order. -/
theorem resolveWithin_continues (w : World) (bound : Nat) (t : TypeExpr) :
    Continues w (resolveWithin w bound t) := by
  induction bound generalizing t with
  | zero => intro p a q h; cases h
  | succ bound ih =>
    intro p a q h hp
    rcases resolveShape_cases h with ⟨u, _, _, hu, _⟩ | ⟨_, hm⟩ | ⟨_, _, rfl⟩
    · exact ih u hu hp
    · exact resolveModel_continues ih t.bare hm hp
    · exact ⟨hp, rfl, rfl⟩

theorem resolve_continues (w : World) (t : TypeExpr) : Continues w (resolve w t) :=
  resolveWithin_continues w nestingBound t

/-- All failures of a step are those of types that cannot be resolved. -/
def FailsUnresolvable (x : Run α) : Prop := ∀ ⦃p e q⦄, x p = .error e q → e.Unresolvable

/-- Resolving a type fails when it nests too deep or comes to something without a name, and not
otherwise. -/
theorem resolve_fails (w : World) (t : TypeExpr) : FailsUnresolvable (resolve w t) := by
  intro p e q h
  rcases resolveWithin_error h rfl with rfl | ⟨u, _, hu⟩
  · exact .inl rfl
  · exact .inr (World.modelName_failure hu.unnamed)

/-- A type is resolved to the schema that it denotes, unless a class without fields is taken for a
model that is being built. -/
theorem resolveWithin_denotes {bound : Nat} {t : TypeExpr} {p q : Progress} {s : Schema}
    (h : resolveWithin w bound t p = .ok s q) (hp : p.registry.Orderly w)
    (clear : p.registry.Clear w t) : w.Denotes p.registry.overrides t s := by
  induction bound generalizing t s with
  | zero => cases h
  | succ bound ih =>
    rcases resolveShape_cases h with ⟨u, s', hu, hs, rfl⟩ | ⟨hm, h⟩ | ⟨hs, _⟩
    · exact .of_part hu (ih hs (clear.part hu))
    · obtain ⟨name, hn⟩ : ∃ name, w.modelName t.bare = .ok name := by
        obtain ⟨name, _, hn, _⟩ := bind_ok.1 h
        exact ⟨name, (ofExcept_ok.1 hn).1⟩
      rw [resolveModel_apply hn] at h
      split at h
      · rename_i known
        cases h
        -- the model is not built again: that the type has fields is known from when it was
        have object : ∃ fields, w.fieldsOf t.bare = .ok fields := by
          rcases known with known | known
          · exact except_isOk.1 (clear t name .refl hm hn known)
          · exact hp.fieldsOf_of_isCurrent known
        obtain ⟨fields, ht⟩ := object
        exact .object ⟨hm, ht⟩ hn
      · cases ht : w.fieldsOf t.bare with
        | error reason =>
          rw [ht] at h
          cases h
          exact .fieldless hm hn ht
        | ok fields =>
          rw [ht] at h
          obtain ⟨_, _, _, h⟩ := bind_ok.1 h
          cases h
          exact .object ⟨hm, ht⟩ hn
    · exact .of_flat hs

/-- While no model is being built, a type is resolved to the schema that it denotes. -/
theorem resolve_denotes {t : TypeExpr} {p q : Progress} {s : Schema}
    (h : resolve w t p = .ok s q) (hp : p.registry.Orderly w) (idle : p.registry.resolving = []) :
    w.Denotes p.registry.overrides t s :=
  resolveWithin_denotes h hp (.of_idle idle)

end Run

namespace Schema

theorem reference_of_identical {s t : Schema} (h : s.identical t = true) :
    s.reference = t.reference := by
  cases s
  exact eq_of_beq (Bool.and_eq_true_iff.1 h).2

theorem reference_of_same {s t : Schema} (h : s.same t = true) : s.reference = t.reference := by
  cases s
  exact eq_of_beq (Bool.and_eq_true_iff.1 h).2

end Schema

namespace Document

/-- What the definition of a name refers to. -/
def reference? (d : Document) (name : String) : Option String :=
  (d.definitions.get? name).bind Schema.reference

/-- Whatever it is combined with, a model brings its own reference. -/
theorem reference_combine (name : String) (existing : Option Schema) (model : Schema) :
    (combine name existing model).1.reference = model.reference := by
  unfold combine
  cases existing with
  | none => rfl
  | some old =>
    simp only
    split
    · rename_i h
      rcases Bool.or_eq_true_iff.1 h with h | h
      · exact Schema.reference_of_identical h
      · exact Schema.reference_of_same h
    · split <;> rfl

theorem reference?_addModel (d : Document) (name n : String) (model : Schema) :
    (d.addModel name model).1.reference? n =
      if name = n then model.reference else d.reference? n := by
  rw [addModel_document, reference?, Table.get?_insert]
  split
  · exact reference_combine _ _ _
  · rfl

/-- Models of other names leave what a name refers to alone. -/
theorem reference?_addModels {models : Table Schema} {n : String} (h : ∀ e ∈ models, e.1 ≠ n)
    (d : Document) : (d.addModels models).1.reference? n = d.reference? n := by
  induction models generalizing d with
  | nil => rfl
  | cons e models ih =>
    rw [addModels_cons, ih fun e' he => h e' (List.mem_cons_of_mem _ he), reference?_addModel,
      if_neg (h e List.mem_cons_self)]

end Document

/-- No model is being built, and the registry is orderly. -/
structure Progress.AtRest (w : World) (o : Overrides) (p : Progress) : Prop where
  overrides : p.registry.overrides = o
  idle : p.registry.resolving = []
  orderly : p.registry.Orderly w

/-- What the names of a set refer to stays as it is. -/
def Progress.Leaves (R : String → Prop) (p q : Progress) : Prop :=
  ∀ name, R name → q.document.reference? name = p.document.reference? name

namespace Progress

variable {w : World} {o : Overrides} {R : String → Prop} {p q r : Progress}

theorem AtRest.of_registry (h : p.AtRest w o) (hr : q.registry = p.registry) :
    q.AtRest w o := by
  refine ⟨?_, ?_, ?_⟩ <;> rw [hr]
  · exact h.overrides
  · exact h.idle
  · exact h.orderly

theorem Leaves.of_document (h : q.document = p.document) : p.Leaves R q := by
  intro name _
  rw [h]

theorem Leaves.trans (h : p.Leaves R q) (h' : q.Leaves R r) : p.Leaves R r :=
  fun name hname => (h' name hname).trans (h name hname)

end Progress

namespace Run

variable {α β : Type}

/-- What becomes of a step from the states of a set. From admitted states it returns the one result,
from others it is refused, and from any it may come to a type that cannot be resolved. -/
def Judged (P admits : Progress → Prop) (leads : Progress → Progress → Prop) (x : Run α) (a : α) :
    Prop :=
  ∀ ⦃q⦄, P q → (admits q ∧ ∃ q', x q = .ok a q' ∧ leads q q') ∨
    (¬ admits q ∧ ∃ e q', x q = .error e q' ∧ e.family = .declaration) ∨
    ∃ e q', x q = .error e q' ∧ e.Unresolvable

namespace Judged

variable {P P' A B C : Progress → Prop} {L M : Progress → Progress → Prop} {x : Run α}
  {f : α → Run β} {a : α} {b : β}

theorem of_ok (h : Judged P A L x a) {p p' : Progress} {a' : α} (hp : P p)
    (hx : x p = .ok a' p') : a' = a ∧ A p ∧ L p p' := by
  rcases h hp with ⟨ha, q, hq, hl⟩ | ⟨_, e, q, hq, _⟩ | ⟨e, q, hq, _⟩
  · obtain ⟨rfl, rfl⟩ := EStateM.Result.ok.inj (hx.symm.trans hq)
    exact ⟨rfl, ha, hl⟩
  · cases hx.symm.trans hq
  · cases hx.symm.trans hq

/-- Whether a second step is admitted has to be known before the first one is made. -/
theorem bind (hx : Judged P A L x a) (hf : Judged P' B M (f a) b)
    (hP : ∀ q q', P q → L q q' → P' q')
    (hB : ∀ q q', P q → A q → L q q' → (B q' ↔ C q)) :
    Judged P (fun q => A q ∧ C q) (fun q r => ∃ q', L q q' ∧ M q' r) (x >>= f) b := by
  intro q hq
  rcases hx hq with ⟨hA, q', hx, hl⟩ | ⟨hA, e, q', hx, he⟩ | ⟨e, q', hx, he⟩
  · have later := hB q q' hq hA hl
    rw [bind_of_ok hx]
    rcases hf (hP q q' hq hl) with ⟨hb, r, hr, hm⟩ | ⟨hb, e, r, hr, he⟩ | ⟨e, r, hr, he⟩
    · exact .inl ⟨⟨hA, later.1 hb⟩, r, hr, q', hl, hm⟩
    · exact .inr (.inl ⟨fun h => hb (later.2 h.2), e, r, hr, he⟩)
    · exact .inr (.inr ⟨e, r, hr, he⟩)
  · exact .inr (.inl ⟨fun h => hA h.1, e, q', bind_of_error hx, he⟩)
  · exact .inr (.inr ⟨e, q', bind_of_error hx, he⟩)

theorem imp (h : Judged P A L x a) (hA : ∀ q, P q → (A q ↔ B q))
    (hL : ∀ q q', P q → A q → L q q' → M q q') : Judged P B M x a := by
  intro q hq
  rw [← hA q hq]
  rcases h hq with ⟨ha, q', hx, hl⟩ | h | h
  · exact .inl ⟨ha, q', hx, hL q q' hq ha hl⟩
  · exact .inr (.inl h)
  · exact .inr (.inr h)

theorem bind_pure (h : Judged P A L x a) (g : α → β) :
    Judged P A L (x >>= fun a => pure (g a)) (g a) := by
  intro q hq
  rcases h hq with ⟨hA, q', hx, hl⟩ | ⟨hA, e, q', hx, he⟩ | ⟨e, q', hx, he⟩
  · exact .inl ⟨hA, q', bind_ok.2 ⟨a, q', hx, rfl⟩, hl⟩
  · exact .inr (.inl ⟨hA, e, q', bind_of_error hx, he⟩)
  · exact .inr (.inr ⟨e, q', bind_of_error hx, he⟩)

theorem congr {y : Run α} (h : Judged P A L y a) (hxy : ∀ q, P q → x q = y q) :
    Judged P A L x a := by
  intro q hq
  rw [hxy q hq]
  exact h hq

end Judged

section Returning

variable (w : World) (o : Overrides) (R : String → Prop)

/-- From all states at rest a step returns the one result, or comes to a type that cannot be
resolved. What the names of a set refer to stays as it is. -/
def Returns (x : Run α) (a : α) : Prop :=
  Judged (Progress.AtRest w o) (fun _ => True) (fun q q' => q'.AtRest w o ∧ q.Leaves R q') x a

/-- A step that returns what it has returned from one state at rest. -/
def Determined (x : Run α) : Prop :=
  ∀ ⦃p a p'⦄, p.AtRest w o → x p = .ok a p' → Returns w o R x a

end Returning

variable {w : World} {o : Overrides} {R : String → Prop}

theorem Returns.bind {x : Run α} {f : α → Run β} {a : α} {b : β} (hx : Returns w o R x a)
    (hf : Returns w o R (f a) b) : Returns w o R (x >>= f) b :=
  (Judged.bind (C := fun _ => True) hx hf (fun _ _ _ h => h.1) fun _ _ _ _ _ => .rfl).imp
    (fun _ _ => ⟨fun _ => trivial, fun _ => ⟨trivial, trivial⟩⟩)
    fun _ _ _ _ ⟨_, h, h'⟩ => ⟨h'.1, h.2.trans h'.2⟩

theorem Reports.returns {x : Run α} {a : α} (hx : Reports x a) : Returns w o R x a := by
  intro q hq
  obtain ⟨notices, h⟩ := hx q
  exact .inl ⟨trivial, _, h, hq.of_registry rfl, .of_document rfl⟩

namespace Determined

theorem of_returns {x : Run α} {a : α} (hx : Returns w o R x a) : Determined w o R x := by
  intro p b p' hp h
  obtain ⟨rfl, _⟩ := hx.of_ok hp h
  exact hx

theorem pure (a : α) : Determined w o R (pure a : Run α) := .of_returns (Reports.pure a).returns

theorem throw (e : Failure) : Determined w o R (throw e : Run α) := by
  intro p a p' _ h
  cases h

theorem bind {x : Run α} {f : α → Run β} (hx : Determined w o R x)
    (hf : ∀ a, Determined w o R (f a)) : Determined w o R (x >>= f) := by
  intro p b p' hp h
  obtain ⟨a, q, ha, hb⟩ := bind_ok.1 h
  have first := hx hp ha
  exact first.bind (hf a (first.of_ok hp ha).2.2.1 hb)

theorem map (f : α → β) {x : Run α} (hx : Determined w o R x) :
    Determined w o R (f <$> x) := by
  have hbind : f <$> x = x >>= fun a => Pure.pure (f a) := by
    funext p
    change EStateM.map f x p = EStateM.bind x _ p
    unfold EStateM.map EStateM.bind
    cases x p <;> rfl
  rw [hbind]
  exact hx.bind fun a => .pure _

end Determined

section Building

variable (unnamed : ∀ name, R name → ¬ w.NamesModel name)

theorem resolve_determined (t : TypeExpr) : Determined w o R (resolve w t) := by
  intro p s p' hp h q hq
  have found := resolve_denotes h hp.orderly hp.idle
  cases hx : resolve w t q with
  | error e q' => exact .inr (.inr ⟨e, q', rfl, resolve_fails w t hx⟩)
  | ok s' q' =>
    have found' := resolve_denotes hx hq.orderly hq.idle
    rw [hp.overrides] at found
    rw [hq.overrides] at found'
    obtain rfl := found.unique found'
    have continued := resolve_continues w t hx hq.orderly
    refine .inl ⟨trivial, q', rfl, ⟨?_, ?_, continued.orderly⟩, .of_document (resolve_document hx)⟩
    · exact continued.overrides.trans hq.overrides
    · exact continued.resolving.trans hq.idle

include unnamed

theorem addModelsOf_determined (s : Schema) : Determined w o R (addModelsOf s) := by
  refine .of_returns (a := ()) fun q hq => ?_
  refine .inl ⟨trivial, _, addModelsOf_apply s q, hq.of_registry rfl, fun name hname => ?_⟩
  refine Document.reference?_addModels (fun e he hn => ?_) q.document
  have known : q.registry.models.has e.1 := by
    have found := (Registry.mem_reachable he).resolve_left nofun
    exact Table.has_iff_mem_keys.2 (List.mem_map_of_mem found)
  exact unnamed name hname (hn ▸ hq.orderly.named e.1 known)

theorem shapeIn_determined (t : TypeExpr) (container : String) :
    Determined w o R (shapeIn w t container) :=
  (resolve_determined t).bind fun s => (addModelsOf_determined unnamed s).bind fun _ => .pure _

theorem responseHeaders_determined (headers : List HeaderInfo) (out : Table Schema) :
    Determined w o R (responseHeaders w headers out) := by
  induction headers generalizing out with
  | nil => exact .pure _
  | cons h hs ih =>
    unfold responseHeaders
    split
    · exact ih _
    · exact (shapeIn_determined unnamed _ _).bind fun _ => ih _

theorem successResponse_determined (m : Method) (headers : Table Schema) (op : Operation) :
    Determined w o R (successResponse w m headers op) := by
  unfold successResponse
  cases w.payloadType m with
  | none => exact .pure _
  | some t => exact (shapeIn_determined unnamed t _).bind fun _ => .pure _

theorem declaredResponses_determined (responses : List ResponseInfo) (op : Operation) :
    Determined w o R (declaredResponses w responses op) := by
  induction responses generalizing op with
  | nil => exact .pure _
  | cons r rs ih =>
    unfold declaredResponses
    refine (responseHeaders_determined unnamed _ _).bind fun headers => ?_
    split
    · exact (Determined.pure _).bind fun _ => ih _
    · exact (Determined.map _ (shapeIn_determined unnamed _ _)).bind fun _ => ih _

omit unnamed in
theorem resolveArguments_determined (arguments : List Argument) :
    Determined w o R (resolveArguments w arguments) := by
  induction arguments with
  | nil => exact .pure _
  | cons a rest ih => exact (resolve_determined _).bind fun _ => ih.bind fun _ => .pure _

theorem foldArguments_determined (shaped : List (Argument × Schema)) (properties : Table Schema)
    (required : List String) : Determined w o R (foldArguments shaped properties required) := by
  induction shaped generalizing properties required with
  | nil => exact .pure _
  | cons e rest ih =>
    obtain ⟨a, shape⟩ := e
    unfold foldArguments
    cases a.param with
    | none => exact ih _ _
    | some info => exact (addModelsOf_determined unnamed _).bind fun _ => ih _ _

end Building

end Run

end ApiCompiler
