import ApiCompiler.Compilation.Run
import ApiCompiler.Proofs.Definitions

/-!
# Taking steps apart

A step of a compilation ends well or fails, and in either case leaves a state behind. The lemmas
below take a composed step apart into its parts, and `Keeps` states what every run of a step,
failing or not, leaves as it was. What a step keeps is asked for any relation between states that
allows the changes the step makes, so that one lemma for each step serves every later statement
about it.
-/

set_option autoImplicit false

namespace ApiCompiler

theorem except_bind_ok {ε α β : Type} {x : Except ε α} {f : α → Except ε β} {b : β} :
    (x >>= f) = .ok b ↔ ∃ a, x = .ok a ∧ f a = .ok b := by
  cases x with
  | ok a => exact ⟨fun h => ⟨a, rfl, h⟩, by rintro ⟨_, ⟨⟩, h⟩; exact h⟩
  | error e => exact ⟨nofun, by rintro ⟨_, ⟨⟩, _⟩⟩

theorem except_isOk {ε α : Type} {x : Except ε α} : x.isOk = true ↔ ∃ a, x = .ok a := by
  cases x with
  | ok a => exact ⟨fun _ => ⟨a, rfl⟩, fun _ => rfl⟩
  | error e => exact ⟨nofun, nofun⟩

/-- A notice of what has become of a definition when a model was added. -/
def Notice.ofDefinition : Notice → Bool
  | .modelMerged .. | .modelReplaced .. => true
  | _ => false

namespace Run

variable {α β : Type}

theorem bind_ok {x : Run α} {f : α → Run β} {p r : Progress} {b : β} :
    (x >>= f) p = .ok b r ↔ ∃ a q, x p = .ok a q ∧ f a q = .ok b r := by
  change EStateM.bind x f p = .ok b r ↔ _
  unfold EStateM.bind
  cases x p with
  | ok a q => exact ⟨fun h => ⟨a, q, rfl, h⟩, by rintro ⟨_, _, ⟨⟩, h⟩; exact h⟩
  | error e q => exact ⟨nofun, by rintro ⟨_, _, ⟨⟩, _⟩⟩

theorem bind_error {x : Run α} {f : α → Run β} {p r : Progress} {e : Failure} :
    (x >>= f) p = .error e r ↔
      x p = .error e r ∨ ∃ a q, x p = .ok a q ∧ f a q = .error e r := by
  change EStateM.bind x f p = .error e r ↔ _
  unfold EStateM.bind
  cases x p with
  | ok a q =>
    refine ⟨fun h => .inr ⟨a, q, rfl, h⟩, ?_⟩
    rintro (h | ⟨_, _, ⟨⟩, h⟩)
    · cases h
    · exact h
  | error e' q =>
    refine ⟨fun h => .inl (by cases h; rfl), ?_⟩
    rintro (h | ⟨_, _, ⟨⟩, _⟩)
    cases h
    rfl

theorem bind_of_ok {x : Run α} {f : α → Run β} {p q : Progress} {a : α} (h : x p = .ok a q) :
    (x >>= f) p = f a q := by
  change EStateM.bind x f p = f a q
  simp [EStateM.bind, h]

theorem bind_of_error {x : Run α} {f : α → Run β} {p q : Progress} {e : Failure}
    (h : x p = .error e q) : (x >>= f) p = .error e q := by
  change EStateM.bind x f p = .error e q
  simp [EStateM.bind, h]

theorem map_ok {f : α → β} {x : Run α} {p r : Progress} {b : β} :
    (f <$> x) p = .ok b r ↔ ∃ a, x p = .ok a r ∧ f a = b := by
  change EStateM.map f x p = .ok b r ↔ _
  unfold EStateM.map
  cases x p with
  | ok a q => exact ⟨by rintro ⟨⟩; exact ⟨a, rfl, rfl⟩, by rintro ⟨_, ⟨⟩, rfl⟩; rfl⟩
  | error e q => exact ⟨nofun, by rintro ⟨_, ⟨⟩, _⟩⟩

@[simp] theorem pure_apply (a : α) (p : Progress) : (pure a : Run α) p = .ok a p := rfl

theorem pure_ok {a b : α} {p q : Progress} :
    (pure a : Run α) p = .ok b q ↔ a = b ∧ p = q := by
  rw [pure_apply, EStateM.Result.ok.injEq]

theorem get_ok {a p q : Progress} : (get : Run Progress) p = .ok a q ↔ p = a ∧ p = q := by
  rw [show (get : Run Progress) p = .ok p p from rfl, EStateM.Result.ok.injEq]

@[simp] theorem throw_apply (e : Failure) (p : Progress) : (throw e : Run α) p = .error e p := rfl

@[simp] theorem get_apply (p : Progress) : (get : Run Progress) p = .ok p p := rfl

@[simp] theorem modify_apply (f : Progress → Progress) (p : Progress) :
    (modify f : Run Unit) p = .ok () (f p) := rfl

@[simp] theorem report_apply (n : Notice) (p : Progress) :
    report n p = .ok () { p with notices := n :: p.notices } := rfl

@[simp] theorem reportAll_apply (ns : List Notice) (p : Progress) :
    reportAll ns p = .ok () { p with notices := ns.reverse ++ p.notices } := by
  induction ns generalizing p with
  | nil => rfl
  | cons n ns ih =>
    change (report n >>= fun _ => reportAll ns) p = _
    rw [bind_of_ok (report_apply n p), ih]
    simp

@[simp] theorem reported_apply (r : α × List Notice) (p : Progress) :
    reported r p = .ok r.1 { p with notices := r.2.reverse ++ p.notices } := by
  change (reportAll r.2 >>= fun _ => pure r.1) p = _
  rw [bind_of_ok (reportAll_apply r.2 p), pure_apply]

@[simp] theorem onRegistry_apply (f : Registry → Registry) (p : Progress) :
    onRegistry f p = .ok () { p with registry := f p.registry } := rfl

@[simp] theorem onDocument_apply (f : Document → Document × List Notice) (p : Progress) :
    onDocument f p = .ok () { p with
      document := (f p.document).1
      notices := (f p.document).2.reverse ++ p.notices } := by
  change ((modify fun p' => { p' with document := (f p.document).1 }) >>=
    fun _ => reportAll (f p.document).2) p = _
  rw [bind_of_ok (modify_apply _ p), reportAll_apply]

theorem ofExcept_ok {r : Except Failure α} {p q : Progress} {a : α} :
    ofExcept r p = .ok a q ↔ r = .ok a ∧ p = q := by
  cases r <;> simp [ofExcept]

theorem ofExcept_error {r : Except Failure α} {p q : Progress} {e : Failure} :
    ofExcept r p = .error e q ↔ r = .error e ∧ p = q := by
  cases r <;> simp [ofExcept]

theorem guarded_ok {undo : Progress → Progress} {step : Run α} {p r : Progress} {a : α} :
    guarded undo step p = .ok a r ↔ ∃ q, step p = .ok a q ∧ undo q = r := by
  unfold guarded
  cases step p with
  | ok b q => exact ⟨by rintro ⟨⟩; exact ⟨q, rfl, rfl⟩, by rintro ⟨_, ⟨⟩, rfl⟩; rfl⟩
  | error e q => exact ⟨nofun, by rintro ⟨_, ⟨⟩, _⟩⟩

theorem guarded_error {undo : Progress → Progress} {step : Run α} {p r : Progress} {e : Failure} :
    guarded undo step p = .error e r ↔ ∃ q, step p = .error e q ∧ undo q = r := by
  unfold guarded
  cases step p with
  | ok b q => exact ⟨nofun, by rintro ⟨_, ⟨⟩, _⟩⟩
  | error e' q => exact ⟨by rintro ⟨⟩; exact ⟨q, rfl, rfl⟩, by rintro ⟨_, ⟨⟩, rfl⟩; rfl⟩

/-- The state that a step leaves behind. -/
def after (x : Run α) (p : Progress) : Progress :=
  match x p with
  | .ok _ q | .error _ q => q

theorem after_of_ok {x : Run α} {p q : Progress} {a : α} (h : x p = .ok a q) : after x p = q := by
  simp [after, h]

theorem after_of_error {x : Run α} {p q : Progress} {e : Failure} (h : x p = .error e q) :
    after x p = q := by
  simp [after, h]

theorem after_bind_of_ok {x : Run α} {f : α → Run β} {p q : Progress} {a : α}
    (h : x p = .ok a q) : after (x >>= f) p = after (f a) q := by
  unfold after
  rw [bind_of_ok h]

theorem after_guarded {undo : Progress → Progress} {step : Run α} (p : Progress) :
    after (guarded undo step) p = undo (after step p) := by
  unfold after guarded
  cases step p <;> rfl

/-- What is seen of the state that a step leads to from the beginning, if it does not fail. -/
def observe (x : Run α) (view : Progress → β) : Option β :=
  match x {} with
  | .ok _ q => some (view q)
  | .error _ _ => none

theorem observe_some {x : Run α} {view : Progress → β} {b : β} (h : observe x view = some b) :
    ∃ a q, x {} = .ok a q ∧ view q = b := by
  unfold observe at h
  cases hx : x {} with
  | ok a q =>
    rw [hx] at h
    exact ⟨a, q, rfl, Option.some.inj h⟩
  | error e q =>
    rw [hx] at h
    cases h

/-- A step that has one result and does nothing but report. -/
def Reports (x : Run α) (a : α) : Prop := ∀ p : Progress, ∃ notices, x p = .ok a { p with notices }

namespace Reports

theorem pure (a : α) : Reports (pure a : Run α) a := fun p => ⟨p.notices, rfl⟩

theorem report (n : Notice) : Reports (report n) () := fun _ => ⟨_, rfl⟩

theorem reported (r : α × List Notice) : Reports (reported r) r.1 :=
  fun p => ⟨_, reported_apply r p⟩

theorem bind {x : Run α} {f : α → Run β} {a : α} {b : β} (hx : Reports x a)
    (hf : Reports (f a) b) : Reports (x >>= f) b := by
  intro p
  obtain ⟨notices, h⟩ := hx p
  obtain ⟨notices', h'⟩ := hf { p with notices }
  exact ⟨notices', bind_ok.2 ⟨a, _, h, h'⟩⟩

theorem eq_of_ok {x : Run α} {a b : α} (hx : Reports x a) {p q : Progress} (h : x p = .ok b q) :
    b = a := by
  obtain ⟨_, h'⟩ := hx p
  exact (EStateM.Result.ok.inj (h.symm.trans h')).1

end Reports

/-- Whether it fails or not, a step leads to a state that is related to the one before. -/
def Keeps (R : Progress → Progress → Prop) (x : Run α) : Prop := ∀ p, R p (after x p)

theorem Keeps.of_ok {R : Progress → Progress → Prop} {x : Run α} (hx : Keeps R x)
    {p q : Progress} {a : α} (h : x p = .ok a q) : R p q := by
  have hp := hx p
  rwa [after_of_ok h] at hp

/-- The relation allows reports, any number of them, those excepted that adding a model makes. -/
structure AllowsReports (R : Progress → Progress → Prop) : Prop where
  refl : ∀ p, R p p
  trans : ∀ {p q r}, R p q → R q r → R p r
  notice : ∀ p (n : Notice), n.ofDefinition = false → R p { p with notices := n :: p.notices }

/-- The relation allows changes of the registry as well. -/
structure AllowsResolving (R : Progress → Progress → Prop) : Prop extends AllowsReports R where
  registry : ∀ p r, R p { p with registry := r }

/-- The relation allows adding models to the document as well. -/
structure AllowsBuilding (R : Progress → Progress → Prop) : Prop extends AllowsResolving R where
  models : ∀ added : Table Schema, Keeps R (onDocument fun d => d.addModels added)

namespace AllowsReports

variable {R : Progress → Progress → Prop} (hR : AllowsReports R)
include hR

theorem pure (a : α) : Keeps R (pure a : Run α) := hR.refl

theorem throw (e : Failure) : Keeps R (throw e : Run α) := hR.refl

theorem get : Keeps R (get : Run Progress) := hR.refl

theorem bind {x : Run α} {f : α → Run β} (hx : Keeps R x) (hf : ∀ a, Keeps R (f a)) :
    Keeps R (x >>= f) := by
  intro p
  cases h : x p with
  | ok a q =>
    rw [after_bind_of_ok h]
    exact hR.trans (hx.of_ok h) (hf a q)
  | error e q =>
    have h₁ := hx p
    rw [after_of_error h] at h₁
    rw [after_of_error (bind_of_error h)]
    exact h₁

omit hR in
theorem map {x : Run α} (f : α → β) (hx : Keeps R x) : Keeps R (f <$> x) := by
  intro p
  have h := hx p
  change R p (after (EStateM.map f x) p)
  unfold after EStateM.map at *
  cases hp : x p with
  | ok a q => rw [hp] at h; exact h
  | error e q => rw [hp] at h; exact h

theorem report (n : Notice) (h : n.ofDefinition = false) : Keeps R (report n) :=
  fun p => hR.notice p n h

theorem reportAll (ns : List Notice) (h : ∀ n ∈ ns, n.ofDefinition = false) :
    Keeps R (reportAll ns) := by
  induction ns with
  | nil => exact hR.pure ()
  | cons n ns ih =>
    have rest := ih fun m hm => h m (List.mem_cons_of_mem _ hm)
    exact hR.bind (hR.report n (h n List.mem_cons_self)) fun _ => rest

theorem reported (r : α × List Notice) (h : ∀ n ∈ r.2, n.ofDefinition = false) :
    Keeps R (reported r) :=
  hR.bind (hR.reportAll r.2 h) fun _ => hR.pure r.1

theorem ofExcept (r : Except Failure α) : Keeps R (ofExcept r) := by
  cases r with
  | ok a => exact hR.pure a
  | error e => exact hR.throw e

theorem guarded {undo : Progress → Progress} {step : Run α} (hu : ∀ p, R p (undo p))
    (hs : Keeps R step) : Keeps R (guarded undo step) := by
  intro p
  rw [after_guarded]
  exact hR.trans (hs p) (hu _)

end AllowsReports

theorem AllowsResolving.onRegistry {R : Progress → Progress → Prop} (hR : AllowsResolving R)
    (f : Registry → Registry) : Keeps R (onRegistry f) :=
  fun p => hR.registry p _

section Components

variable {γ : Type} (f : Progress → γ)

/-- A component of the state that reports do not change is the same before and after. -/
theorem allowsReports_of_eq (hn : ∀ p ns, f { p with notices := ns } = f p) :
    AllowsReports fun p q => f q = f p where
  refl _ := rfl
  trans h₁ h₂ := h₂.trans h₁
  notice p _ _ := hn p _

theorem allowsResolving_of_eq (hn : ∀ p ns, f { p with notices := ns } = f p)
    (hr : ∀ p r, f { p with registry := r } = f p) : AllowsResolving fun p q => f q = f p where
  toAllowsReports := allowsReports_of_eq f hn
  registry := hr

theorem allowsBuilding_of_eq (hn : ∀ p ns, f { p with notices := ns } = f p)
    (hr : ∀ p r, f { p with registry := r } = f p)
    (hd : ∀ p ds, f { p with document.definitions := ds } = f p) :
    AllowsBuilding fun p q => f q = f p where
  toAllowsResolving := allowsResolving_of_eq f hn hr
  models added p := by
    obtain ⟨definitions, h⟩ := Document.addModels_document added p.document
    rw [after_of_ok (onDocument_apply _ p), h]
    exact (hn _ _).trans (hd p definitions)

end Components

end Run

end ApiCompiler
