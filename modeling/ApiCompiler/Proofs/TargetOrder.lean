import ApiCompiler.Proofs.ReadingAgain
import ApiCompiler.Proofs.References
import ApiCompiler.Proofs.Rendering

/-!
# The order of targets

Targets share one registry and one document, and the order in which they are compiled decides what
is found there. Where names are apart, scanning a target in any coherent state stores the same
operations and adds no definitions but those that it leads to, so that all orders come to the same
definitions; and where no two targets write to one slot, to the same operations. Only nesting
depends on the order: what has been resolved before is not gone into again.
-/

set_option autoImplicit false

namespace ApiCompiler

/-- Lists of which at most one is not empty have one concatenation in all orders. -/
theorem flatten_eq_of_perm {α : Type} {groups groups' : List (List α)} (h : groups.Perm groups')
    (hp : groups.Pairwise fun l l' => l = [] ∨ l' = []) : groups.flatten = groups'.flatten := by
  induction h with
  | nil => rfl
  | cons l _ ih => rw [List.flatten_cons, List.flatten_cons, ih (List.pairwise_cons.1 hp).2]
  | swap l l' groups =>
    rcases (List.pairwise_cons.1 hp).1 l List.mem_cons_self with rfl | rfl <;> simp
  | trans h _ ih ih' => rw [ih hp, ih' ((h.pairwise_iff Or.symm).1 hp)]

/-- What is apart on the left of related lists is apart on the right. -/
theorem pairwise_of_forall₂ {α β : Type} {R : α → β → Prop} {P : α → α → Prop} {Q : β → β → Prop}
    (hPQ : ∀ ⦃a b x y⦄, R a x → R b y → P a b → Q x y) {l : List α} {u : List β}
    (h : List.Forall₂ R l u) (hp : l.Pairwise P) : u.Pairwise Q := by
  induction h with
  | nil => exact .nil
  | @cons a x l u hx hrest ih =>
    obtain ⟨hfirst, hlater⟩ := List.pairwise_cons.1 hp
    refine List.pairwise_cons.2 ⟨fun y hy => ?_, ih hlater⟩
    obtain ⟨b, hb, hby⟩ := exists_of_mem_left hrest.flip hy
    exact hPQ hx hby (hfirst b hb)

/-- Writes that come in groups to different slots leave each slot the same value in all orders of
the groups. -/
theorem Slot.at?_writeAll_perm {α : Type} {groups groups' : List (List (Slot × α))}
    (h : groups.Perm groups')
    (hp : groups.Pairwise fun l l' => ∀ e ∈ l, ∀ e' ∈ l', e.1 ≠ e'.1) (slot : Slot) :
    at? (writeAll [] groups.flatten) slot = at? (writeAll [] groups'.flatten) slot := by
  rw [at?_writeAll, at?_writeAll, List.filter_flatten, List.filter_flatten]
  rw [flatten_eq_of_perm (h.map _)]
  refine List.pairwise_map.2 (hp.imp fun {l l'} hne => ?_)
  by_contra hboth
  rw [not_or] at hboth
  obtain ⟨e, he⟩ := List.exists_mem_of_ne_nil _ hboth.1
  obtain ⟨e', he'⟩ := List.exists_mem_of_ne_nil _ hboth.2
  obtain ⟨hl, hslot⟩ := List.mem_filter.1 he
  obtain ⟨hl', hslot'⟩ := List.mem_filter.1 he'
  exact hne e hl e' hl' ((of_decide_eq_true hslot).trans (of_decide_eq_true hslot').symm)

namespace World

/-- The types of targets. -/
def IsTarget (w : World) (targets : List Target) (t : TypeExpr) : Prop :=
  ∃ target ∈ targets, Run.targetType w target = .ok t

/-- The slots that reading a target writes to. -/
def Fills (w : World) (includeHidden : Bool) (target : Target) (slot : Slot) : Prop :=
  ∃ t s endpoints, Run.targetType w target = .ok t ∧ w.loadService t = .ok s ∧
    Descent.skips { includeHidden } s = false ∧ w.Endpoints s "" endpoints ∧
    slot ∈ endpoints.map Endpoint.slot

theorem ComesUp.mono {w : World} {roots roots' : TypeExpr → Prop} {includeHidden : Bool}
    {m : Method} (h : w.ComesUp roots includeHidden m) (hroots : ∀ t, roots t → roots' t) :
    w.ComesUp roots' includeHidden m := by
  obtain ⟨t, s, ht, rest⟩ := h
  exact ⟨t, s, hroots t ht, rest⟩

end World

namespace Run

variable {w : World} {o : Overrides} {S : Method → Prop} {includeHidden : Bool} {p q : Progress}

/-- Scans a target and returns the name of its service. -/
def scanOne (w : World) (includeHidden : Bool) (target : Target) : Run String := do
  let t ← ofExcept (targetType w target)
  report (.scanning (w.shown t))
  read w t includeHidden
  ofExcept (w.qualifiedName t)

theorem scanTargets_cons (target : Target) (targets : List Target) :
    scanTargets w includeHidden (target :: targets) = do
      let name ← scanOne w includeHidden target
      return name :: (← scanTargets w includeHidden targets) := by
  unfold scanOne
  simp only [scanTargets, bind_assoc]

/-- What a read writes to the path table are slots of its target. -/
theorem fills_of_reads {target : Target} {t : TypeExpr} {visits : List Visit}
    (ht : targetType w target = .ok t) (h : Reads w t includeHidden p visits q) :
    ∀ e ∈ writes visits, w.Fills includeHidden target e.1 := by
  intro e he
  cases h with
  | skipped => cases he
  | @scanned s r q visits hl hskips trace =>
    obtain ⟨v, hv, rfl⟩ := List.mem_map.1 he
    obtain ⟨steps, endpoints⟩ := endpoints_of_scans trace
    refine ⟨t, s, visits.map Visit.endpoint, ht, (load_ok hl).1, hskips, ⟨steps + 1, endpoints⟩, ?_⟩
    rw [List.map_map]
    exact List.mem_map_of_mem hv

/-- Scanning a target is possible from every comparable state, as far as nesting goes, and writes
the given operations to slots of the target. -/
structure Scannable (w : World) (o : Overrides) (S : Method → Prop) (includeHidden : Bool)
    (q : Progress) (target : Target) (ws : List (Slot × Operation)) : Prop where
  fills : ∀ e ∈ ws, w.Fills includeHidden target e.1
  again : ∀ ⦃q₀ : Progress⦄, q₀.Coherent w o S → q₀.trail = [] → q.Comparable w o S q₀ →
    Again w o S q (scanOne w includeHidden target) q₀ fun _ r =>
      r.trail = [] ∧ r.document.paths = Slot.writeAll q₀.document.paths ws

/-- Targets that can be scanned can be scanned one after the other. -/
theorem scanTargets_again {targets : List Target} {wss : List (List (Slot × Operation))}
    (h : List.Forall₂ (Scannable w o S includeHidden q) targets wss) {q₀ : Progress}
    (hq : q₀.Coherent w o S) (ht : q₀.trail = []) (hc : q.Comparable w o S q₀) :
    Again w o S q (scanTargets w includeHidden targets) q₀ fun _ r =>
      r.document.paths = Slot.writeAll q₀.document.paths wss.flatten := by
  induction h generalizing q₀ with
  | nil => exact .of_ok hq rfl rfl rfl rfl
  | @cons target ws targets wss first _ ih =>
    rw [scanTargets_cons]
    refine (first.again hq ht hc).bind (.refl q) fun name q₁ hq₁ hadv hr => ?_
    obtain ⟨ht₁, hpaths⟩ := hr
    refine (ih hq₁ ht₁ (hc.advances hadv)).bind (.refl q) fun names r hr _ hpaths' => ?_
    refine .of_ok hr rfl rfl rfl ?_
    rw [hpaths', hpaths, List.flatten_cons]
    exact (Slot.writeAll_append _ _ _).symm

section

variable (apart : w.Apart o S)
include apart

/-- A target that has been scanned can be scanned again. -/
theorem scanOne_redone {target : Target} {name : String}
    (hS : ∀ m, w.ComesUp (w.IsTarget [target]) includeHidden m → S m)
    (h : scanOne w includeHidden target p = .ok name q) (hp : p.Coherent w o S)
    (hn : p.trail = []) :
    ∃ ws, (∀ e ∈ ws, w.Fills includeHidden target e.1) ∧
      q.document.paths = Slot.writeAll p.document.paths ws ∧
      Redone w o S (scanOne w includeHidden target) p name q fun q₀ r =>
        r.document.paths = Slot.writeAll q₀.document.paths ws := by
  obtain ⟨t, _, ht, h⟩ := bind_ok.1 h
  obtain ⟨htype, rfl⟩ := ofExcept_ok.1 ht
  rw [bind_of_ok (report_apply _ p)] at h
  obtain ⟨_, r, hread, h⟩ := bind_ok.1 h
  obtain ⟨hname, rfl⟩ := ofExcept_ok.1 h
  obtain ⟨visits, reads⟩ := reads_of_ok hread
  have found {α : Type} {x : Except Failure α} {a : α} {p : Progress} (hx : x = .ok a)
      (hp : p.Coherent w o S) : Redone w o S (ofExcept x) p a p fun q₀ r => r = q₀ :=
    .of_idle hp (ofExcept_ok.2 ⟨hx, rfl⟩) fun q₀ _ =>
      ⟨q₀, ofExcept_ok.2 ⟨hx, rfl⟩, rfl, rfl, rfl, rfl⟩
  have reported : Redone w o S (report (.scanning (w.shown t))) p ()
      { p with notices := .scanning (w.shown t) :: p.notices } fun q₀ r =>
        r = { q₀ with notices := .scanning (w.shown t) :: q₀.notices } :=
    .of_idle hp rfl fun _ _ => ⟨_, rfl, rfl, rfl, rfl, rfl⟩
  have comesUp : ∀ m, w.ComesUp (· = t) includeHidden m → S m := fun m hm =>
    hS m (hm.mono fun u hu => ⟨target, List.mem_singleton_self _, hu ▸ htype⟩)
  have read := reads_redone apart reads comesUp reported.coherent hn
  have named := read.bind (f := fun _ => ofExcept (w.qualifiedName t)) (found hname read.coherent)
  have scanned := reported.bind
    (f := fun _ => do Run.read w t includeHidden; ofExcept (w.qualifiedName t)) named
  have whole : Redone w o S (scanOne w includeHidden target) p name r _ :=
    (found htype hp).bind (f := fun t => do
      report (.scanning (w.shown t)); Run.read w t includeHidden; ofExcept (w.qualifiedName t))
      scanned
  have paths := (document_of_reads reads).1
  refine ⟨writes visits, fills_of_reads htype reads, paths, whole.imp ?_⟩
  rintro q₀ r ⟨_, rfl, _, rfl, q₁, reads, rfl⟩
  exact (document_of_reads reads).1

/-- Targets that have been scanned one after the other can be scanned again, each by itself. -/
theorem scannable_of_ok {targets : List Target} {names : List String}
    (hS : ∀ m, w.ComesUp (w.IsTarget targets) includeHidden m → S m)
    (h : scanTargets w includeHidden targets p = .ok names q) (hp : p.Coherent w o S)
    (hn : p.trail = []) :
    ∃ wss, List.Forall₂ (Scannable w o S includeHidden q) targets wss ∧
      (q.Coherent w o S ∧ p.Advances q) ∧
      q.document.paths = Slot.writeAll p.document.paths wss.flatten := by
  induction targets generalizing p names with
  | nil =>
    obtain ⟨_, rfl⟩ := pure_ok.1 h
    exact ⟨[], .nil, ⟨hp, .refl p⟩, rfl⟩
  | cons target targets ih =>
    rw [scanTargets_cons] at h
    obtain ⟨name, r, hone, h⟩ := bind_ok.1 h
    obtain ⟨names', r', hrest, h⟩ := bind_ok.1 h
    obtain ⟨_, rfl⟩ := pure_ok.1 h
    obtain ⟨ws, hfills, hpaths, redone⟩ := scanOne_redone apart (fun m hm => hS m (hm.mono
      fun t ht => by
        obtain ⟨_, hmem, ht⟩ := ht
        exact ⟨target, List.mem_cons_self, List.mem_singleton.1 hmem ▸ ht⟩)) hone hp hn
    have trail : r.trail = [] := redone.trail.trans hn
    obtain ⟨wss, rest, ⟨hq, hadv⟩, hpaths'⟩ := ih (fun m hm => hS m (hm.mono fun t ht => by
      obtain ⟨target', hmem, ht⟩ := ht
      exact ⟨target', List.mem_cons_of_mem _ hmem, ht⟩)) hrest redone.coherent trail
    refine ⟨ws :: wss, .cons ⟨hfills, fun q₀ hq₀ ht hc => ?_⟩ rest,
      ⟨hq, redone.advances.trans hadv⟩, ?_⟩
    · have again := redone.again hq₀ (ht.trans hn.symm) (hc.of_advances hadv)
      exact (again.of_advances hadv).imp fun _ _ _ hr => ⟨hr.2.1.trans ht, hr.2.2⟩
    · rw [hpaths', hpaths, List.flatten_cons]
      exact (Slot.writeAll_append _ _ _).symm

end

end Run

namespace World

variable {w : World} {targets targets' : List Target} {settings : Settings} {o : Overrides}

/-- Targets that do not get into each other's way: no slot is written to by two of them, the names
of what they contribute are apart, and nothing below an object type that has its name is without
fields. -/
structure Independent (w : World) (targets : List Target) (settings : Settings) : Prop where
  slots : targets.Pairwise fun target target' => ∀ slot,
    w.Fills settings.includeHidden target slot → ¬ w.Fills settings.includeHidden target' slot
  apart : ∀ ⦃o⦄, Overrides.ofTable w settings.typeOverrides = .ok o →
    w.Apart o (w.ComesUp (w.IsTarget targets) settings.includeHidden)
  below : ∀ ⦃o⦄, Overrides.ofTable w settings.typeOverrides = .ok o →
    ∀ ⦃t u : TypeExpr⦄ ⦃fields : List ModelField⦄ ⦃name : String⦄,
      w.Names o (w.MetBy o (w.ComesUp (w.IsTarget targets) settings.includeHidden)) name t fields →
      Relation.ReflTransGen (w.Descends o) t u → w.shape o u = .model →
      w.modelName u.bare = .ok name → ∃ fields', w.HasFields o u fields'

theorem Independent.namesApart (h : w.Independent targets settings)
    (ho : Overrides.ofTable w settings.typeOverrides = .ok o) :
    w.NamesApart o (w.MetBy o (w.ComesUp (w.IsTarget targets) settings.includeHidden)) where
  objects _ _ _ _ _ ht hu := (h.apart ho).objectsApart ht hu
  below _ _ _ _ ht hu hs hn := h.below ho ht hu hs hn

theorem Independent.perm (h : w.Independent targets settings) (hp : targets.Perm targets') :
    w.Independent targets' settings := by
  have same : w.IsTarget targets = w.IsTarget targets' := by
    funext t
    simp only [IsTarget, hp.mem_iff]
  refine ⟨(hp.pairwise_iff fun hne slot hu ht => hne slot ht hu).1 h.slots, ?_, ?_⟩
  · rw [← same]
    exact h.apart
  · rw [← same]
    exact h.below

theorem compileTargets_eq (ho : Overrides.ofTable w settings.typeOverrides = .ok o) :
    Run.compileTargets w targets settings {} = (do
      let services ← Run.scanTargets w settings.includeHidden targets
      let document := (← get).document
      let unresolved := document.unresolvedReferences
      if !unresolved.isEmpty then Run.report (.unresolvedReferences unresolved)
      return { document, rendered := Swagger.render document settings, services, unresolved } :
        Run Compiled) { registry := { overrides := o } } := by
  unfold Run.compileTargets
  rw [Run.bind_of_ok (Run.ofExcept_ok.2 ⟨ho, rfl⟩), Run.bind_of_ok (Run.onRegistry_apply _ _)]

/-- What becomes of a compilation when its targets are scanned without an error. -/
theorem compile_of_ok {names : List String} {r : Progress}
    (ho : Overrides.ofTable w settings.typeOverrides = .ok o)
    (h : Run.scanTargets w settings.includeHidden targets { registry := { overrides := o } } =
      .ok names r) :
    ∃ c, (w.compile targets settings).1 = .ok c ∧ c.document = r.document := by
  unfold compile
  rw [compileTargets_eq ho, Run.bind_of_ok h, Run.bind_of_ok (Run.get_apply r)]
  by_cases hr : r.document.unresolvedReferences.isEmpty = true
  · simp only [hr]
    exact ⟨_, rfl, rfl⟩
  · simp only [hr]
    exact ⟨_, rfl, rfl⟩

theorem compile_of_error {e : Failure} {r : Progress}
    (ho : Overrides.ofTable w settings.typeOverrides = .ok o)
    (h : Run.scanTargets w settings.includeHidden targets { registry := { overrides := o } } =
      .error e r) :
    (w.compile targets settings).1 = .error e := by
  unfold compile
  rw [compileTargets_eq ho, Run.bind_of_error h]

/-- A compilation that succeeds has scanned its targets. -/
theorem compile_ok {c : Compiled} (h : (w.compile targets settings).1 = .ok c) :
    ∃ o names r, Overrides.ofTable w settings.typeOverrides = .ok o ∧
      Run.scanTargets w settings.includeHidden targets { registry := { overrides := o } } =
        .ok names r ∧ c.document = r.document := by
  unfold compile at h
  cases hr : Run.compileTargets w targets settings {} with
  | error e q => rw [hr] at h; cases h
  | ok c' q =>
    rw [hr] at h
    obtain rfl := Except.ok.inj h
    obtain ⟨o, names, r, ho, hs, hd, _⟩ := Run.compileTargets_ok hr
    exact ⟨o, names, r, ho, hs, hd⟩

/-- In another order the targets are compiled to no other paths and to no more definitions, unless
resolution nests too deep there. -/
theorem compile_of_perm (h : w.Independent targets settings) (hp : targets.Perm targets')
    {c : Compiled} (hc : (w.compile targets settings).1 = .ok c) :
    (w.compile targets' settings).1 = .error .endless ∨
      ∃ c', (w.compile targets' settings).1 = .ok c' ∧
        Swagger.paths c.document = Swagger.paths c'.document ∧
        c'.document.definitions.Distinct ∧
        c'.document.definitions.Within c.document.definitions := by
  obtain ⟨o, names, q, ho, hscan, hdocument⟩ := compile_ok hc
  have start := Run.coherent_start (w := w) (S := w.ComesUp (w.IsTarget targets)
    settings.includeHidden) (Overrides.references_ofTable ho)
  obtain ⟨wss, scannable, _, hpaths⟩ :=
    Run.scannable_of_ok (h.apart ho) (fun _ hm => hm) hscan start rfl
  obtain ⟨wss', scannable', hperm⟩ := List.perm_comp_forall₂ hp.symm scannable
  rcases Run.scanTargets_again scannable' start rfl (.inr (h.namesApart ho)) with
    ⟨names', r, hr, attains, hpaths'⟩ | ⟨_, r, hr⟩
  · obtain ⟨c', hc', hdocument'⟩ := compile_of_ok ho hr
    refine .inr ⟨c', hc', ?_, ?_, ?_⟩
    · rw [hdocument, hdocument']
      refine Swagger.paths_eq hpaths hpaths' hperm.symm.flatten fun slot => ?_
      rw [hpaths, hpaths']
      refine Slot.at?_writeAll_perm hperm.symm (pairwise_of_forall₂ ?_ scannable h.slots) slot
      intro target target' ws ws' hs hs' hne e he e' he' heq
      exact hne e.1 (hs.fills e he) (heq ▸ hs'.fills e' he')
    · rw [hdocument']
      exact attains.coherent.distinct
    · rw [hdocument, hdocument']
      exact attains.within nofun (.refl _)
  · exact .inl (compile_of_error ho hr)

/-- The order of targets does not matter for what is rendered of paths and definitions: of two
orders, unless one nests too deep, both are compiled or none, and what is rendered is the same. -/
theorem compile_perm (h : w.Independent targets settings) (hp : targets.Perm targets') :
    ((w.compile targets settings).1 ≠ .error .endless →
      (w.compile targets' settings).1 ≠ .error .endless →
      (w.compile targets settings).1.isOk = (w.compile targets' settings).1.isOk) ∧
    ∀ c c', (w.compile targets settings).1 = .ok c → (w.compile targets' settings).1 = .ok c' →
      Swagger.paths c.document = Swagger.paths c'.document ∧
      Swagger.definitions c.document = Swagger.definitions c'.document := by
  constructor
  · intro hn hn'
    rw [Bool.eq_iff_iff, except_isOk, except_isOk]
    constructor
    · rintro ⟨c, hc⟩
      obtain ⟨c', hc', _⟩ := (compile_of_perm h hp hc).resolve_left hn'
      exact ⟨c', hc'⟩
    · rintro ⟨c', hc'⟩
      obtain ⟨c, hc, _⟩ := (compile_of_perm (h.perm hp) hp.symm hc').resolve_left hn
      exact ⟨c, hc⟩
  · intro c c' hc hc'
    rcases compile_of_perm h hp hc with hend | ⟨c₁, hc₁, hpaths, hdistinct', hwithin⟩
    · cases hend.symm.trans hc'
    obtain rfl := Except.ok.inj (hc₁.symm.trans hc')
    rcases compile_of_perm (h.perm hp) hp.symm hc' with hend | ⟨c₂, hc₂, _, hdistinct, hwithin'⟩
    · cases hend.symm.trans hc
    obtain rfl := Except.ok.inj (hc₂.symm.trans hc)
    refine ⟨hpaths, Swagger.definitions_eq hdistinct hdistinct' fun name => ?_⟩
    cases hget : c₂.document.definitions.get? name with
    | some s => exact (hwithin' hget).symm
    | none =>
      cases hget' : c₁.document.definitions.get? name with
      | none => rfl
      | some s => cases hget.symm.trans (hwithin hget')

/-! ### Examples -/

/-- What can be computed of a result can be computed of what it returns. -/
theorem ok_of_toOption_map {ε α β : Type} {r : Except ε α} {f : α → β} {b : β}
    (h : r.toOption.map f = some b) : ∃ a, r = .ok a ∧ f a = b := by
  cases r with
  | error e => cases h
  | ok a => exact ⟨a, rfl, Option.some.inj h⟩

/-- The slots that reading a target writes to, unless it leaves its service out. -/
def slotsFilled (w : World) (target : Target) : Option (List Slot) :=
  match Run.targetType w target with
  | .error _ => none
  | .ok t =>
    match w.loadService t with
    | .error _ => none
    | .ok s => (w.endpointsWithin (w.decls.length + 1) s "").map (List.map Endpoint.slot)

theorem Fills.mem {includeHidden : Bool} {target : Target} {slot : Slot} {slots : List Slot}
    (hf : w.Fills includeHidden target slot) (h : w.slotsFilled target = some slots) :
    slot ∈ slots := by
  obtain ⟨t, s, endpoints, ht, hs, _, he, hslot⟩ := hf
  unfold slotsFilled at h
  simp only [ht, hs] at h
  obtain ⟨endpoints', he', rfl⟩ := Option.map_eq_some_iff.1 h
  rwa [endpoints_unique ⟨_, he'⟩ he]

theorem pairwise_fills {includeHidden : Bool} {target target' : Target} {slots slots' : List Slot}
    (h : w.slotsFilled target = some slots) (h' : w.slotsFilled target' = some slots')
    (hd : ∀ slot ∈ slots, slot ∉ slots') :
    [target, target'].Pairwise fun target target' => ∀ slot,
      w.Fills includeHidden target slot → ¬ w.Fills includeHidden target' slot :=
  List.pairwise_pair.2 fun slot hf hf' => hd slot (hf.mem h) (hf'.mem h')

theorem nursery_independent :
    nursery.Independent [.type (.declared 2), .type (.declared 3)] {} where
  slots := by
    have trees : nursery.slotsFilled (.type (.declared 2)) =
        some [("/trees/first", "post"), ("/trees", "post")] := by decide +kernel
    have nodes : nursery.slotsFilled (.type (.declared 3)) =
        some [("/nodes", "post"), ("/nodes/all/trees/first", "post"), ("/nodes/all/trees", "post"),
          ("/nodes/all", "post")] := by decide +kernel
    exact pairwise_fills trees nodes (by decide)
  apart o ho := by
    cases ho
    exact nursery_apart _ _
  below o ho t u fields name ht hd hs _ := by
    cases ho
    exact hasFields_of_models [.declared 0, .declared 1, .builtin .int] (by decide +kernel)
      (fun _ hm => hm.mem_allMethods) (by decide +kernel) ht.met hd hs

/-- Both orders are compiled, and define the models in different orders. -/
theorem compile_perm_nursery :
    ∃ c c', (nursery.compile [.type (.declared 2), .type (.declared 3)] {}).1 = .ok c ∧
      (nursery.compile [.type (.declared 3), .type (.declared 2)] {}).1 = .ok c' ∧
      c.document.definitions.keys = ["app.Tree", "app.Node", "Trees_plant"] ∧
      c'.document.definitions.keys = ["app.Node", "app.Tree", "Trees_plant"] ∧
      Swagger.paths c.document = Swagger.paths c'.document ∧
      Swagger.definitions c.document = Swagger.definitions c'.document := by
  have keys : (nursery.compile [.type (.declared 2), .type (.declared 3)] {}).1.toOption.map
      (fun c => c.document.definitions.keys) = some ["app.Tree", "app.Node", "Trees_plant"] := by
    decide +kernel
  have keys' : (nursery.compile [.type (.declared 3), .type (.declared 2)] {}).1.toOption.map
      (fun c => c.document.definitions.keys) = some ["app.Node", "app.Tree", "Trees_plant"] := by
    decide +kernel
  obtain ⟨c, hc, hkeys⟩ := ok_of_toOption_map keys
  obtain ⟨c', hc', hkeys'⟩ := ok_of_toOption_map keys'
  obtain ⟨_, same⟩ := compile_perm nursery_independent (.swap _ _ _)
  obtain ⟨hpaths, hdefinitions⟩ := same c c' hc hc'
  exact ⟨c, c', hc, hc', hkeys, hkeys', hpaths, hdefinitions⟩

/-- A book with chapters, which belong to something else of the same name without fields. -/
def library : World where
  decls := [
    .cls {
      name := "Book"
      qualname := "Book"
      above := [.builtin .object] },
    .cls {
      name := "Chapter"
      qualname := "Chapter"
      above := [.builtin .object]
      annotations := [("book", .declared 0)] },
    .cls {
      name := "Book"
      qualname := "Book"
      above := [.builtin .object]
      annotations := [("chapter", .declared 1)] },
    .cls {
      name := "Books"
      qualname := "Books"
      above := [.builtin .object]
      service := some {}
      methods := [("book", {
        name := "book"
        marked := true
        path := some (.text "/book")
        operation := some { response := .declared 2 } })] },
    .cls {
      name := "Chapters"
      qualname := "Chapters"
      above := [.builtin .object]
      service := some {}
      methods := [("chapter", {
        name := "chapter"
        marked := true
        path := some (.text "/chapter")
        operation := some { response := .declared 1 } })] }]
  names := [("Blank", .declared 0), ("Chapter", .declared 1), ("Book", .declared 2),
    ("Books", .declared 3), ("Chapters", .declared 4)]

theorem library_contributorsDiffer (roots : TypeExpr → Prop) (includeHidden : Bool) :
    library.ContributorsDiffer [] (library.ComesUp roots includeHidden) where
  names _ _ _ h h' := Contributes.unique_of_nodup [.declared 0, .declared 1, .declared 2]
    (by decide +kernel) (fun _ hm => hm.mem_allMethods) (by decide +kernel) h h'
  requests m _ body _ hm _ hb _ _ := by
    have none := requestBody_of_all (w := library) (by decide +kernel) hm.mem_allMethods
    cases none.symm.trans hb

theorem pets_order :
    (pets.compile [.type (.declared 3), .type (.declared 2)] {}).1.isOk = true ∧
      (pets.compile [.type (.declared 2), .type (.declared 3)] {}).1.isOk = false := by
  decide +kernel

/-- What is rendered of a model when the targets have been compiled, or nothing. -/
def shownModel (w : World) (targets : List Target) (name : String) : Value :=
  ((w.compile targets {}).1.toOption.bind fun c =>
    (c.document.definitions.get? name).map Swagger.schema).getD .null

theorem library_order :
    ∃ c c', (library.compile [.type (.declared 3), .type (.declared 4)] {}).1 = .ok c ∧
      (library.compile [.type (.declared 4), .type (.declared 3)] {}).1 = .ok c' ∧
      Swagger.definitions c.document ≠ Swagger.definitions c'.document := by
  have keys : (library.compile [.type (.declared 3), .type (.declared 4)] {}).1.toOption.map
      (fun c => c.document.definitions.keys) = some ["app.Book", "app.Chapter"] := by
    decide +kernel
  have keys' : (library.compile [.type (.declared 4), .type (.declared 3)] {}).1.toOption.map
      (fun c => c.document.definitions.keys) = some ["app.Chapter", "app.Book"] := by
    decide +kernel
  have differ : (library.shownModel [.type (.declared 3), .type (.declared 4)]
      "app.Chapter").identical (library.shownModel [.type (.declared 4), .type (.declared 3)]
        "app.Chapter") = false := by decide +kernel
  obtain ⟨c, hc, hkeys⟩ := ok_of_toOption_map keys
  obtain ⟨c', hc', hkeys'⟩ := ok_of_toOption_map keys'
  have distinct : c.document.definitions.Distinct := by
    rw [Table.Distinct, hkeys]
    decide
  have distinct' : c'.document.definitions.Distinct := by
    rw [Table.Distinct, hkeys']
    decide
  refine ⟨c, c', hc, hc', fun same => ?_⟩
  have chapter := Swagger.schema_of_definitions_eq distinct distinct' same "app.Chapter"
  rw [shownModel, shownModel, hc, hc'] at differ
  simp only [Except.toOption, Option.bind_some, chapter, Value.identical_refl] at differ
  cases differ

/-- Lists of lists of a type, to a given depth. -/
def inLists : Nat → TypeExpr → TypeExpr
  | 0, t => t
  | n + 1, t => .applied (.builtin .list) [inLists n t]

/-- A class of things that are kept in lists inside one another. -/
def storage (name : String) (inside : TypeExpr) : TypeDecl :=
  .cls {
    name
    qualname := name
    above := [.builtin .object]
    annotations := [("things", inLists 200 inside)] }

/-- A service that answers with types, each under its own path. -/
def shows (name : String) (answers : List (String × TypeExpr)) : TypeDecl :=
  .cls {
    name
    qualname := name
    above := [.builtin .object]
    service := some {}
    path := some name
    methods := answers.map fun (path, t) => (path, {
      name := path
      marked := true
      path := some (.text path)
      operation := some { response := t } }) }

/-- Storages inside one another; to resolve the outermost one takes too many steps unless what is
inside of it has been resolved before. -/
def warehouse : World where
  decls := [
    storage "Box" (.builtin .int),
    storage "Shelf" (.declared 0),
    storage "Room" (.declared 1),
    storage "Floor" (.declared 2),
    storage "House" (.declared 3),
    shows "Parts" [("box", .declared 0), ("shelf", .declared 1), ("room", .declared 2),
      ("floor", .declared 3)],
    shows "Houses" [("house", .declared 4)]]

/-- The classes of the warehouse. -/
def storages : List TypeExpr :=
  [.builtin .int, .declared 0, .declared 1, .declared 2, .declared 3, .declared 4]

theorem eq_of_same_inLists {t u : TypeExpr} (hu : u.isFlat = true) {n : Nat}
    (h : t.same (inLists n u) = true) : t = inLists n u := by
  induction n generalizing t with
  | zero => exact TypeExpr.eq_of_same_flat hu h
  | succ n ih =>
    cases t with
    | applied head args =>
      obtain ⟨hhead, hargs⟩ := Bool.and_eq_true_iff.1 h
      obtain rfl := eq_of_beq hhead
      cases args with
      | nil => cases hargs
      | cons t args =>
        obtain ⟨ht, hrest⟩ := Bool.and_eq_true_iff.1 hargs
        cases args with
        | nil => rw [ih ht, inLists]
        | cons => cases hrest
    | _ => cases h

theorem warehouse_below {t : TypeExpr} (ht : t ∈ storages) :
    ∀ u ∈ warehouse.below [] t, ∃ t' ∈ storages, u = inLists 200 t' := by
  have inside : (storages.all fun t => (warehouse.below [] t).all fun u =>
      storages.any fun t' => u.same (inLists 200 t')) = true := by decide +kernel
  have flat : storages.all TypeExpr.isFlat = true := by decide
  intro u hu
  obtain ⟨t', ht', hsame⟩ := List.any_eq_true.1
    (List.all_eq_true.1 (List.all_eq_true.1 inside t ht) u hu)
  exact ⟨t', ht', eq_of_same_inLists (List.all_eq_true.1 flat t' ht') hsame⟩

/-- Resolution comes to storages in lists. -/
theorem warehouse_met {S : Method → Prop} (hS : ∀ m, S m → m ∈ warehouse.allMethods) {t : TypeExpr}
    (h : warehouse.MetBy [] S t) : ∃ n, ∃ t' ∈ storages, t = inLists n t' := by
  obtain ⟨m, hm, root, hroot, hd⟩ := h
  have answers : (warehouse.allMethods.all fun m =>
      (warehouse.typesOf m).all fun t => storages.any t.same) = true := by decide +kernel
  have flat : storages.all TypeExpr.isFlat = true := by decide
  induction hd with
  | refl =>
    obtain ⟨t', ht', hsame⟩ := List.any_eq_true.1
      (List.all_eq_true.1 (List.all_eq_true.1 answers m (hS m hm)) root hroot)
    exact ⟨0, t', ht', TypeExpr.eq_of_same_flat (List.all_eq_true.1 flat t' ht') hsame⟩
  | tail _ hd ih =>
    obtain ⟨n, t', ht', rfl⟩ := ih
    cases n with
    | zero =>
      obtain ⟨t'', ht'', rfl⟩ := warehouse_below ht' _ hd.mem_below
      exact ⟨200, t'', ht'', rfl⟩
    | succ n =>
      cases hd with
      | part hp => exact ⟨n, t', ht', (Option.some.inj hp).symm⟩
      | field hfields _ => cases hfields.shape

theorem warehouse_contributorsDiffer (roots : TypeExpr → Prop) (includeHidden : Bool) :
    warehouse.ContributorsDiffer [] (warehouse.ComesUp roots includeHidden) := by
  have bodies : warehouse.allMethods.flatMap (Method.bodies warehouse []) = [] := by
    refine List.isEmpty_iff.1 ?_
    decide +kernel
  have listed {c : Contributor} {name : String}
      (h : warehouse.Contributes [] (warehouse.ComesUp roots includeHidden) c name) :
      (c, name) ∈ warehouse.objects storages := by
    cases h with
    | @model t fields name h =>
      obtain ⟨n, t', ht', rfl⟩ := warehouse_met (fun _ hm => hm.mem_allMethods) h.met
      cases n with
      | zero =>
        refine List.mem_filterMap.2 ⟨t', ht', ?_⟩
        have found : warehouse.fieldsOf t'.bare = .ok fields := h.object.found
        have named : warehouse.modelName t'.bare = .ok name := h.named
        rw [found, named]
        rfl
      | succ n => cases h.object.shape
    | body hm hb =>
      have mem := List.mem_flatMap.2 ⟨_, hm.mem_allMethods, hb.mem_bodies⟩
      rw [bodies] at mem
      cases mem
  have nodup : ((warehouse.objects storages).map Prod.snd).Nodup := by decide +kernel
  refine ⟨fun _ _ _ h h' => ?_, fun m _ body _ hm _ hb _ _ => ?_⟩
  · exact (Prod.mk.inj (List.inj_on_of_nodup_map nodup (listed h) (listed h') rfl)).1
  · have none := requestBody_of_all (w := warehouse) (by decide +kernel) hm.mem_allMethods
    cases none.symm.trans hb

theorem warehouse_order :
    (warehouse.compile [.type (.declared 5), .type (.declared 6)] {}).1.isOk = true ∧
      (warehouse.compile [.type (.declared 6), .type (.declared 5)] {}).1 = .error .endless := by
  have compiled :
      (warehouse.compile [.type (.declared 5), .type (.declared 6)] {}).1.isOk = true := by
    decide +kernel
  have endless (r : Except Failure Compiled)
      (h : (match r with | .error .endless => true | _ => false) = true) : r = .error .endless := by
    split at h
    · rfl
    · cases h
  have failed :
      (match (warehouse.compile [.type (.declared 6), .type (.declared 5)] {}).1 with
      | .error .endless => true
      | _ => false) = true := by decide +kernel
  exact ⟨compiled, endless _ failed⟩

/-- Two targets whose contributors differ and that write to different slots. -/
structure Compatible (w : World) (target target' : Target) : Prop where
  contributors : w.ContributorsDiffer [] (w.ComesUp (w.IsTarget [target, target']) false)
  slots : [target, target'].Pairwise fun target target' => ∀ slot,
    w.Fills false target slot → ¬ w.Fills false target' slot

/-- Compatible targets are not enough. Pets are compiled after the search, and the search is refused
after the pets; the chapter of a book refers to the book where that is compiled first, and to
nothing that is known where it is not; and what is deep inside of a storage is found in time only
where it is known already. -/
theorem order_matters :
    (pets.Compatible (.type (.declared 3)) (.type (.declared 2)) ∧
      (pets.compile [.type (.declared 3), .type (.declared 2)] {}).1.isOk = true ∧
      (pets.compile [.type (.declared 2), .type (.declared 3)] {}).1.isOk = false) ∧
    (library.Compatible (.type (.declared 3)) (.type (.declared 4)) ∧
      ∃ c c', (library.compile [.type (.declared 3), .type (.declared 4)] {}).1 = .ok c ∧
        (library.compile [.type (.declared 4), .type (.declared 3)] {}).1 = .ok c' ∧
        Swagger.definitions c.document ≠ Swagger.definitions c'.document) ∧
    warehouse.Compatible (.type (.declared 5)) (.type (.declared 6)) ∧
      (warehouse.compile [.type (.declared 5), .type (.declared 6)] {}).1.isOk = true ∧
      (warehouse.compile [.type (.declared 6), .type (.declared 5)] {}).1 = .error .endless := by
  have search : pets.slotsFilled (.type (.declared 3)) =
      some [("/search", "post"), ("/home/pets", "post"), ("/home", "post")] := by decide +kernel
  have home : pets.slotsFilled (.type (.declared 2)) = some [("/pets", "post")] := by
    decide +kernel
  have books : library.slotsFilled (.type (.declared 3)) = some [("/book", "post")] := by
    decide +kernel
  have chapters : library.slotsFilled (.type (.declared 4)) = some [("/chapter", "post")] := by
    decide +kernel
  have parts : warehouse.slotsFilled (.type (.declared 5)) = some [("/Parts/box", "post"),
      ("/Parts/shelf", "post"), ("/Parts/room", "post"), ("/Parts/floor", "post")] := by
    decide +kernel
  have houses : warehouse.slotsFilled (.type (.declared 6)) = some [("/Houses/house", "post")] := by
    decide +kernel
  refine ⟨⟨⟨pets_contributorsDiffer _ _, ?_⟩, pets_order⟩,
    ⟨⟨library_contributorsDiffer _ _, ?_⟩, library_order⟩,
    ⟨warehouse_contributorsDiffer _ _, ?_⟩, warehouse_order⟩
  · exact pairwise_fills search home (by decide)
  · exact pairwise_fills books chapters (by decide)
  · exact pairwise_fills parts houses (by decide)

end World

end ApiCompiler
