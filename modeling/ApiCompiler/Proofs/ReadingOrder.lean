import ApiCompiler.Proofs.Listings
import ApiCompiler.Proofs.Locations
import ApiCompiler.Proofs.RequestNames

/-!
# Reading in either order

A service that has been read by a fresh scanner is read after another one exactly when no name of
its request types is taken by then, where no type keeps it from being read. The names that are taken
are those of the request types that the other service sends as bodies. So which of two orders is
refused depends on what each service sends as a body, and both are, or neither is, where request
types of one name are sent in the same way.
-/

set_option autoImplicit false

namespace ApiCompiler

namespace Run

/-- A method that comes up takes its request from the type of that name and reference. -/
def Uses (visits : List Visit) (name reference : String) : Prop :=
  ∃ v ∈ visits, ∃ b, v.entry.method.requestBody = some b ∧ b.name = name ∧ b.reference = reference

/-- A method that comes up sends the request type of that name and reference as a body. -/
def Sends (visits : List Visit) (name reference : String) : Prop :=
  ∃ v ∈ visits, v.entry.method.Puts v.entry.built.parameters name reference

variable {visits later : List Visit} {name reference : String}

theorem Sends.uses (h : Sends visits name reference) : Uses visits name reference := by
  obtain ⟨v, hv, used, _⟩ := h
  exact ⟨v, hv, used⟩

theorem sends_nil : ¬ Sends [] name reference := by
  rintro ⟨v, hv, _⟩
  cases hv

theorem sends_append :
    Sends (visits ++ later) name reference ↔
      Sends visits name reference ∨ Sends later name reference := by
  simp only [Sends, List.mem_append, or_and_right, exists_or]

theorem sends_singleton {v : Visit} :
    Sends [v] name reference ↔ v.entry.method.Puts v.entry.built.parameters name reference := by
  simp only [Sends, List.mem_singleton, exists_eq_left]

theorem uses_congr (h : ∀ v, v ∈ visits ↔ v ∈ later) :
    Uses visits name reference ↔ Uses later name reference :=
  exists_congr fun v => and_congr_left fun _ => h v

theorem sends_congr (h : ∀ v, v ∈ visits ↔ v ∈ later) :
    Sends visits name reference ↔ Sends later name reference :=
  exists_congr fun v => and_congr_left fun _ => h v

/-- A service sends a request type as a body, and another one uses another type of its name. -/
def Clash (first second : List Visit) : Prop :=
  ∃ name reference reference', reference ≠ reference' ∧ Sends first name reference ∧
    Uses second name reference'

/-- Request types of one name are sent as bodies by both services or by neither. -/
def SentAlike (first second : List Visit) : Prop :=
  ∀ name reference reference', reference ≠ reference' → Uses first name reference →
    Uses second name reference' → (Sends first name reference ↔ Sends second name reference')

theorem SentAlike.symm {first second : List Visit} (h : SentAlike first second) :
    SentAlike second first :=
  fun name r r' hne used used' => (h name r' r hne.symm used' used).symm

theorem Clash.swap {first second : List Visit} (alike : SentAlike first second)
    (h : Clash first second) : Clash second first := by
  obtain ⟨name, r, r', hne, sent, used⟩ := h
  exact ⟨name, r', r, hne.symm, (alike name r r' hne sent.uses used).1 sent, sent.uses⟩

end Run

open Run (Uses Sends)

/-- The names of the request types of the methods that come up are reserved. No method without a
request type sends a body under one of them. -/
structure Reserved (R : String → Prop) (visits : List Visit) : Prop where
  requests : ∀ v ∈ visits, ∀ b, v.entry.method.requestBody = some b → R b.name
  others : ∀ v ∈ visits, v.entry.method.requestBody = none →
    ∀ x ∈ v.entry.built.parameters, x.location = .body → ¬ R x.name

theorem Reserved.mono {R : String → Prop} {visits visits' : List Visit} (h : Reserved R visits)
    (hv : visits' ⊆ visits) : Reserved R visits' :=
  ⟨fun v hv' => h.requests v (hv hv'), fun v hv' => h.others v (hv hv')⟩

/-- Just the names that are sent have been taken, of the reserved ones. -/
structure Progress.Gains (w : World) (o : Overrides) (R : String → Prop)
    (sends : String → String → Prop) (p q : Progress) : Prop where
  atRest : q.AtRest w o
  trail : q.trail = p.trail
  references : ∀ name, R name → ∀ reference, q.document.reference? name = some reference ↔
    p.document.reference? name = some reference ∨ sends name reference

namespace Progress

variable {w : World} {o : Overrides} {R : String → Prop} {p q r : Progress}
  {sends sends' : String → String → Prop}

theorem Gains.trans (h : p.Gains w o R sends q) (h' : q.Gains w o R sends' r) :
    p.Gains w o R (fun n r => sends n r ∨ sends' n r) r where
  atRest := h'.atRest
  trail := h'.trail.trans h.trail
  references name hname reference := by
    rw [h'.references name hname, h.references name hname, or_assoc]

theorem Gains.imp (h : p.Gains w o R sends q) (hs : ∀ n r, sends n r ↔ sends' n r) :
    p.Gains w o R sends' q where
  atRest := h.atRest
  trail := h.trail
  references name hname reference := by rw [h.references name hname, hs]

/-- An admitted method gains the name of its request type if it sends a body. -/
theorem Takes.gains {m : Method} {parameters : List Parameter}
    (h : p.Takes w o R (m.Puts parameters) q) (admitted : p.Admits m)
    (trail : q.trail = p.trail) : p.Gains w o R (m.Puts parameters) q where
  atRest := h.atRest
  trail := trail
  references name hname reference := by
    by_cases puts : ∃ reference, m.Puts parameters name reference
    -- the name may be known already: an admitted method is the one that it stands for
    · obtain ⟨existing, puts⟩ := puts
      rw [h.taken name existing puts, Option.some.injEq]
      constructor
      · rintro rfl
        exact .inr puts
      · obtain ⟨⟨b, hb, rfl, rfl⟩, _⟩ := puts
        rintro (known | ⟨⟨b', hb', _, rfl⟩, _⟩)
        · exact (admitted b hb _ known).symm
        · rw [Option.some.inj (hb.symm.trans hb')]
    · rw [h.others name hname fun reference hput => puts ⟨reference, hput⟩]
      exact (or_iff_left fun hput => puts ⟨reference, hput⟩).symm

end Progress

namespace Run

theorem Judged.keeping {α : Type} {P A : Progress → Prop} {L : Progress → Progress → Prop}
    {x : Run α} {a : α} (h : Judged P A L x a) (keeps : Keeps SameTrail x)
    (trail : List TypeExpr) :
    Judged (fun q => P q ∧ q.trail = trail) A (fun q r => L q r ∧ r.trail = q.trail) x a := by
  rintro q ⟨hq, _⟩
  rcases h hq with ⟨hA, r, hr, hl⟩ | refused | failed
  · exact .inl ⟨hA, r, hr, hl, keeps.of_ok hr⟩
  · exact .inr (.inl refused)
  · exact .inr (.inr failed)

/-- A step that has led from a state at rest to another one, storing operations: what becomes of it
from any such state with the same trail is known from the names that are taken there. -/
structure Foreseen {α : Type} (w : World) (o : Overrides) (R : String → Prop) (x : Run α)
    (p : Progress) (a : α) (q : Progress) (visits : List Visit) : Prop where
  start : p.AtRest w o
  ran : x p = .ok a q
  judged : Judged (fun q₀ => q₀.AtRest w o ∧ q₀.trail = p.trail)
    (fun q₀ => ∀ v ∈ visits, q₀.Admits v.entry.method)
    (Progress.Gains w o R (Sends visits)) x a

variable {w : World} {o : Overrides} {R : String → Prop} {α β : Type} {x y : Run α} {a : α}
  {p p' q q' : Progress} {visits later : List Visit}

namespace Foreseen

theorem gains (h : Foreseen w o R x p a q visits) : p.Gains w o R (Sends visits) q :=
  (h.judged.of_ok ⟨h.start, rfl⟩ h.ran).2.2

theorem admits (h : Foreseen w o R x p a q visits) : ∀ v ∈ visits, p.Admits v.entry.method :=
  (h.judged.of_ok ⟨h.start, rfl⟩ h.ran).2.1

theorem congr (h : Foreseen w o R y p a q visits)
    (hxy : ∀ q₀ : Progress, q₀.trail = p.trail → x q₀ = y q₀) :
    Foreseen w o R x p a q visits where
  start := h.start
  ran := (hxy p rfl).trans h.ran
  judged := h.judged.congr fun q₀ hq => hxy q₀ hq.2

/-- The order in which operations are stored does not matter. -/
theorem of_mem (h : Foreseen w o R x p a q visits) (hv : ∀ v, v ∈ visits ↔ v ∈ later) :
    Foreseen w o R x p a q later where
  start := h.start
  ran := h.ran
  judged := h.judged.imp (fun _ _ => forall_congr' fun v => by rw [hv v])
    fun _ _ _ _ hg => hg.imp fun _ _ => sends_congr hv

/-- A step that leaves models, definitions and trail alone. -/
theorem of_idle (hp : p.AtRest w o) (h : x p = .ok a q)
    (hx : ∀ q₀ : Progress, q₀.trail = p.trail → ∃ r, x q₀ = .ok a r ∧ r.registry = q₀.registry ∧
      r.document.definitions = q₀.document.definitions ∧ r.trail = q₀.trail) :
    Foreseen w o R x p a q [] where
  start := hp
  ran := h
  judged := by
    rintro q₀ ⟨hq, ht⟩
    obtain ⟨r, hr, hregistry, hdefinitions, htrail⟩ := hx q₀ ht
    refine .inl ⟨fun v hv => absurd hv List.not_mem_nil, r, hr, hq.of_registry hregistry, htrail,
      fun name _ reference => ?_⟩
    rw [Document.reference?, hdefinitions]
    exact (or_iff_left sends_nil).symm

/-- What the first step has sent does not matter to the second one, since it has led on from
there. -/
theorem bind {f : α → Run β} {b : β} (reserved : Reserved R later)
    (hx : Foreseen w o R x p a p' visits) (hf : Foreseen w o R (f a) p' b q later) :
    Foreseen w o R (x >>= f) p b q (visits ++ later) where
  start := hx.start
  ran := bind_ok.2 ⟨a, p', hx.ran, hf.ran⟩
  judged := by
    have own (q₀ q₁ : Progress) (hg : q₀.Gains w o R (Sends visits) q₁) :
        (∀ v ∈ later, q₁.Admits v.entry.method) ↔ ∀ v ∈ later, q₀.Admits v.entry.method := by
      refine forall_congr' fun v => forall_congr' fun hv => forall_congr' fun b =>
        forall_congr' fun hb => forall_congr' fun reference => ?_
      have hR := reserved.requests v hv b hb
      -- a name that the first step has sent was there when the second one was first made, and the
      -- method was admitted then
      rw [hg.references b.name hR, or_imp]
      refine and_iff_left fun sent => ?_
      exact hf.admits v hv b hb _ ((hx.gains.references b.name hR reference).2 (.inr sent))
    refine (hx.judged.bind hf.judged (fun q₀ q₁ hq hg => ?_) fun q₀ q₁ _ _ => own q₀ q₁).imp
      (fun q₀ _ => List.forall_mem_append.symm) ?_
    · exact ⟨hg.atRest, hg.trail.trans (hq.2.trans hx.gains.trail.symm)⟩
    · rintro q₀ q₂ _ _ ⟨q₁, first, second⟩
      exact (first.trans second).imp fun _ _ => sends_append.symm

/-- What is foreseen with a service on the trail is foreseen when it is put there. -/
theorem guarded {t : TypeExpr} {x : Run Unit}
    (hx : Foreseen w o R x (p.enter t) () q visits) :
    Foreseen w o R (fun q₀ => guarded Progress.leave x (q₀.enter t)) p () q.leave visits where
  start := hx.start.of_registry rfl
  ran := guarded_ok.2 ⟨q, hx.ran, rfl⟩
  judged := by
    rintro q₀ ⟨hq, ht⟩
    have entered : (q₀.enter t).AtRest w o ∧ (q₀.enter t).trail = (p.enter t).trail :=
      ⟨hq.of_registry rfl, congrArg (· ++ [t]) ht⟩
    rcases hx.judged entered with
      ⟨hA, r, hr, hg⟩ | ⟨hA, e, r, hr, he⟩ | ⟨e, r, hr, he⟩
    · refine .inl ⟨hA, r.leave, guarded_ok.2 ⟨r, hr, rfl⟩, hg.atRest.of_registry rfl, ?_,
        hg.references⟩
      show r.trail.dropLast = q₀.trail
      rw [hg.trail]
      exact List.dropLast_concat
    · exact .inr (.inl ⟨hA, e, r.leave, guarded_error.2 ⟨r, hr, rfl⟩, he⟩)
    · exact .inr (.inr ⟨e, r.leave, guarded_error.2 ⟨r, hr, rfl⟩, he⟩)

end Foreseen

section Steps

variable {s : Service} {d : Descent} {m : Method} {t : TypeExpr}

theorem load_foreseen (hp : p.AtRest w o) (h : load w t p = .ok s q) :
    Foreseen w o R (load w t) p s q [] :=
  .of_idle hp h fun q₀ _ => ⟨_, load_of_ok (load_ok h).1 q₀, rfl, rfl, rfl⟩

theorem store_foreseen {e : Entry} (hp : p.AtRest w o) (h : e.store p = .ok () q) :
    Foreseen w o R e.store p () q [] := by
  refine .of_idle hp h fun q₀ _ => ?_
  obtain ⟨r, hr, hregistry, htrail, hdefinitions, _⟩ := store_ok e.template.text e.method.verb
    (e.info.tags ++ e.descent.tags) e.operation q₀
  exact ⟨r, hr, hregistry, hdefinitions, htrail⟩

/-- Entering a service and scanning its methods is foreseen as scanning the service is. -/
theorem scan_foreseen (hs : w.loadService s.type = .ok s) (hskips : d.skips s = false)
    (hnew : p.trail.any (TypeExpr.same s.type) = false)
    (h : Foreseen w o R (scanMethods (scanMethod w (scan w) s (d.within s)) s.methods)
      (p.enter s.type) () q visits) :
    Foreseen w o R (scan w s d) p () q.leave visits :=
  h.guarded.congr fun q₀ ht => by rw [scan_eq hs, scanService_of_new hskips (ht ▸ hnew)]

variable (unnamed : ∀ name, R name → ¬ w.NamesModel name)
include unnamed

theorem build_foreseen {v : Visit} (hs : w.loadService t = .ok s) (hm : v.entry.method ∈ s.methods)
    (reserved : Reserved R [v]) (hp : p.AtRest w o)
    (h : build w v.entry.method p = .ok (some v.entry.built) q) :
    Foreseen w o R (build w v.entry.method) p (some v.entry.built) q [v] where
  start := hp
  ran := h
  judged := by
    have respects : v.entry.method.Respects R v.entry.built.parameters := {
      element := fun b hb => (World.requestBody_of_loadService hs hm hb).1
      first := fun b hb => (World.requestBody_of_loadService hs hm hb).2
      reserved := reserved.requests v (List.mem_singleton_self v)
      others := reserved.others v (List.mem_singleton_self v) }
    have built := (build_judged unnamed respects hp h).keeping (build_keeps sameTrail_building w _)
      p.trail
    refine built.imp (fun q₀ _ => ?_) ?_
    · exact (List.forall_mem_singleton (p := fun u : Visit => q₀.Admits u.entry.method)).symm
    · rintro q₀ q₁ _ admitted ⟨takes, trail⟩
      exact (takes.gains admitted trail).imp fun _ _ => sends_singleton.symm

/-- The three steps of an exposed method: what comes below it is sent after its own body. -/
theorem route_foreseen {e : Entry} {above : List Entry} {nested : List Visit} {r r' : Progress}
    (hs : w.loadService t = .ok s) (hm : e.method ∈ s.methods)
    (reserved : Reserved R (nested ++ [⟨e, above⟩]))
    (ht : e.service.template? e.descent.path e.method = some e.template)
    (hi : e.method.decl.operation = some e.info) (hp : p.AtRest w o)
    (hb : build w e.method p = .ok (some e.built) r)
    (htarget : r.AtRest w o →
      Foreseen w o R (scanTarget w (scan w) e.method e.below) r () r' nested)
    (hst : e.store r' = .ok () q) :
    Foreseen w o R (scanMethod w (scan w) e.service e.descent e.method) p () q
      (nested ++ [⟨e, above⟩]) := by
  have own : Reserved R [(⟨e, above⟩ : Visit)] := reserved.mono (List.subset_append_right _ _)
  have built := build_foreseen (v := ⟨e, above⟩) unnamed hs hm own hp hb
  have target := htarget built.gains.atRest
  have stored : Foreseen w o R e.store r' () q [] := store_foreseen target.gains.atRest hst
  have below : Reserved R nested := reserved.mono (List.subset_append_left _ _)
  have last : Reserved R [] := reserved.mono (List.nil_subset _)
  have after := Foreseen.bind (f := fun _ => e.store) last target stored
  have route : Foreseen w o R
      (scanRoute w (scan w) e.service e.descent e.method e.template e.info) p () q _ :=
    built.bind (by rwa [List.append_nil]) after
  have exposed := route.congr (x := scanMethod w (scan w) e.service e.descent e.method)
    fun q₀ _ => scanMethod_of_exposed ht hi
  exact exposed.of_mem fun v => by simp [or_comm]

end Steps

variable (unnamed : ∀ name, R name → ¬ w.NamesModel name)
include unnamed

/-- Scanning the methods of a service is foreseen. -/
theorem scans_foreseen {s : Service} {d : Descent} {above : List Entry} {ms : List Method}
    (h : Scans w s d above ms p visits q) (hs : w.loadService s.type = .ok s)
    (hms : ∀ m ∈ ms, m ∈ s.methods) (reserved : Reserved R visits) (hp : p.AtRest w o) :
    Foreseen w o R (scanMethods (scanMethod w (scan w) s d) ms) p () q visits := by
  induction h with
  | nil => exact .of_idle hp rfl fun q₀ _ => ⟨q₀, rfl, rfl, rfl, rfl⟩
  | @unexposed s d above m ms p q visits path hpath hn rest ih =>
    have here : Foreseen w o R (scanMethod w (scan w) s d m) p ()
        { p with notices := .notExposed s.name m.name :: p.notices } [] :=
      .of_idle hp (scanMethod_of_unexposed hpath hn) fun _ _ =>
        ⟨_, scanMethod_of_unexposed hpath hn, rfl, rfl, rfl⟩
    have later := ih hs (fun m hm => hms m (List.mem_cons_of_mem _ hm)) reserved here.gains.atRest
    exact here.bind (f := fun _ => scanMethods (scanMethod w (scan w) s d) ms) reserved later
  | @hidden s d above m ms p q r visits template info ht hi hb rest ih =>
    have here : Foreseen w o R (scanMethod w (scan w) s d m) p () r [] := by
      refine .of_idle hp ?_ fun q₀ _ => ?_
      · rw [scanMethod_of_exposed ht hi, scanRoute_of_hidden hb]
      · have built := build_of_hidden (w := w) (build_hidden hb) q₀
        exact ⟨q₀, by rw [scanMethod_of_exposed ht hi, scanRoute_of_hidden built], rfl, rfl, rfl⟩
    have later := ih hs (fun m hm => hms m (List.mem_cons_of_mem _ hm)) reserved here.gains.atRest
    exact here.bind (f := fun _ => scanMethods (scanMethod w (scan w) s d) ms) reserved later
  | @operation e above ms p q r r' visits ht hi hb hs' hst rest ih =>
    have hm := hms e.method List.mem_cons_self
    have own : Reserved R [(⟨e, above⟩ : Visit)] :=
      reserved.mono (List.cons_subset_cons _ (List.nil_subset _))
    have target (hr : r.AtRest w o) :
        Foreseen w o R (scanTarget w (scan w) e.method e.below) r () r [] :=
      .of_idle hr (scanTarget_of_none hs') fun q₁ _ =>
        ⟨q₁, scanTarget_of_none hs', rfl, rfl, rfl⟩
    have here := route_foreseen unnamed hs hm own ht hi hp hb target hst
    have others : Reserved R visits := reserved.mono (List.subset_cons_self _ _)
    have later := ih hs (fun m hm => hms m (List.mem_cons_of_mem _ hm)) others here.gains.atRest
    exact here.bind (f := fun _ => scanMethods (scanMethod w (scan w) e.service e.descent) ms)
      others later
  | @locator e above ms p q r r₁ r₂ r₃ nested visits t sub ht hi hb hs' hl hnew inner hst rest
      ihInner ihRest =>
    have hm := hms e.method List.mem_cons_self
    have hsub := World.loadService_type (load_ok hl).1
    have hskips : e.below.skips sub = false := by
      simp [Descent.skips, Entry.below, Descent.below]
    -- the trace lists what is nested before the method itself, whose body is sent first
    rw [List.append_cons] at reserved ⊢
    have own : Reserved R (nested ++ [(⟨e, above⟩ : Visit)]) :=
      reserved.mono (List.subset_append_left _ _)
    have inside : Reserved R nested := own.mono (List.subset_append_left _ _)
    have others : Reserved R visits := reserved.mono (List.subset_append_right _ _)
    have target (hr : r.AtRest w o) :
        Foreseen w o R (scanTarget w (scan w) e.method e.below) r () r₂.leave nested := by
      have loaded := load_foreseen (R := R) hr hl
      have scanned := scan_foreseen (d := e.below) hsub hskips hnew
        (ihInner hsub (fun _ h => h) inside (loaded.gains.atRest.of_registry rfl))
      exact (loaded.bind (f := fun sub => scan w sub e.below) inside scanned).congr fun q₀ _ =>
        scanTarget_of_some hs'
    have here := route_foreseen unnamed hs hm own ht hi hp hb target hst
    have later := ihRest hs (fun m hm => hms m (List.mem_cons_of_mem _ hm)) others
      here.gains.atRest
    exact here.bind (f := fun _ => scanMethods (scanMethod w (scan w) e.service e.descent) ms)
      others later

/-- Reading a service is foreseen. -/
theorem reads_foreseen {t : TypeExpr} {includeHidden : Bool}
    (h : Reads w t includeHidden p visits q) (reserved : Reserved R visits) (hp : p.AtRest w o)
    (hn : p.trail = []) : Foreseen w o R (read w t includeHidden) p () q visits := by
  cases h with
  | @skipped s r hl hskips =>
    have loaded := load_foreseen (R := R) hp hl
    have scanned : Foreseen w o R (scan w s { includeHidden }) r ()
        { r with notices := .hiddenSkipped s.name :: r.notices } [] :=
      .of_idle loaded.gains.atRest (scanService_of_skips hskips) fun q₀ _ =>
        ⟨_, scanService_of_skips hskips, rfl, rfl, rfl⟩
    exact loaded.bind (f := fun s => scan w s { includeHidden }) reserved scanned
  | @scanned s r q visits hl hskips trace =>
    have hs := World.loadService_type (load_ok hl).1
    have loaded := load_foreseen (R := R) hp hl
    have hnew : r.trail.any (TypeExpr.same s.type) = false := by
      rw [loaded.gains.trail, hn]
      rfl
    have scanned := scan_foreseen (d := { includeHidden }) hs hskips hnew
      (scans_foreseen unnamed trace hs (fun _ h => h) reserved
        (loaded.gains.atRest.of_registry rfl))
    exact loaded.bind (f := fun s => scan w s { includeHidden }) reserved scanned

omit unnamed

/-- What a fresh scanner comes to when it reads one service after the other. -/
def readBoth (w : World) (o : Overrides) (t : TypeExpr) (hidden : Bool) (t' : TypeExpr)
    (hidden' : Bool) : EStateM.Result Failure Progress Unit :=
  (do read w t hidden; read w t' hidden') { registry := { overrides := o } }

/-- Something has been declared wrongly. -/
def Refused (outcome : EStateM.Result Failure Progress Unit) : Prop :=
  ∃ e q, outcome = .error e q ∧ e.family = .declaration

/-- It is not for a type that cannot be resolved if something has failed. -/
def Resolved (outcome : EStateM.Result Failure Progress Unit) : Prop :=
  ∀ e q, outcome = .error e q → ¬ e.Unresolvable

theorem Refused.not_ok {outcome : EStateM.Result Failure Progress Unit} (h : Refused outcome)
    {q : Progress} : outcome ≠ .ok () q := by
  obtain ⟨e, r, rfl, _⟩ := h
  exact nofun

end Run

open Run (Clash SentAlike Refused Resolved readBoth)

/-- The names of the request types that services use stand for nothing else: they name no model, and
no method without a request type sends a body under one of them. -/
structure World.RequestsApart (w : World) (visits : List Visit) : Prop where
  models : ∀ name reference, Uses visits name reference → ¬ w.NamesModel name
  bodies : ∀ v ∈ visits, v.entry.method.requestBody = none →
    ∀ x ∈ v.entry.built.parameters, x.location = .body → ∀ reference, ¬ Uses visits x.name reference

theorem World.RequestsApart.of_mem {w : World} {visits visits' : List Visit}
    (h : w.RequestsApart visits) (hv : ∀ v, v ∈ visits ↔ v ∈ visits') :
    w.RequestsApart visits' where
  models name reference used := h.models name reference ((Run.uses_congr hv).2 used)
  bodies v hv' hb x hx hbody reference used :=
    h.bodies v ((hv v).2 hv') hb x hx hbody reference ((Run.uses_congr hv).2 used)

namespace Run

variable {w : World} {t t' : TypeExpr} {hidden hidden' : Bool} {o : Overrides}
  {first second : List Visit} {p p' : Progress}

/-- What a fresh scanner reads alone is read after something else unless that has sent another
request type of one of its names, or a type cannot be resolved. -/
theorem readBoth_outcome (h : Reads w t hidden { registry := { overrides := o } } first p)
    (h' : Reads w t' hidden' { registry := { overrides := o } } second p')
    (apart : w.RequestsApart (first ++ second)) :
    (¬ Clash first second ∧ ∃ q, readBoth w o t hidden t' hidden' = .ok () q) ∨
      (Clash first second ∧ Refused (readBoth w o t hidden t' hidden')) ∨
      ∃ e q, readBoth w o t hidden t' hidden' = .error e q ∧ e.Unresolvable := by
  -- names of both services are reserved, since a body of either could take a name of the other
  let R : String → Prop := fun name => ∃ reference, Uses (first ++ second) name reference
  have unnamed : ∀ name, R name → ¬ w.NamesModel name :=
    fun name ⟨reference, used⟩ => apart.models name reference used
  have reserved : Reserved R (first ++ second) :=
    ⟨fun v hv b hb => ⟨b.reference, v, hv, b, hb, rfl, rfl⟩,
      fun v hv hb x hx hbody ⟨reference, used⟩ => apart.bodies v hv hb x hx hbody reference used⟩
  have start : Progress.AtRest w o { registry := { overrides := o } } :=
    ⟨rfl, rfl, Registry.orderly_start w o⟩
  have foreseen := reads_foreseen unnamed h (reserved.mono (List.subset_append_left _ _)) start rfl
  have foreseen' :=
    reads_foreseen unnamed h' (reserved.mono (List.subset_append_right _ _)) start rfl
  have taken (name reference : String) (hR : R name) :
      p.document.reference? name = some reference ↔ Sends first name reference :=
    (foreseen.gains.references name hR reference).trans (or_iff_right nofun)
  have own {v : Visit} (hv : v ∈ second) {b : RequestBody}
      (hb : v.entry.method.requestBody = some b) : R b.name :=
    reserved.requests v (List.mem_append_right _ hv) b hb
  have admitted : (∀ v ∈ second, p.Admits v.entry.method) ↔ ¬ Clash first second := by
    constructor
    · rintro admits ⟨_, r, _, hne, sent, v, hv, b, hb, rfl, rfl⟩
      exact hne (admits v hv b hb r ((taken _ _ (own hv hb)).2 sent))
    · intro clear v hv b hb r hr
      by_contra hne
      exact clear ⟨b.name, r, b.reference, hne, (taken _ _ (own hv hb)).1 hr, v, hv, b, hb, rfl,
        rfl⟩
  have both : readBoth w o t hidden t' hidden' = read w t' hidden' p := bind_of_ok foreseen.ran
  rw [both, ← admitted]
  rcases foreseen'.judged ⟨foreseen.gains.atRest, foreseen.gains.trail⟩ with
    ⟨admits, q, hq, _⟩ | ⟨refused, failed⟩ | failed
  · exact .inl ⟨admits, q, hq⟩
  · exact .inr (.inl ⟨not_not.1 fun clear => refused (admitted.2 clear), failed⟩)
  · exact .inr (.inr failed)

/-- One order is refused exactly where the service that is read first sends a request type as a
body, and the other one uses another type of its name. -/
theorem refused_iff (h : Reads w t hidden { registry := { overrides := o } } first p)
    (h' : Reads w t' hidden' { registry := { overrides := o } } second p')
    (apart : w.RequestsApart (first ++ second))
    (resolved : Resolved (readBoth w o t hidden t' hidden')) :
    Refused (readBoth w o t hidden t' hidden') ↔ Clash first second := by
  rcases readBoth_outcome h h' apart with ⟨clear, q, hq⟩ | ⟨clash, refused⟩ | ⟨e, q, hq, he⟩
  · exact iff_of_false (fun refused => refused.not_ok hq) clear
  · exact iff_of_true refused clash
  · exact absurd he (resolved e q hq)

/-- Of two services that a fresh scanner reads alone, those orders are refused in which the one that
is read first sends a request type as a body and the other one uses another type of its name. So the
order does not matter where both send such types as bodies, or neither does. -/
theorem refused_iff_clash (h : Reads w t hidden { registry := { overrides := o } } first p)
    (h' : Reads w t' hidden' { registry := { overrides := o } } second p')
    (apart : w.RequestsApart (first ++ second))
    (resolved : Resolved (readBoth w o t hidden t' hidden'))
    (resolved' : Resolved (readBoth w o t' hidden' t hidden)) :
    (Refused (readBoth w o t hidden t' hidden') ↔ Clash first second) ∧
      (Refused (readBoth w o t' hidden' t hidden) ↔ Clash second first) ∧
      (SentAlike first second →
        (Refused (readBoth w o t hidden t' hidden') ↔
          Refused (readBoth w o t' hidden' t hidden))) := by
  have forth := refused_iff h h' apart resolved
  have back := refused_iff h' h (apart.of_mem fun _ => by simp [or_comm]) resolved'
  refine ⟨forth, back, fun alike => ?_⟩
  rw [forth, back]
  exact ⟨Clash.swap alike, Clash.swap alike.symm⟩

/-- What a fresh scanner fails with when it reads the one service or both. -/
def failure? (outcome : EStateM.Result Failure Progress Unit) : Option Failure :=
  match outcome with
  | .ok _ _ => none
  | .error e _ => some e

theorem failure?_some {outcome : EStateM.Result Failure Progress Unit} {e : Failure}
    (h : failure? outcome = some e) : ∃ q, outcome = .error e q := by
  cases outcome with
  | ok u q => cases h
  | error e' q => exact ⟨q, congrArg (EStateM.Result.error · q) (Option.some.inj h)⟩

end Run

open Run (failure? read)

namespace World

/-- The request types that the methods of a service use, by name and reference. -/
def requestsOf (w : World) (t : TypeExpr) : List (String × String) :=
  match w.loadService t with
  | .ok s => (s.methods.filterMap Method.requestBody).map fun b => (b.name, b.reference)
  | .error _ => []

/-- A class with a creator that takes one argument of the type. -/
def created (name qualname : String) (content : TypeExpr) : TypeDecl :=
  .cls {
    name
    qualname
    above := [.builtin .object]
    methods := [("make", {
      name := "make"
      creator := true
      leads := false
      arguments := [{
        name := "content"
        annotation := some content
        params := [{ required := true }] }] })] }

/-- A class with one field. -/
def holding (name field : String) (content : TypeExpr) : TypeDecl :=
  .cls {
    name
    qualname := name
    above := [.builtin .object]
    annotations := [(field, content)] }

/-- A service with routes, each under its own path. -/
def serving (name : String) (routes : List MethodDecl) : TypeDecl :=
  .cls {
    name
    qualname := name
    above := [.builtin .object]
    service := some {}
    path := some name
    methods := routes.map fun m =>
      (m.name, { m with marked := true, path := some (.text m.name) }) }

/-- Notes at home, at the office and on site, all of that name. The first ones are sent as forms,
the other ones as bodies. -/
def notes : World where
  decls := [
    holding "Address" "city" (.builtin .str),
    created "Note" "Home.Note" (.builtin .str),
    created "Note" "Office.Note" (.declared 0),
    created "Note" "Site.Note" (.declared 0),
    serving "Homes" [{ name := "add", operation := some { request := .declared 1 } }],
    serving "Offices" [{ name := "add", operation := some { request := .declared 2 } }],
    serving "Sites" [{ name := "add", operation := some { request := .declared 3 } }]]

/-- Moves of a home and of an office, both sent as forms. Another method of the homes sends an
address in a body under their name. -/
def moves : World where
  decls := [
    holding "Address" "city" (.builtin .str),
    created "Homes_move" "Home.Homes_move" (.builtin .str),
    created "Homes_move" "Office.Homes_move" (.builtin .str),
    serving "Homes" [
      { name := "add", operation := some { request := .declared 1 } },
      { name := "move"
        operation := some {}
        arguments := [{
          name := "to"
          annotation := some (.declared 0)
          params := [{ required := true }] }] }],
    serving "Offices" [{ name := "add", operation := some { request := .declared 2 } }]]

/-- Notes that are both sent as bodies, beside plans and rooms of which there are two of one name. A
plan leads to a room and that to another plan, which has a field that no model is known for. -/
def plans : World where
  decls := [
    holding "Address" "city" (.builtin .str),
    created "Note" "Home.Note" (.declared 0),
    created "Note" "Office.Note" (.declared 0),
    holding "Plan" "rest" (.applied (.builtin .list) [.ellipsis]),
    holding "Room" "other" (.declared 3),
    holding "Plan" "room" (.declared 4),
    holding "Room" "size" (.builtin .int),
    serving "Homes" [
      { name := "plan", operation := some { response := .declared 5 } },
      { name := "hall", operation := some { response := .declared 6 } },
      { name := "add", operation := some { request := .declared 1 } }],
    serving "Offices" [
      { name := "plan", operation := some { response := .declared 5 } },
      { name := "room", operation := some { response := .declared 4 } },
      { name := "add", operation := some { request := .declared 2 } }]]

/-- The order of two reads matters although each service is read alone and both use request types of
one name. Notes at home are sent as a form and take no name, so that those at the office are not
refused after them. Moves of the office are refused after those of the home, whose name another
method has taken. And the plan of the office leads to a type without a name after the rooms of the
home, before any note is refused. -/
theorem order_of_requests_matters :
    (notes.requestsOf (.declared 4) = [("Note", "app.Home.Note")] ∧
      notes.requestsOf (.declared 5) = [("Note", "app.Office.Note")] ∧
      failure? (read notes (.declared 4) false {}) = none ∧
      failure? (read notes (.declared 5) false {}) = none ∧
      failure? (readBoth notes [] (.declared 4) false (.declared 5) false) = none ∧
      failure? (readBoth notes [] (.declared 5) false (.declared 4) false) =
        some (.modelNameTaken "Note" "app.Office.Note" "app.Home.Note")) ∧
    (moves.requestsOf (.declared 3) = [("Homes_move", "app.Home.Homes_move")] ∧
      moves.requestsOf (.declared 4) = [("Homes_move", "app.Office.Homes_move")] ∧
      failure? (read moves (.declared 3) false {}) = none ∧
      failure? (read moves (.declared 4) false {}) = none ∧
      failure? (readBoth moves [] (.declared 3) false (.declared 4) false) =
        some (.modelNameTaken "Homes_move" "app.Homes_move" "app.Office.Homes_move") ∧
      failure? (readBoth moves [] (.declared 4) false (.declared 3) false) = none) ∧
    plans.requestsOf (.declared 7) = [("Note", "app.Home.Note")] ∧
      plans.requestsOf (.declared 8) = [("Note", "app.Office.Note")] ∧
      failure? (read plans (.declared 7) false {}) = none ∧
      failure? (read plans (.declared 8) false {}) = none ∧
      failure? (readBoth plans [] (.declared 7) false (.declared 8) false) =
        some (.missingAttribute "ellipsis" "__module__") ∧
      failure? (readBoth plans [] (.declared 8) false (.declared 7) false) =
        some (.modelNameTaken "Note" "app.Office.Note" "app.Home.Note") := by
  refine ⟨?notes, ?moves, ?plans⟩
  case notes => decide +kernel
  case moves => decide +kernel
  case plans => decide +kernel

end World

/-- Notes of the office and those on site are refused in either order. -/
theorem Run.refused_iff_clash_notes :
    ∃ first second p p', Reads World.notes (.declared 5) false {} first p ∧
      Reads World.notes (.declared 6) false {} second p' ∧
      World.notes.RequestsApart (first ++ second) ∧
      Resolved (readBoth World.notes [] (.declared 5) false (.declared 6) false) ∧
      Resolved (readBoth World.notes [] (.declared 6) false (.declared 5) false) ∧
      Clash first second ∧ Clash second first := by
  have offices : (read World.notes (.declared 5) false).observe (fun _ => ()) = some () := by
    decide +kernel
  have sites : (read World.notes (.declared 6) false).observe (fun _ => ()) = some () := by
    decide +kernel
  have forth : failure? (readBoth World.notes [] (.declared 5) false (.declared 6) false) =
      some (.modelNameTaken "Note" "app.Office.Note" "app.Site.Note") := by decide +kernel
  have back : failure? (readBoth World.notes [] (.declared 6) false (.declared 5) false) =
      some (.modelNameTaken "Note" "app.Site.Note" "app.Office.Note") := by decide +kernel
  have named : (World.notes.allMethods.all fun m =>
      m.requestBody.any fun b => b.name == "Note") = true := by decide +kernel
  obtain ⟨_, p, hp, _⟩ := observe_some offices
  obtain ⟨_, p', hp', _⟩ := observe_some sites
  obtain ⟨first, stores⟩ := stores_of_read hp
  obtain ⟨second, stores'⟩ := stores_of_read hp'
  have note : ∀ v ∈ first ++ second, ∃ b, v.entry.method.requestBody = some b ∧
      b.name = "Note" := by
    intro v hv
    have arises : v.entry.Arises World.notes := by
      rcases List.mem_append.1 hv with hv | hv
      · exact stores.arises v hv _ List.mem_cons_self
      · exact stores'.arises v hv _ List.mem_cons_self
    obtain ⟨⟨t, ht⟩, hm, _⟩ := arises
    obtain ⟨b, hb, hname⟩ := (Option.any_eq_true _ _).1
      (List.all_eq_true.1 named _ (World.mem_allMethods ht hm))
    exact ⟨b, hb, eq_of_beq hname⟩
  have apart : World.notes.RequestsApart (first ++ second) := {
    models := by
      rintro name reference ⟨v, hv, b, hb, rfl, _⟩
      obtain ⟨b', hb', hname⟩ := note v hv
      obtain rfl := Option.some.inj (hb.symm.trans hb')
      rw [hname]
      exact World.not_namesModel (by decide)
    bodies := by
      intro v hv hb
      obtain ⟨b, hb', _⟩ := note v hv
      cases hb.symm.trans hb' }
  obtain ⟨q, hq⟩ := failure?_some forth
  obtain ⟨q', hq'⟩ := failure?_some back
  have resolved : Resolved (readBoth World.notes [] (.declared 5) false (.declared 6) false) := by
    rintro e r he (h | h) <;> cases hq.symm.trans he <;> cases h
  have resolved' : Resolved (readBoth World.notes [] (.declared 6) false (.declared 5) false) := by
    rintro e r he (h | h) <;> cases hq'.symm.trans he <;> cases h
  obtain ⟨clash, clash', _⟩ :=
    refused_iff_clash (o := []) stores.reads stores'.reads apart resolved resolved'
  exact ⟨first, second, p, p', stores.reads, stores'.reads, apart, resolved, resolved',
    clash.1 ⟨_, q, hq, rfl⟩, clash'.1 ⟨_, q', hq', rfl⟩⟩

end ApiCompiler
