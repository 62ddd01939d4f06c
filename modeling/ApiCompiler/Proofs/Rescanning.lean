import ApiCompiler.Proofs.Reachability
import ApiCompiler.Proofs.Rebuilding
import ApiCompiler.Proofs.Recursion

/-!
# Scanning again

A scan that has led from a coherent state to another one is redone from any comparable state with
the same trail: it stores the same operations in the same order, unless resolution nests too deep.
The types and bodies that count are those of the methods that come up in the scan.
-/

set_option autoImplicit false

namespace ApiCompiler

namespace World

/-- The methods that come up in a scan of a service: exposed ones, its own or of services that it
leads to. -/
def Scanned (w : World) (t : TypeExpr) (m : Method) : Prop :=
  ∃ u s, w.Reaches t u ∧ w.loadService u = .ok s ∧ m ∈ s.methods ∧ s.Exposes m

/-- The methods that come up when services are read one after the other: those of a hidden service
do not, unless hidden services are taken. -/
def ComesUp (w : World) (roots : TypeExpr → Prop) (includeHidden : Bool) (m : Method) : Prop :=
  ∃ t s, roots t ∧ w.loadService t = .ok s ∧ Descent.skips { includeHidden } s = false ∧
    w.Scanned t m

end World

namespace Run

open Progress (Coherent Advances Comparable Attains)

variable {w : World} {o : Overrides} {S : Method → Prop} {α β : Type} {x y : Run α} {a : α}
  {p p' q q' : Progress}

section Again

variable {good good' : α → Progress → Prop}

theorem Again.imp (h : Again w o S p x q good)
    (hg : ∀ b q', x q = .ok b q' → good b q' → good' b q') : Again w o S p x q good' := by
  rcases h with ⟨b, q', hb, attains, h⟩ | endless
  · exact .inl ⟨b, q', hb, attains, hg b q' hb h⟩
  · exact .inr endless

theorem Again.of_ok (hq : q.Coherent w o S) (h : x q = .ok a q') (hr : q'.registry = q.registry)
    (hd : q'.document.definitions = q.document.definitions) (hg : good a q') :
    Again w o S p x q good :=
  .inl ⟨a, q', h, .of_eq hq hr hd, hg⟩

/-- What has led to a state is judged by any state that it has advanced to. -/
theorem Again.of_advances (h : Again w o S p x q good) (hp : p.Advances p') :
    Again w o S p' x q good := by
  rcases h with ⟨b, q', hb, attains, hg⟩ | ⟨hnot, endless⟩
  · refine .inl ⟨b, q', hb, ⟨attains.coherent, attains.advances, fun definitions hq hd => ?_⟩, hg⟩
    exact attains.within hq (hp.within.definitions.trans hd)
  · exact .inr ⟨fun hw => hnot (hp.within.trans hw), endless⟩

end Again

/-- A step that has led from a coherent state to another one leads on in the same way from every
comparable state with the same trail. -/
structure Redone {α : Type} (w : World) (o : Overrides) (S : Method → Prop) (x : Run α)
    (p : Progress) (a : α) (q : Progress) (good : Progress → Progress → Prop) : Prop where
  coherent : q.Coherent w o S
  advances : p.Advances q
  trail : q.trail = p.trail
  again : ∀ ⦃q₀ : Progress⦄, q₀.Coherent w o S → q₀.trail = p.trail → q.Comparable w o S q₀ →
    Again w o S q x q₀ fun b r => b = a ∧ r.trail = q₀.trail ∧ good q₀ r

namespace Redone

variable {good good' : Progress → Progress → Prop}

theorem imp (h : Redone w o S x p a q good) (hg : ∀ q₀ r, good q₀ r → good' q₀ r) :
    Redone w o S x p a q good' where
  coherent := h.coherent
  advances := h.advances
  trail := h.trail
  again q₀ hq ht hc := (h.again hq ht hc).imp fun _ r _ hr =>
    ⟨hr.1, hr.2.1, hg q₀ r hr.2.2⟩

theorem congr (h : Redone w o S y p a q good) (hxy : ∀ q₀, q₀.trail = p.trail → x q₀ = y q₀) :
    Redone w o S x p a q good where
  coherent := h.coherent
  advances := h.advances
  trail := h.trail
  again q₀ hq ht hc := by
    have hagain := h.again hq ht hc
    unfold Again at hagain ⊢
    rwa [hxy q₀ ht]

/-- A step that leaves models, definitions and trail alone. -/
theorem of_idle (hp : p.Coherent w o S) (h : x p = .ok a q)
    (hx : ∀ q₀, q₀.trail = p.trail → ∃ r, x q₀ = .ok a r ∧ r.registry = q₀.registry ∧
      r.document.definitions = q₀.document.definitions ∧ r.trail = q₀.trail ∧ good q₀ r) :
    Redone w o S x p a q good := by
  obtain ⟨r, hr, hregistry, hdefinitions, htrail, _⟩ := hx p rfl
  obtain rfl : r = q := (EStateM.Result.ok.inj (hr.symm.trans h)).2
  refine ⟨hp.of_eq hregistry hdefinitions, .of_eq hregistry hdefinitions, htrail, ?_⟩
  intro q₀ hq ht _
  obtain ⟨r₀, hr₀, hregistry₀, hdefinitions₀, htrail₀, hg⟩ := hx q₀ ht
  exact .of_ok hq hr₀ hregistry₀ hdefinitions₀ ⟨rfl, htrail₀, hg⟩

theorem bind {f : α → Run β} {b : β} (hx : Redone w o S x p a p' good)
    (hf : Redone w o S (f a) p' b q good') :
    Redone w o S (x >>= f) p b q fun q₀ r => ∃ q₁, good q₀ q₁ ∧ good' q₁ r where
  coherent := hf.coherent
  advances := hx.advances.trans hf.advances
  trail := hf.trail.trans hx.trail
  again q₀ hq ht hc := by
    have first := hx.again hq ht (hc.of_advances hf.advances)
    refine first.bind hf.advances fun a' q₁ hq₁ hadv hr => ?_
    obtain ⟨rfl, ht₁, hg⟩ := hr
    have same : q₁.trail = p'.trail := ht₁.trans (ht.trans hx.trail.symm)
    refine (hf.again hq₁ same (hc.advances hadv)).imp fun b' r _ hr => ?_
    exact ⟨hr.1, hr.2.1.trans ht₁, q₁, hg, hr.2.2⟩

/-- What has been done with a service on the trail is redone with it there. -/
theorem guarded {t : TypeExpr} {x : Run Unit} (hx : Redone w o S x (p.enter t) () q good) :
    Redone w o S (fun q₀ => guarded Progress.leave x (q₀.enter t)) p () q.leave fun q₀ r =>
      ∃ r', good (q₀.enter t) r' ∧ r = r'.leave where
  coherent := hx.coherent.of_eq rfl rfl
  advances := ⟨hx.advances.registry, hx.advances.definitions⟩
  trail := by
    show q.trail.dropLast = p.trail
    rw [hx.trail]
    exact List.dropLast_concat
  again q₀ hq ht hc := by
    have hentered : (q₀.enter t).Coherent w o S := hq.of_eq rfl rfl
    have htrail : (q₀.enter t).trail = (p.enter t).trail := by
      show q₀.trail ++ [t] = p.trail ++ [t]
      rw [ht]
    have hcomparable : q.Comparable w o S (q₀.enter t) := hc.imp_left fun h =>
      ⟨h.models, h.definitions⟩
    rcases hx.again hentered htrail hcomparable with
      ⟨u, r, hr, attains, _, hrt, hg⟩ | ⟨hnot, r, hr⟩
    · refine .inl ⟨(), r.leave, guarded_ok.2 ⟨r, hr, rfl⟩, ?_, rfl, ?_, r, hg, rfl⟩
      · exact ⟨attains.coherent.of_eq rfl rfl,
          ⟨attains.advances.registry, attains.advances.definitions⟩, attains.within⟩
      · show r.trail.dropLast = q₀.trail
        rw [hrt]
        exact List.dropLast_concat
    · exact .inr ⟨fun h => hnot ⟨h.models, h.definitions⟩, r.leave, guarded_error.2 ⟨r, hr, rfl⟩⟩

end Redone

/-- A step that repeats, and leaves the trail as it was, is redone. -/
theorem RepeatsAlways.redone (hx : RepeatsAlways w o S x) (ht : Keeps SameTrail x)
    (hp : p.Coherent w o S) (h : x p = .ok a q) :
    Redone w o S x p a q fun q₀ r => x q₀ = .ok a r := by
  obtain ⟨⟨hq, hadv, _⟩, again⟩ := hx hp trivial h
  refine ⟨hq, hadv, ht.of_ok h, fun q₀ hq₀ _ hc => ?_⟩
  refine (again hq₀ trivial hc).imp fun b r hb hr => ?_
  obtain rfl := hr.1
  exact ⟨rfl, ht.of_ok hb, hb⟩

section Steps

variable {s : Service} {d : Descent} {m : Method} {t : TypeExpr}

theorem load_redone (hp : p.Coherent w o S) (h : load w t p = .ok s q) :
    Redone w o S (load w t) p s q fun q₀ r => load w t q₀ = .ok s r :=
  .of_idle hp h fun q₀ _ =>
    have found := load_of_ok (load_ok h).1 q₀
    ⟨_, found, rfl, rfl, rfl, found⟩

theorem store_redone {e : Entry} (hp : p.Coherent w o S) (h : e.store p = .ok () q) :
    Redone w o S e.store p () q fun q₀ r => e.store q₀ = .ok () r := by
  refine .of_idle hp h fun q₀ _ => ?_
  obtain ⟨r, hr, hregistry, htrail, hdefinitions, _⟩ := store_ok e.template.text e.method.verb
    (e.info.tags ++ e.descent.tags) e.operation q₀
  exact ⟨r, hr, hregistry, hdefinitions, htrail, hr⟩

theorem unexposed_redone (below : Service → Descent → Run Unit) {path : Option String}
    (hp : p.Coherent w o S) (hpath : m.decl.pathText = .ok path)
    (hn : s.template? d.path m = none ∨ m.decl.operation = none) :
    Redone w o S (scanMethod w below s d m) p ()
      { p with notices := .notExposed s.name m.name :: p.notices }
      fun q₀ r => r = { q₀ with notices := .notExposed s.name m.name :: q₀.notices } :=
  .of_idle hp (scanMethod_of_unexposed hpath hn) fun _ _ =>
    ⟨_, scanMethod_of_unexposed hpath hn, rfl, rfl, rfl, rfl⟩

/-- A method that an operation is built for is exposed. -/
theorem exposes_of_build {template : Path.Template} {info : OperationInfo} {op : Operation}
    (ht : s.template? d.path m = some template) (hi : m.decl.operation = some info)
    (hb : build w m p = .ok (some op) q) : s.Exposes m := by
  have routed : m.isRouted = true := isRouted_of_build hb hi
  cases hpath : m.decl.pathText with
  | error e =>
    unfold Service.template? at ht
    rw [hpath] at ht
    cases ht
  | ok path => exact (Service.exposes_iff hpath d.path).2 ⟨routed, ht ▸ rfl⟩

/-- Entering a service and scanning its methods is redone as scanning the service is. -/
theorem scan_redone {good : Progress → Progress → Prop} (hs : w.loadService s.type = .ok s)
    (hskips : d.skips s = false) (hnew : p.trail.any (TypeExpr.same s.type) = false)
    (h : Redone w o S (scanMethods (scanMethod w (scan w) s (d.within s)) s.methods)
      (p.enter s.type) () q good) :
    Redone w o S (scan w s d) p () q.leave fun q₀ r =>
      q₀.trail.any (TypeExpr.same s.type) = false ∧
        ∃ r', good (q₀.enter s.type) r' ∧ r = r'.leave := by
  have hscan : ∀ q₀ : Progress, q₀.trail = p.trail → scan w s d q₀ =
      guarded Progress.leave (scanMethods (scanMethod w (scan w) s (d.within s)) s.methods)
        (q₀.enter s.type) := by
    intro q₀ ht
    rw [scan_eq hs, scanService_of_new hskips (ht ▸ hnew)]
  have entered := h.guarded.congr hscan
  refine ⟨entered.coherent, entered.advances, entered.trail, fun q₀ hq ht hc => ?_⟩
  exact (entered.again hq ht hc).imp fun _ r _ hr => ⟨hr.1, hr.2.1, ht ▸ hnew, hr.2.2⟩

end Steps

variable (apart : w.Apart o S)
include apart

theorem build_redone {m : Method} {built : Option Operation} (hm : S m) (hp : p.Coherent w o S)
    (h : build w m p = .ok built q) :
    Redone w o S (build w m) p built q fun q₀ r => build w m q₀ = .ok built r :=
  (build_repeats apart hm).redone (build_keeps sameTrail_building w m) hp h

/-- An exposed method is scanned again in its three steps. -/
theorem route_redone {e : Entry} {r r' : Progress} {good : Progress → Progress → Prop}
    (hm : S e.method) (ht : e.service.template? e.descent.path e.method = some e.template)
    (hi : e.method.decl.operation = some e.info) (hp : p.Coherent w o S)
    (hb : build w e.method p = .ok (some e.built) r)
    (htarget : r.Coherent w o S →
      Redone w o S (scanTarget w (scan w) e.method e.below) r () r' good)
    (hst : e.store r' = .ok () q) :
    Redone w o S (scanMethod w (scan w) e.service e.descent e.method) p () q fun q₀ q₃ =>
      ∃ q₁, build w e.method q₀ = .ok (some e.built) q₁ ∧
        ∃ q₂, good q₁ q₂ ∧ e.store q₂ = .ok () q₃ := by
  have built := build_redone apart hm hp hb
  have target := htarget built.coherent
  have stored := store_redone target.coherent hst
  have route : Redone w o S
      (scanRoute w (scan w) e.service e.descent e.method e.template e.info) p () q _ :=
    built.bind (target.bind (f := fun _ => e.store) stored)
  exact route.congr fun q₀ _ => scanMethod_of_exposed ht hi

/-- Scanning the methods of a service is redone with the same trace. -/
theorem scans_redone {s : Service} {d : Descent} {above : List Entry} {ms : List Method}
    {visits : List Visit} (h : Scans w s d above ms p visits q)
    (hs : w.loadService s.type = .ok s) (hms : ∀ m ∈ ms, m ∈ s.methods)
    (hS : ∀ m, w.Scanned s.type m → S m) (hp : p.Coherent w o S) :
    Redone w o S (scanMethods (scanMethod w (scan w) s d) ms) p () q fun q₀ r =>
      Scans w s d above ms q₀ visits r := by
  induction h with
  | nil => exact .of_idle hp rfl fun q₀ _ => ⟨q₀, rfl, rfl, rfl, rfl, .nil⟩
  | @unexposed s d above m ms p q visits path hpath hn rest ih =>
    have here := unexposed_redone (scan w) hp hpath hn
    have later := ih hs (fun m hm => hms m (List.mem_cons_of_mem _ hm)) hS here.coherent
    refine (here.bind (f := fun _ => scanMethods (scanMethod w (scan w) s d) ms) later).imp ?_
    rintro q₀ r ⟨_, rfl, rest⟩
    exact .unexposed hpath hn rest
  | @hidden s d above m ms p q r visits template info ht hi hb rest ih =>
    have here : Redone w o S (scanMethod w (scan w) s d m) p () r fun q₀ r =>
        build w m q₀ = .ok none r := by
      refine .of_idle hp ?_ fun q₀ _ => ?_
      · rw [scanMethod_of_exposed ht hi, scanRoute_of_hidden hb]
      · have built := build_of_hidden (w := w) (build_hidden hb) q₀
        exact ⟨q₀, by rw [scanMethod_of_exposed ht hi, scanRoute_of_hidden built], rfl, rfl, rfl,
          built⟩
    have later := ih hs (fun m hm => hms m (List.mem_cons_of_mem _ hm)) hS here.coherent
    refine (here.bind (f := fun _ => scanMethods (scanMethod w (scan w) s d) ms) later).imp ?_
    rintro q₀ r ⟨_, hb, rest⟩
    exact .hidden ht hi hb rest
  | @operation e above ms p q r r' visits ht hi hb hs' hst rest ih =>
    have hm := hms e.method List.mem_cons_self
    have hexposed := exposes_of_build ht hi hb
    have target (hr : r.Coherent w o S) : Redone w o S (scanTarget w (scan w) e.method e.below) r ()
        r fun q₁ q₂ => q₂ = q₁ :=
      .of_idle hr (scanTarget_of_none hs') fun q₁ _ =>
        ⟨q₁, scanTarget_of_none hs', rfl, rfl, rfl, rfl⟩
    have here := route_redone apart (hS _ ⟨_, _, .refl, hs, hm, hexposed⟩) ht hi hp hb target hst
    have later := ih hs (fun m hm => hms m (List.mem_cons_of_mem _ hm)) hS here.coherent
    refine (here.bind (f := fun _ => scanMethods (scanMethod w (scan w) e.service e.descent) ms)
      later).imp ?_
    rintro q₀ q₄ ⟨q₃, ⟨q₁, hb, _, rfl, hst⟩, rest⟩
    exact .operation ht hi hb hs' hst rest
  | @locator e above ms p q r r₁ r₂ r₃ nested visits t sub ht hi hb hs' hl hnew inner hst rest
      ihInner ihRest =>
    have hm := hms e.method List.mem_cons_self
    have hexposed := exposes_of_build ht hi hb
    have hsub := World.loadService_type (load_ok hl).1
    have edge : w.Edge e.service.type sub.type := by
      rw [(World.loadService_ok (load_ok hl).1).1]
      exact World.edge_of_subResource hs hm hexposed hs'
    have below : ∀ m, w.Scanned sub.type m → S m := by
      rintro m ⟨u, s', reached, found⟩
      exact hS m ⟨u, s', reached.head edge, found⟩
    have hskips : e.below.skips sub = false := by
      simp [Descent.skips, Entry.below, Descent.below]
    have target (hr : r.Coherent w o S) : Redone w o S (scanTarget w (scan w) e.method e.below) r ()
        r₂.leave fun q₁ q₂ => ∃ q', load w t q₁ = .ok sub q' ∧
          q'.trail.any (TypeExpr.same sub.type) = false ∧
          ∃ q'', Scans w sub (e.below.within sub) (e :: above) sub.methods (q'.enter sub.type)
            nested q'' ∧ q₂ = q''.leave := by
      have loaded := load_redone hr hl
      have scanned := scan_redone (d := e.below) hsub hskips hnew
        (ihInner hsub (fun _ h => h) below (loaded.coherent.of_eq rfl rfl))
      exact (loaded.bind (f := fun sub => scan w sub e.below) scanned).congr fun q₀ _ =>
        scanTarget_of_some hs'
    have here := route_redone apart (hS _ ⟨_, _, .refl, hs, hm, hexposed⟩) ht hi hp hb target hst
    have later := ihRest hs (fun m hm => hms m (List.mem_cons_of_mem _ hm)) hS here.coherent
    refine (here.bind (f := fun _ => scanMethods (scanMethod w (scan w) e.service e.descent) ms)
      later).imp ?_
    rintro q₀ q₅ ⟨q₄, ⟨q₁, hb, q₃, ⟨q₂, hl, hnew, q', inner, rfl⟩, hst⟩, rest⟩
    exact .locator ht hi hb hs' hl hnew inner hst rest

/-- Reading a service is redone with the same trace. -/
theorem reads_redone {t : TypeExpr} {includeHidden : Bool} {visits : List Visit}
    (h : Reads w t includeHidden p visits q)
    (hS : ∀ m, w.ComesUp (· = t) includeHidden m → S m) (hp : p.Coherent w o S)
    (hn : p.trail = []) :
    Redone w o S (read w t includeHidden) p () q fun q₀ r =>
      Reads w t includeHidden q₀ visits r := by
  cases h with
  | @skipped s r hl hskips =>
    have loaded := load_redone hp hl
    have scanned : Redone w o S (scan w s { includeHidden }) r ()
        { r with notices := .hiddenSkipped s.name :: r.notices } fun q₀ r =>
          r = { q₀ with notices := .hiddenSkipped s.name :: q₀.notices } :=
      .of_idle loaded.coherent (scanService_of_skips hskips) fun q₀ _ =>
        ⟨_, scanService_of_skips hskips, rfl, rfl, rfl, rfl⟩
    refine (loaded.bind (f := fun s => scan w s { includeHidden }) scanned).imp ?_
    rintro q₀ q₂ ⟨q₁, hl, rfl⟩
    exact .skipped hl hskips
  | @scanned s r q visits hl hskips trace =>
    have hs := World.loadService_type (load_ok hl).1
    have loaded := load_redone hp hl
    have hnew : r.trail.any (TypeExpr.same s.type) = false := by
      rw [loaded.trail, hn]
      rfl
    have comesUp : ∀ m, w.Scanned s.type m → S m := by
      intro m hm
      rw [(World.loadService_ok (load_ok hl).1).1] at hm
      exact hS m ⟨t, s, rfl, (load_ok hl).1, hskips, hm⟩
    have scanned := scan_redone hs hskips hnew
      (scans_redone apart trace hs (fun _ h => h) comesUp (loaded.coherent.of_eq rfl rfl))
    refine (loaded.bind (f := fun s => scan w s { includeHidden }) scanned).imp ?_
    rintro q₀ q₂ ⟨q₁, hl, _, q', trace, rfl⟩
    exact .scanned hl hskips trace

end Run

end ApiCompiler
