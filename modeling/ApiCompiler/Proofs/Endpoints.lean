import ApiCompiler.Proofs.LowerCase
import ApiCompiler.Proofs.Slots
import ApiCompiler.Proofs.Traces

/-!
# Endpoints of a service

The endpoints of a service are defined without a scan: its exposed methods in order, each after the
endpoints of the service that it leads to. Exhaustion of the steps is `none`, never a partial list.
The operations that a successful scan stores are these endpoints one by one, and the path table is
what is left when each is written to its slot. A service that is left out stores nothing and has
endpoints all the same.
-/

set_option autoImplicit false

namespace ApiCompiler

/-- A method with the template and the verb under which it answers. -/
structure Endpoint where
  template : String
  verb : String
  method : Method

def Endpoint.slot (e : Endpoint) : Slot := (e.template, e.verb)

namespace World

variable (w : World)

/-- The endpoints of the service that a method leads to, if it leads to one. -/
def endpointsBelow (below : Service → String → Option (List Endpoint)) (m : Method)
    (front : String) : Option (List Endpoint) :=
  match m.subResource with
  | none => some []
  | some t =>
    match w.loadService t with
    | .ok sub => below sub front
    | .error _ => none

def methodEndpoints (below : Service → String → Option (List Endpoint)) (s : Service)
    (front : String) (m : Method) : Option (List Endpoint) :=
  match s.template? front m, m.isRouted with
  | some t, true =>
    (w.endpointsBelow below m t.text).map
      (· ++ [{ template := t.text, verb := m.verb, method := m }])
  | _, _ => some []

def listEndpoints (below : Service → String → Option (List Endpoint)) (s : Service)
    (front : String) : List Method → Option (List Endpoint)
  | [] => some []
  | m :: ms => do
    let here ← w.methodEndpoints below s front m
    return here ++ (← listEndpoints below s front ms)

/-- The endpoints of a service below a path, found in a number of steps inside one another. -/
def endpointsWithin : Nat → Service → String → Option (List Endpoint)
  | 0, _, _ => none
  | steps + 1, s, front => w.listEndpoints (endpointsWithin steps) s front s.methods

/-- The service has these endpoints below the path. -/
def Endpoints (s : Service) (front : String) (endpoints : List Endpoint) : Prop :=
  ∃ steps, w.endpointsWithin steps s front = some endpoints

variable {w}

theorem listEndpoints_cons {below : Service → String → Option (List Endpoint)} {s : Service}
    {front : String} {m : Method} {ms : List Method} {here rest : List Endpoint}
    (hm : w.methodEndpoints below s front m = some here)
    (hr : w.listEndpoints below s front ms = some rest) :
    w.listEndpoints below s front (m :: ms) = some (here ++ rest) := by
  rw [listEndpoints, hm, hr]
  rfl

theorem methodEndpoints_of_routed {below : Service → String → Option (List Endpoint)} {s : Service}
    {front : String} {m : Method} {t : Path.Template} (ht : s.template? front m = some t)
    (hr : m.isRouted = true) :
    w.methodEndpoints below s front m = (w.endpointsBelow below m t.text).map
      (· ++ [{ template := t.text, verb := m.verb, method := m }]) := by
  rw [methodEndpoints, ht, hr]

theorem methodEndpoints_of_unrouted {below : Service → String → Option (List Endpoint)}
    {s : Service} {front : String} {m : Method}
    (h : s.template? front m = none ∨ m.isRouted = false) :
    w.methodEndpoints below s front m = some [] := by
  unfold methodEndpoints
  rcases h with h | h
  · rw [h]
  · rw [h]
    cases s.template? front m <;> rfl

section Monotone

variable {f g : Service → String → Option (List Endpoint)}
  (h : ∀ ⦃s front l⦄, f s front = some l → g s front = some l)
include h

theorem methodEndpoints_mono {s : Service} {front : String} {m : Method} {l : List Endpoint}
    (hf : w.methodEndpoints f s front m = some l) : w.methodEndpoints g s front m = some l := by
  unfold methodEndpoints at hf ⊢
  split at hf
  · rename_i t ht hr
    obtain ⟨nested, hn, rfl⟩ := Option.map_eq_some_iff.1 hf
    refine Option.map_eq_some_iff.2 ⟨nested, ?_, rfl⟩
    unfold endpointsBelow at hn ⊢
    cases hs : m.subResource with
    | none => rw [hs] at hn; exact hn
    | some u =>
      rw [hs] at hn
      cases hl : w.loadService u with
      | error e => simp [hl] at hn
      | ok sub => simp only [hl] at hn ⊢; exact h hn
  · exact hf

theorem listEndpoints_mono {s : Service} {front : String} {ms : List Method} :
    ∀ {l : List Endpoint}, w.listEndpoints f s front ms = some l →
      w.listEndpoints g s front ms = some l := by
  induction ms with
  | nil => exact fun hf => hf
  | cons m ms ih =>
    intro l hf
    obtain ⟨here, hm, hf⟩ := Option.bind_eq_some_iff.1 hf
    obtain ⟨rest, hr, hf⟩ := Option.bind_eq_some_iff.1 hf
    exact Option.bind_eq_some_iff.2 ⟨here, methodEndpoints_mono h hm,
      Option.bind_eq_some_iff.2 ⟨rest, ih hr, hf⟩⟩

end Monotone

theorem endpointsWithin_stable {n m : Nat} (hle : n ≤ m) {s : Service} {front : String}
    {l : List Endpoint} (h : w.endpointsWithin n s front = some l) :
    w.endpointsWithin m s front = some l := by
  induction n generalizing m s front l with
  | zero => cases h
  | succ n ih =>
    cases m with
    | zero => cases hle
    | succ m => exact listEndpoints_mono (fun _ _ _ => ih (Nat.le_of_succ_le_succ hle)) h

theorem listEndpoints_stable {n m : Nat} (hle : n ≤ m) {s : Service} {front : String}
    {ms : List Method} {l : List Endpoint}
    (h : w.listEndpoints (w.endpointsWithin n) s front ms = some l) :
    w.listEndpoints (w.endpointsWithin m) s front ms = some l :=
  listEndpoints_mono (fun _ _ _ => endpointsWithin_stable hle) h

theorem endpoints_unique {s : Service} {front : String} {l l' : List Endpoint}
    (h : w.Endpoints s front l) (h' : w.Endpoints s front l') : l = l' := by
  obtain ⟨n, hn⟩ := h
  obtain ⟨m, hm⟩ := h'
  rcases Nat.le_total n m with hle | hle
  · rw [endpointsWithin_stable hle hn] at hm
    exact Option.some.inj hm
  · rw [endpointsWithin_stable hle hm] at hn
    exact (Option.some.inj hn).symm

end World

/-- The slots of the stored operations are those of the path table. -/
theorem Document.operations_slots (d : Document) :
    d.operations.map (fun o => (o.1, o.2.1)) = Slot.ofTable d.paths := by
  unfold Document.operations Slot.ofTable
  rw [List.map_flatMap]
  refine List.flatMap_congr fun e _ => ?_
  rw [Table.keys, List.map_map, List.map_map]
  rfl

namespace Visit

/-- The endpoint of a stored operation. -/
def endpoint (v : Visit) : Endpoint :=
  { template := v.entry.template.text, verb := v.entry.method.verb, method := v.entry.method }

end Visit

namespace Run

variable {w : World} {p q : Progress}

/-- The methods that a scan stores operations for are the endpoints of the service. -/
theorem endpoints_of_scans {s : Service} {d : Descent} {above : List Entry} {ms : List Method}
    {visits : List Visit} (h : Scans w s d above ms p visits q) :
    ∃ steps, w.listEndpoints (w.endpointsWithin steps) s d.path ms =
      some (visits.map Visit.endpoint) := by
  induction h with
  | nil => exact ⟨0, rfl⟩
  | @unexposed s d above m ms p q visits path hpath hn rest ih =>
    obtain ⟨steps, ih⟩ := ih
    have hn : s.template? d.path m = none ∨ m.isRouted = false :=
      hn.imp_right fun hn => by rw [Method.isRouted, hn, Option.any_none]
    exact ⟨steps, World.listEndpoints_cons (World.methodEndpoints_of_unrouted hn) ih⟩
  | @hidden s d above m ms p q r visits template info ht hi hb rest ih =>
    obtain ⟨steps, ih⟩ := ih
    have hn : m.isRouted = false := isRouted_of_build hb hi
    exact ⟨steps, World.listEndpoints_cons (World.methodEndpoints_of_unrouted (.inr hn)) ih⟩
  | @operation e above ms p q r r' visits ht hi hb hs hst rest ih =>
    obtain ⟨steps, ih⟩ := ih
    have here : w.methodEndpoints (w.endpointsWithin steps) e.service e.descent.path e.method =
        some [Visit.endpoint ⟨e, above⟩] := by
      rw [World.methodEndpoints_of_routed ht (isRouted_of_build hb hi)]
      simp only [World.endpointsBelow, hs]
      rfl
    exact ⟨steps, World.listEndpoints_cons here ih⟩
  | @locator e above ms p q r r₁ r₂ r₃ nested visits t sub ht hi hb hs hl hnew inner hst rest
      ihInner ihRest =>
    obtain ⟨n, hn⟩ := ihInner
    obtain ⟨m, hm⟩ := ihRest
    refine ⟨max (n + 1) m, ?_⟩
    rw [List.map_append, List.map_cons, List.append_cons]
    refine World.listEndpoints_cons ?_ (World.listEndpoints_stable (Nat.le_max_right _ _) hm)
    have inside : w.endpointsWithin (max (n + 1) m) sub e.template.text =
        some (nested.map Visit.endpoint) :=
      World.endpointsWithin_stable (Nat.le_max_left (n + 1) m) hn
    rw [World.methodEndpoints_of_routed ht (isRouted_of_build hb hi)]
    simp only [World.endpointsBelow, hs, (load_ok hl).1, inside]
    rfl

theorem paths_of_build {m : Method} {built : Option Operation} (h : build w m p = .ok built q) :
    q.document.paths = p.document.paths := by
  have paths := allowsBuilding_of_eq (fun p => p.document.paths) (fun _ _ => rfl)
    (fun _ _ => rfl) fun _ _ => rfl
  exact (build_keeps paths w m).of_ok h

theorem paths_of_load {t : TypeExpr} {s : Service} (h : load w t p = .ok s q) :
    q.document.paths = p.document.paths := by
  obtain ⟨_, rfl⟩ := load_ok h
  rfl

/-- What a scan of methods writes to the path table. -/
def writes (visits : List Visit) : List (Slot × Operation) :=
  visits.map fun v => (v.endpoint.slot, v.entry.operation)

/-- Storing an operation writes it to the slot of its endpoint. -/
theorem paths_of_store {e : Entry} (above : List Entry) (h : e.store p = .ok () q) :
    q.document.paths = Slot.writeAll p.document.paths (writes [⟨e, above⟩]) := by
  obtain ⟨q', hst, _, _, _, hpaths⟩ := store_ok e.template.text e.method.verb
    (e.info.tags ++ e.descent.tags) e.operation p
  have hst : e.store p = .ok () q' := hst
  obtain rfl : q' = q := (EStateM.Result.ok.inj (hst.symm.trans h)).2
  have hverb : Text.lower e.method.verb = e.method.verb := Route.lower_verb _ _ _
  rw [hpaths, Document.addOperation, hverb]
  rfl

/-- A scan writes the slots of its endpoints one after the other and nothing else. -/
theorem paths_of_scans {s : Service} {d : Descent} {above : List Entry} {ms : List Method}
    {visits : List Visit} (h : Scans w s d above ms p visits q) :
    q.document.paths = Slot.writeAll p.document.paths (writes visits) := by
  induction h with
  | nil => rfl
  | unexposed hpath hn rest ih => exact ih
  | hidden ht hi hb rest ih => rw [ih, paths_of_build hb]
  | @operation e above ms p q r r' visits ht hi hb hs hst rest ih =>
    rw [ih, paths_of_store above hst, paths_of_build hb]
    rfl
  | @locator e above ms p q r r₁ r₂ r₃ nested visits t sub ht hi hb hs hl hnew inner hst rest
      ihInner ihRest =>
    have inside : r₂.document.paths = Slot.writeAll p.document.paths (writes nested) := by
      rw [ihInner, ← paths_of_build hb, ← paths_of_load hl]
      rfl
    have here : r₃.document.paths = Slot.writeAll p.document.paths
        (writes nested ++ writes [⟨e, above⟩]) := by
      rw [paths_of_store above hst, Slot.writeAll_append, ← inside]
      rfl
    have split : writes (nested ++ ⟨e, above⟩ :: visits) =
        (writes nested ++ writes [⟨e, above⟩]) ++ writes visits := by
      simp [writes]
    rw [ihRest, here, split]
    exact (Slot.writeAll_append _ _ _).symm

/-- A read that starts without paths stores the endpoints of its service, unless it leaves the
service out and stores nothing: their slots are taken in order, on either level of the path table,
and a slot holds the operation of the last endpoint that it belongs to. -/
theorem read_endpoints {t : TypeExpr} {s : Service} {includeHidden : Bool}
    (hl : w.loadService t = .ok s) (hp : p.document.paths = [])
    (h : read w t includeHidden p = .ok () q) :
    (Descent.skips { includeHidden } s = true → q.document.operations = []) ∧
      (Descent.skips { includeHidden } s = false →
        ∃ visits, Reads w t includeHidden p visits q ∧
          w.Endpoints s "" (visits.map Visit.endpoint) ∧
          q.document.operations.map (fun o => (o.1, o.2.1)) =
            Slot.order (visits.map fun v => v.endpoint.slot) ∧
          ∀ slot, Slot.at? q.document.paths slot =
            ((visits.filter fun v => v.endpoint.slot = slot).getLast?).map fun v =>
              v.entry.operation) := by
  obtain ⟨visits, reads⟩ := reads_of_ok h
  cases reads with
  | @skipped s' r hl' hskips =>
    obtain rfl : s = s' := Except.ok.inj (hl.symm.trans (load_ok hl').1)
    refine ⟨fun _ => ?_, fun hs => ?_⟩
    · show Document.operations r.document = []
      rw [Document.operations, paths_of_load hl', hp]
      rfl
    · rw [hs] at hskips
      cases hskips
  | @scanned s' r q' visits hl' hskips trace =>
    obtain rfl : s = s' := Except.ok.inj (hl.symm.trans (load_ok hl').1)
    refine ⟨fun hs => ?_, fun _ => ⟨visits, .scanned hl' hskips trace, ?_, ?_, fun slot => ?_⟩⟩
    · rw [hs] at hskips
      cases hskips
    · obtain ⟨steps, endpoints⟩ := endpoints_of_scans trace
      exact ⟨steps + 1, endpoints⟩
    all_goals
      have paths : q'.document.paths = Slot.writeAll [] (writes visits) := by
        rw [paths_of_scans trace, ← hp, ← paths_of_load hl']
        rfl
    · show q'.document.operations.map _ = _
      rw [Document.operations_slots, paths, Slot.ofTable_writeAll, writes, List.map_map]
      rfl
    · show Slot.at? q'.document.paths slot = _
      rw [paths, Slot.at?_writeAll, writes, List.filter_map, List.getLast?_map, Option.map_map]
      rfl

end Run

namespace World

/-- The slots of the endpoints of a service, as they are listed, and the slots that reading it from
the beginning fills, as they stand in the document. -/
def slotsOf (w : World) (t : TypeExpr) (includeHidden : Bool) : Option (List Slot × List Slot) :=
  match w.loadService t with
  | .ok s => (w.endpointsWithin (w.decls.length + 1) s "").bind fun endpoints =>
      (Run.read w t includeHidden).observe fun q =>
        (endpoints.map Endpoint.slot, q.document.operations.map fun o => (o.1, o.2.1))
  | .error _ => none

theorem slotsOf_some {w : World} {t : TypeExpr} {includeHidden : Bool} {listed stored : List Slot}
    (h : w.slotsOf t includeHidden = some (listed, stored)) :
    ∃ s endpoints q, w.loadService t = .ok s ∧ w.Endpoints s "" endpoints ∧
      Run.read w t includeHidden {} = .ok () q ∧ endpoints.map Endpoint.slot = listed ∧
      q.document.operations.map (fun o => (o.1, o.2.1)) = stored := by
  unfold slotsOf at h
  cases hl : w.loadService t with
  | error e => simp [hl] at h
  | ok s =>
    rw [hl] at h
    obtain ⟨endpoints, he, h⟩ := Option.bind_eq_some_iff.1 h
    obtain ⟨_, q, hr, h⟩ := Run.observe_some h
    obtain ⟨hlisted, hstored⟩ := Prod.mk.inj h
    exact ⟨s, endpoints, q, rfl, ⟨_, he⟩, hr, hlisted, hstored⟩

/-- A hidden service, and one that leads to it and whose other methods answer under two paths in
turn. -/
def catalogue : World where
  decls := [
    .cls {
      name := "Drafts"
      qualname := "Drafts"
      above := [.builtin .object]
      service := some { hidden := true }
      path := some "/drafts"
      methods := [("all", { name := "all", marked := true, operation := some {} })] },
    .cls {
      name := "Items"
      qualname := "Items"
      above := [.builtin .object]
      service := some {}
      methods := [
        ("drafts", {
          name := "drafts"
          marked := true
          path := some (.text "/items")
          operation := some { verb := "get" }
          returns := some (.declared 0) }),
        ("item", {
          name := "item"
          marked := true
          path := some (.text "/item")
          operation := some { verb := "get" } }),
        ("add", {
          name := "add"
          marked := true
          path := some (.text "/items")
          operation := some {} })] }]
  names := [("Drafts", .declared 0), ("Items", .declared 1)]

end World

theorem Run.read_endpoints_catalogue :
    ∃ s visits q, World.catalogue.loadService (.declared 1) = .ok s ∧
      Reads World.catalogue (.declared 1) false {} visits q ∧
      visits.map (fun v => v.endpoint.slot) = [("/items/drafts", "post"), ("/items", "get"),
        ("/item", "get"), ("/items", "post")] ∧
      q.document.operations.map (fun o => (o.1, o.2.1)) = [("/items/drafts", "post"),
        ("/items", "get"), ("/items", "post"), ("/item", "get")] ∧
      ∀ slot, Slot.at? q.document.paths slot =
        ((visits.filter fun v => v.endpoint.slot = slot).getLast?).map fun v =>
          v.entry.operation := by
  have slots : World.catalogue.slotsOf (.declared 1) false = some
      ([("/items/drafts", "post"), ("/items", "get"), ("/item", "get"), ("/items", "post")],
        [("/items/drafts", "post"), ("/items", "get"), ("/items", "post"), ("/item", "get")]) := by
    decide +kernel
  obtain ⟨s, endpoints, q, hl, he, hr, hlisted, hstored⟩ := World.slotsOf_some slots
  have shown : (World.catalogue.loadService (.declared 1)).toOption.map
      (Descent.skips { includeHidden := false }) = some false := by decide +kernel
  rw [hl] at shown
  obtain ⟨visits, reads, he', _, hat⟩ := (Run.read_endpoints hl rfl hr).2 (Option.some.inj shown)
  rw [World.endpoints_unique he he', List.map_map] at hlisted
  exact ⟨s, visits, q, hl, reads, hlisted, hstored, hat⟩

/-- A hidden service is read without an error and none of its endpoints is stored, and the slots of
the other one do not stand in the order in which they are listed and first taken. -/
theorem World.catalogue_slots :
    (∃ s endpoints q, catalogue.loadService (.declared 0) = .ok s ∧
      catalogue.Endpoints s "" endpoints ∧ Run.read catalogue (.declared 0) false {} = .ok () q ∧
      endpoints.map Endpoint.slot = [("/drafts", "post")] ∧
      q.document.operations.map (fun o => (o.1, o.2.1)) = []) ∧
    ∃ s endpoints q, catalogue.loadService (.declared 1) = .ok s ∧
      catalogue.Endpoints s "" endpoints ∧ Run.read catalogue (.declared 1) false {} = .ok () q ∧
      endpoints.map Endpoint.slot = [("/items/drafts", "post"), ("/items", "get"),
        ("/item", "get"), ("/items", "post")] ∧
      q.document.operations.map (fun o => (o.1, o.2.1)) = [("/items/drafts", "post"),
        ("/items", "get"), ("/items", "post"), ("/item", "get")] :=
  ⟨slotsOf_some (by decide +kernel), slotsOf_some (by decide +kernel)⟩

end ApiCompiler
