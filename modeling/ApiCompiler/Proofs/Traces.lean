import ApiCompiler.Proofs.Frames
import ApiCompiler.Proofs.Scanning

/-!
# Traces of scans

A scan that succeeds stores operations one after the other, those of a nested service before the one
of the method that leads to it. `Scans` relates a scan to the list of these operations, each with
the locators on the way to it; `Reads` does the same for a whole read, which stores nothing when its
service is left out. Every read that succeeds has such a trace; nothing is said of reads that fail.
-/

set_option autoImplicit false

namespace ApiCompiler

/-- A method on the way from building its operation to storing it. -/
structure Entry where
  service : Service
  /-- What the service passes on to its methods. -/
  descent : Descent
  method : Method
  template : Path.Template
  info : OperationInfo
  built : Operation

namespace Entry

/-- The operation below its path, with the parameters that it takes over. -/
def placed (e : Entry) : Operation := Run.placed e.built e.template e.info e.descent

/-- The operation as it is stored. -/
def operation (e : Entry) : Operation :=
  Run.completed e.placed e.info e.descent.tags e.service.info.authorizationNames

/-- What the operation passes on to the service that its method leads to. -/
def below (e : Entry) : Descent := e.descent.below e.template e.placed

/-- Stores the operation. -/
def store (e : Entry) : Run Unit :=
  Run.store e.template.text e.method.verb (e.info.tags ++ e.descent.tags) e.operation

end Entry

/-- A stored operation with the locators on the way to it, the nearest one first. -/
structure Visit where
  entry : Entry
  above : List Entry

/-- Scanning the methods of a service from a state stores operations in order and ends in a state.
-/
inductive Scans (w : World) : Service → Descent → List Entry → List Method → Progress →
    List Visit → Progress → Prop
  | nil {s : Service} {d : Descent} {above : List Entry} {p : Progress} :
      Scans w s d above [] p [] p
  | unexposed {s : Service} {d : Descent} {above : List Entry} {m : Method} {ms : List Method}
      {p q : Progress} {visits : List Visit} {path : Option String}
      (hpath : m.decl.pathText = .ok path)
      (hn : s.template? d.path m = none ∨ m.decl.operation = none)
      (rest : Scans w s d above ms { p with notices := .notExposed s.name m.name :: p.notices }
        visits q) :
      Scans w s d above (m :: ms) p visits q
  | hidden {s : Service} {d : Descent} {above : List Entry} {m : Method} {ms : List Method}
      {p q r : Progress} {visits : List Visit} {template : Path.Template} {info : OperationInfo}
      (ht : s.template? d.path m = some template) (hi : m.decl.operation = some info)
      (hb : Run.build w m p = .ok none r) (rest : Scans w s d above ms r visits q) :
      Scans w s d above (m :: ms) p visits q
  | operation {e : Entry} {above : List Entry} {ms : List Method} {p q r r' : Progress}
      {visits : List Visit} (ht : e.service.template? e.descent.path e.method = some e.template)
      (hi : e.method.decl.operation = some e.info)
      (hb : Run.build w e.method p = .ok (some e.built) r) (hs : e.method.subResource = none)
      (hst : e.store r = .ok () r') (rest : Scans w e.service e.descent above ms r' visits q) :
      Scans w e.service e.descent above (e.method :: ms) p (⟨e, above⟩ :: visits) q
  | locator {e : Entry} {above : List Entry} {ms : List Method} {p q r r₁ r₂ r₃ : Progress}
      {nested visits : List Visit} {t : TypeExpr} {sub : Service}
      (ht : e.service.template? e.descent.path e.method = some e.template)
      (hi : e.method.decl.operation = some e.info)
      (hb : Run.build w e.method p = .ok (some e.built) r) (hs : e.method.subResource = some t)
      (hl : Run.load w t r = .ok sub r₁) (hnew : r₁.trail.any (TypeExpr.same sub.type) = false)
      (inner : Scans w sub (e.below.within sub) (e :: above) sub.methods (r₁.enter sub.type)
        nested r₂)
      (hst : e.store r₂.leave = .ok () r₃)
      (rest : Scans w e.service e.descent above ms r₃ visits q) :
      Scans w e.service e.descent above (e.method :: ms) p (nested ++ ⟨e, above⟩ :: visits) q

/-- Reading a service from a state stores operations in order and ends in a state. -/
inductive Reads (w : World) (t : TypeExpr) (includeHidden : Bool) (p : Progress) :
    List Visit → Progress → Prop
  | skipped {s : Service} {r : Progress} (hl : Run.load w t p = .ok s r)
      (hs : Descent.skips { includeHidden } s = true) :
      Reads w t includeHidden p [] { r with notices := .hiddenSkipped s.name :: r.notices }
  | scanned {s : Service} {r q : Progress} {visits : List Visit}
      (hl : Run.load w t p = .ok s r) (hs : Descent.skips { includeHidden } s = false)
      (scan : Scans w s (Descent.within { includeHidden } s) [] s.methods (r.enter s.type)
        visits q) :
      Reads w t includeHidden p visits q.leave

namespace Run

variable {w : World}

/-- Scanning a service that is not left out enters it and scans its methods. -/
def Traced (w : World) (scan : Service → Descent → Run Unit) : Prop :=
  ∀ ⦃s d p q u⦄ (above : List Entry), scan s d p = .ok u q → d.skips s = false →
    p.trail.any (TypeExpr.same s.type) = false ∧
      ∃ visits r, Scans w s (d.within s) above s.methods (p.enter s.type) visits r ∧ q = r.leave

theorem scans_of_scanMethods {below : Service → Descent → Run Unit} (hb : Traced w below)
    {s : Service} {d : Descent} {above : List Entry} {ms : List Method} :
    ∀ {p q : Progress} {u : Unit}, scanMethods (scanMethod w below s d) ms p = .ok u q →
      ∃ visits, Scans w s d above ms p visits q := by
  induction ms with
  | nil => intro p q u h; cases h; exact ⟨[], .nil⟩
  | cons m ms ih =>
    intro p q u h
    obtain ⟨_, r, hm, h⟩ := bind_ok.1 h
    obtain ⟨visits, rest⟩ := ih h
    rcases scanMethod_cases s d m with ⟨e, he⟩ | ⟨template, info, ht, hi⟩ | ⟨path, hpath, hn⟩
    · rw [scanMethod_of_fault he] at hm
      cases hm
    · rw [scanMethod_of_exposed ht hi] at hm
      obtain ⟨built, r₁, hbuilt, _⟩ := bind_ok.1 hm
      cases built with
      | none =>
        rw [scanRoute_of_hidden hbuilt] at hm
        cases hm
        exact ⟨visits, .hidden ht hi hbuilt rest⟩
      | some op =>
        rw [scanRoute_of_built hbuilt] at hm
        obtain ⟨_, r₂, htarget, hstore⟩ := bind_ok.1 hm
        let e : Entry := ⟨s, d, m, template, info, op⟩
        cases hs : m.subResource with
        | none =>
          rw [scanTarget_of_none hs] at htarget
          cases htarget
          exact ⟨_, .operation (e := e) ht hi hbuilt hs hstore rest⟩
        | some t =>
          rw [scanTarget_of_some hs] at htarget
          obtain ⟨sub, r₃, hl, htarget⟩ := bind_ok.1 htarget
          have hskip : e.below.skips sub = false := by
            simp [Descent.skips, Entry.below, Descent.below]
          obtain ⟨hnew, nested, r₄, inner, rfl⟩ := hb (e :: above) htarget hskip
          exact ⟨_, .locator (e := e) ht hi hbuilt hs hl hnew inner hstore rest⟩
    · rw [scanMethod_of_unexposed hpath hn] at hm
      cases hm
      exact ⟨visits, .unexposed hpath hn rest⟩

theorem scanWithin_traced (w : World) (bound : Nat) : Traced w (scanWithin w bound) := by
  induction bound with
  | zero => intro s d p q u above h; cases h
  | succ bound ih =>
    intro s d p q u above h hs
    cases hm : p.trail.any (TypeExpr.same s.type) with
    | true =>
      have h : scanService w (scanWithin w bound) s d p = .ok u q := h
      rw [scanService_of_met hs hm] at h
      cases h
    | false =>
      have h : scanService w (scanWithin w bound) s d p = .ok u q := h
      rw [scanService_of_new hs hm] at h
      obtain ⟨r, hr, rfl⟩ := guarded_ok.1 h
      obtain ⟨visits, trace⟩ := scans_of_scanMethods ih hr
      exact ⟨rfl, visits, r, trace, rfl⟩

/-- Every read that succeeds has a trace. -/
theorem reads_of_ok {t : TypeExpr} {includeHidden : Bool} {p q : Progress} {u : Unit}
    (h : read w t includeHidden p = .ok u q) : ∃ visits, Reads w t includeHidden p visits q := by
  obtain ⟨s, r, hl, h⟩ := bind_ok.1 h
  cases hs : Descent.skips { includeHidden } s with
  | true =>
    have h : scanService w (scanWithin w w.decls.length) s { includeHidden } r = .ok u q := h
    rw [scanService_of_skips hs] at h
    cases h
    exact ⟨[], .skipped hl hs⟩
  | false =>
    obtain ⟨_, visits, r', trace, rfl⟩ := scanWithin_traced w _ [] h hs
    exact ⟨visits, .scanned hl hs trace⟩

/-- An operation is built exactly for methods that are not hidden. -/
theorem build_hidden {m : Method} {p q : Progress} {built : Option Operation}
    (h : build w m p = .ok built q) :
    m.operation.hidden = built.isNone := by
  unfold build at h
  split at h
  · rename_i hidden
    cases h
    exact hidden
  · rename_i shown
    obtain ⟨_, _, _, h⟩ := bind_ok.1 h
    obtain ⟨_, _, _, h⟩ := bind_ok.1 h
    obtain ⟨_, _, _, h⟩ := bind_ok.1 h
    obtain ⟨_, _, _, h⟩ := bind_ok.1 h
    obtain ⟨rfl, _⟩ := pure_ok.1 h
    exact Bool.eq_false_iff.2 shown

/-- Nothing is done for a hidden method. -/
theorem build_of_hidden {m : Method} (h : m.operation.hidden = true) (p : Progress) :
    build w m p = .ok none p := by
  unfold build
  rw [if_pos h]
  rfl

theorem isRouted_of_build {m : Method} {p q : Progress} {built : Option Operation}
    {info : OperationInfo} (h : build w m p = .ok built q) (hi : m.decl.operation = some info) :
    m.isRouted = built.isSome := by
  have hidden := build_hidden h
  rw [Method.operation, hi, Option.getD_some] at hidden
  rw [Method.isRouted, hi, Option.any_some, hidden, Option.not_isNone]

/-- No method of a scanned service is missing that has a template and is not hidden, and the service
that it leads to is scanned below it. -/
theorem visited_of_scans {s : Service} {d : Descent} {above : List Entry} {ms : List Method}
    {p q : Progress} {visits : List Visit} (h : Scans w s d above ms p visits q) {m : Method}
    (hm : m ∈ ms) {template : Path.Template} (ht : s.template? d.path m = some template)
    (hr : m.isRouted = true) :
    ∃ e r r', ⟨e, above⟩ ∈ visits ∧ e.method = m ∧ e.template = template ∧
      build w m r = .ok (some e.built) r' ∧
      ∀ t, m.subResource = some t → ∃ sub nested r₁ r₂, w.loadService t = .ok sub ∧
        Scans w sub (e.below.within sub) (e :: above) sub.methods r₁ nested r₂ ∧
        nested ⊆ visits := by
  induction h with
  | nil => cases hm
  | unexposed hpath hn rest ih =>
    rcases List.mem_cons.1 hm with rfl | hm
    · rcases hn with hn | hn
      · rw [hn] at ht
        cases ht
      · rw [Method.isRouted, hn] at hr
        cases hr
    · exact ih hm ht
  | hidden ht' hi' hb rest ih =>
    rcases List.mem_cons.1 hm with rfl | hm
    · rw [isRouted_of_build hb hi'] at hr
      cases hr
    · exact ih hm ht
  | @operation e above ms p q r r' visits ht' hi' hb hs hst rest ih =>
    rcases List.mem_cons.1 hm with rfl | hm
    · refine ⟨e, p, r, List.mem_cons_self, rfl, Option.some.inj (ht'.symm.trans ht), hb, ?_⟩
      intro t hs'
      rw [hs] at hs'
      cases hs'
    · obtain ⟨e', r₁, r₂, hv, hm, he, hb', below⟩ := ih hm ht
      refine ⟨e', r₁, r₂, List.mem_cons_of_mem _ hv, hm, he, hb', fun t hs' => ?_⟩
      obtain ⟨sub, nested, r₁, r₂, hl, inner, hsub⟩ := below t hs'
      exact ⟨sub, nested, r₁, r₂, hl, inner, fun v hv => List.mem_cons_of_mem _ (hsub hv)⟩
  | @locator e above ms p q r r₁ r₂ r₃ nested visits t sub ht' hi' hb hs hl hnew inner hst rest
      ihInner ihRest =>
    rcases List.mem_cons.1 hm with rfl | hm
    · refine ⟨e, p, r, List.mem_append_right _ List.mem_cons_self, rfl,
        Option.some.inj (ht'.symm.trans ht), hb, fun t' hs' => ?_⟩
      obtain rfl := Option.some.inj (hs.symm.trans hs')
      exact ⟨sub, nested, _, r₂, (load_ok hl).1, inner, fun v hv => List.mem_append_left _ hv⟩
    · obtain ⟨e', r₁, r₂, hv, hm, he, hb', below⟩ := ihRest hm ht
      have hlater : ∀ v ∈ visits, v ∈ nested ++ ⟨e, above⟩ :: visits := fun v hv =>
        List.mem_append_right _ (List.mem_cons_of_mem _ hv)
      refine ⟨e', r₁, r₂, hlater _ hv, hm, he, hb', fun t' hs' => ?_⟩
      obtain ⟨sub', nested', r₁, r₂, hl', inner', hsub⟩ := below t' hs'
      exact ⟨sub', nested', r₁, r₂, hl', inner', fun v hv => hlater v (hsub hv)⟩

end Run

end ApiCompiler
