import ApiCompiler.Compilation.Scan
import ApiCompiler.Proofs.Operations

/-!
# Steps of a scan

What scanning a service, a method and a target comes to, case by case. Later statements about scans
use these equations and do not open the definitions again.
-/

set_option autoImplicit false

namespace ApiCompiler

/-- A hidden service is left out unless hidden ones are taken. -/
def Descent.skips (d : Descent) (s : Service) : Bool := s.info.hidden && !d.includeHidden

/-- The template of a method below a path, if the service or the method has a path. -/
def Service.template? (s : Service) (front : String) (m : Method) : Option Path.Template :=
  match m.decl.pathText with
  | .ok path => (Path.join s.path path front).map Path.normalize
  | .error _ => none

/-- The method has metadata that does not hide it. -/
def Method.isRouted (m : Method) : Bool := m.decl.operation.any fun info => !info.hidden

namespace Progress

/-- The state on the way into a service. -/
def enter (p : Progress) (t : TypeExpr) : Progress := { p with trail := p.trail ++ [t] }

/-- The state on the way out of a service. -/
def leave (p : Progress) : Progress := { p with trail := p.trail.dropLast }

/-- The services from the first occurrence of a service on, by name, with its name at the end. -/
def chain (w : World) (p : Progress) (s : Service) : List String :=
  (Run.trailFrom s.type p.trail).map w.cycleName ++ [s.name]

end Progress

namespace Run

variable {w : World} {below : Service → Descent → Run Unit} {s : Service} {d : Descent}
  {m : Method} {p q : Progress}

theorem load_ok {t : TypeExpr} (h : load w t p = .ok s q) :
    w.loadService t = .ok s ∧
      q = { p with notices := .serviceLoaded s.name s.methods.length :: p.notices } := by
  obtain ⟨s', r, hs, h⟩ := bind_ok.1 h
  obtain ⟨hl, rfl⟩ := ofExcept_ok.1 hs
  rw [bind_of_ok (report_apply _ p)] at h
  obtain ⟨rfl, rfl⟩ := pure_ok.1 h
  exact ⟨hl, rfl⟩

theorem load_of_ok {t : TypeExpr} (h : w.loadService t = .ok s) (p : Progress) :
    load w t p =
      .ok s { p with notices := .serviceLoaded s.name s.methods.length :: p.notices } := by
  unfold load
  rw [bind_of_ok (ofExcept_ok.2 ⟨h, rfl⟩), bind_of_ok (report_apply _ p), pure_apply]

theorem scanService_of_skips (h : d.skips s = true) :
    scanService w below s d p =
      .ok () { p with notices := .hiddenSkipped s.name :: p.notices } := by
  have hs : (s.info.hidden && !d.includeHidden) = true := h
  unfold scanService
  rw [if_pos hs, report_apply]

/-- A service that is on the trail already is a cycle. -/
theorem scanService_of_met (h : d.skips s = false) (hm : p.trail.any (TypeExpr.same s.type)) :
    scanService w below s d p = .error (.cyclic (p.chain w s)) p := by
  have hs : ¬ (s.info.hidden && !d.includeHidden) = true := Bool.eq_false_iff.1 h
  unfold scanService
  rw [if_neg hs, bind_of_ok (get_apply p), if_pos hm, throw_apply]
  rfl

/-- A service that is not yet on the trail stands on it while its methods are scanned. -/
theorem scanService_of_new (h : d.skips s = false)
    (hm : p.trail.any (TypeExpr.same s.type) = false) :
    scanService w below s d p =
      guarded Progress.leave (scanMethods (scanMethod w below s (d.within s)) s.methods)
        (p.enter s.type) := by
  have hs : ¬ (s.info.hidden && !d.includeHidden) = true := Bool.eq_false_iff.1 h
  unfold scanService
  rw [if_neg hs, bind_of_ok (get_apply p),
    if_neg (Bool.eq_false_iff.1 hm), bind_of_ok (modify_apply _ p)]
  rfl

/-- A method has a faulty path, or is exposed, or has no path or no metadata. -/
theorem scanMethod_cases (s : Service) (d : Descent) (m : Method) :
    (∃ e, m.decl.pathText = .error e) ∨
      (∃ template info, s.template? d.path m = some template ∧ m.decl.operation = some info) ∨
      ∃ path, m.decl.pathText = .ok path ∧
        (s.template? d.path m = none ∨ m.decl.operation = none) := by
  cases hpath : m.decl.pathText with
  | error e => exact .inl ⟨e, rfl⟩
  | ok path =>
    cases ht : s.template? d.path m with
    | none => exact .inr (.inr ⟨path, rfl, .inl rfl⟩)
    | some template =>
      cases m.decl.operation with
      | none => exact .inr (.inr ⟨path, rfl, .inr rfl⟩)
      | some info => exact .inr (.inl ⟨template, info, rfl, rfl⟩)

theorem scanMethod_of_fault {e : Failure} (h : m.decl.pathText = .error e) :
    scanMethod w below s d m p = .error e p := by
  unfold scanMethod
  exact bind_of_error (ofExcept_error.2 ⟨h, rfl⟩)

theorem scanMethod_of_exposed {template : Path.Template} {info : OperationInfo}
    (ht : s.template? d.path m = some template) (hi : m.decl.operation = some info) :
    scanMethod w below s d m p = scanRoute w below s d m template info p := by
  unfold Service.template? at ht
  cases hpath : m.decl.pathText with
  | error e => simp [hpath] at ht
  | ok path =>
    simp only [hpath] at ht
    obtain ⟨raw, hj, rfl⟩ := Option.map_eq_some_iff.1 ht
    unfold scanMethod
    rw [bind_of_ok (ofExcept_ok.2 ⟨hpath, rfl⟩), hj, hi]

theorem scanMethod_of_unexposed {path : Option String} (h : m.decl.pathText = .ok path)
    (hn : s.template? d.path m = none ∨ m.decl.operation = none) :
    scanMethod w below s d m p =
      .ok () { p with notices := .notExposed s.name m.name :: p.notices } := by
  have hn : Path.join s.path path d.path = none ∨ m.decl.operation = none :=
    hn.imp_left fun hn => by simpa [Service.template?, h] using hn
  unfold scanMethod
  rw [bind_of_ok (ofExcept_ok.2 ⟨h, rfl⟩)]
  rcases hn with hn | hn
  · rw [hn]; rfl
  · rw [hn]
    cases Path.join s.path path d.path <;> rfl

theorem scanRoute_of_hidden {template : Path.Template} {info : OperationInfo}
    (h : build w m p = .ok none q) :
    scanRoute w below s d m template info p = .ok () q := by
  unfold scanRoute
  rw [bind_of_ok h]
  rfl

/-- The service that a method leads to is scanned before the operation of the method is stored. -/
theorem scanRoute_of_built {template : Path.Template} {info : OperationInfo} {op : Operation}
    (h : build w m p = .ok (some op) q) :
    scanRoute w below s d m template info p =
      (scanTarget w below m (d.below template (placed op template info d)) >>= fun _ =>
        store template.text m.verb (info.tags ++ d.tags)
          (completed (placed op template info d) info d.tags s.info.authorizationNames)) q := by
  unfold scanRoute
  rw [bind_of_ok h]

theorem scanTarget_of_none (h : m.subResource = none) :
    scanTarget w below m d p = .ok () p := by
  unfold scanTarget
  rw [h]
  rfl

theorem scanTarget_of_some {t : TypeExpr} (h : m.subResource = some t) :
    scanTarget w below m d p = (load w t >>= fun sub => below sub d) p := by
  unfold scanTarget
  rw [h]

end Run

end ApiCompiler
