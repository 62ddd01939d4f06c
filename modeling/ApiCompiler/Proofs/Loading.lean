import ApiCompiler.Compilation.Scan
import ApiCompiler.Proofs.Steps

/-!
# Loaded services

What a service that has been loaded is known to be: a declared class of the world, called by its
qualified name, whose methods lead to the services that their return types are.
-/

set_option autoImplicit false

namespace ApiCompiler

/-- Sameness with a declared class is equality. -/
theorem TypeExpr.same_declared {i : Nat} {t : TypeExpr} :
    (TypeExpr.declared i).same t = true ↔ t = .declared i := by
  cases t with
  | declared j =>
    simp only [TypeExpr.same, beq_iff_eq, TypeExpr.declared.injEq]
    exact eq_comm
  | _ => simp [TypeExpr.same]

theorem TypeExpr.same_declared_right {i : Nat} {t : TypeExpr} :
    t.same (.declared i) = true ↔ t = .declared i := by
  cases t <;> simp [TypeExpr.same]

namespace World

variable {w : World} {t : TypeExpr} {s : Service}

theorem lt_of_class? {i : Nat} {c : ClassDecl} (h : w.class? i = some c) : i < w.decls.length := by
  unfold class? at h
  split at h
  · rename_i hi
    exact (List.getElem?_eq_some_iff.1 hi).1
  · cases h

theorem serviceInfo_declared {info : ServiceInfo} (h : w.serviceInfo? t = some info) :
    ∃ i, t = .declared i ∧ i < w.decls.length := by
  unfold serviceInfo? at h
  split at h
  · rename_i i
    obtain ⟨c, hc, _⟩ := Option.bind_eq_some_iff.1 h
    exact ⟨i, rfl, lt_of_class? hc⟩
  · cases h

/-- What a service is loaded from. -/
theorem loadService_ok (h : w.loadService t = .ok s) :
    s.type = t ∧ w.serviceInfo? t = some s.info ∧ w.qualifiedName t = .ok s.name ∧
      w.loadMethods t (w.routedMethods t) = .ok s.methods := by
  unfold loadService at h
  split at h
  · cases h
  · rename_i info hinfo
    obtain ⟨methods, hm, h⟩ := except_bind_ok.1 h
    obtain ⟨name, hn, h⟩ := except_bind_ok.1 h
    cases h
    exact ⟨rfl, hinfo, hn, hm⟩

theorem loadService_declared (h : w.loadService t = .ok s) :
    ∃ i, s.type = .declared i ∧ i < w.decls.length := by
  obtain ⟨rfl, hinfo, _⟩ := loadService_ok h
  exact serviceInfo_declared hinfo

theorem loadService_type (h : w.loadService t = .ok s) : w.loadService s.type = .ok s := by
  rw [(loadService_ok h).1]
  exact h

/-- A service stands in a cycle under its own name. -/
theorem cycleName_of_loadService (h : w.loadService t = .ok s) : w.cycleName t = s.name := by
  unfold cycleName
  rw [(loadService_ok h).2.2.1]

theorem loadMethod_subResource {owner : String} {decl : MethodDecl} {m : Method}
    (h : w.loadMethod t owner decl = .ok m) :
    m.subResource =
      if w.isService (unwrapAsync m.returnType) then some (unwrapAsync m.returnType) else none := by
  obtain ⟨arguments, _, h⟩ := except_bind_ok.1 h
  obtain ⟨⟨element, body⟩, _, h⟩ := except_bind_ok.1 h
  obtain ⟨type, _, h⟩ := except_bind_ok.1 h
  obtain ⟨name, _, h⟩ := except_bind_ok.1 h
  cases h
  rfl

theorem mem_loadMethods {decls : List (String × MethodDecl)} {ms : List Method} {m : Method}
    (h : w.loadMethods t decls = .ok ms) (hm : m ∈ ms) :
    ∃ e ∈ decls, w.loadMethod t e.1 e.2 = .ok m := by
  induction decls generalizing ms with
  | nil => cases h; cases hm
  | cons e decls ih =>
    obtain ⟨n, hn, h⟩ := except_bind_ok.1 h
    obtain ⟨rest, hr, h⟩ := except_bind_ok.1 h
    cases h
    rcases List.mem_cons.1 hm with rfl | hm
    · exact ⟨e, List.mem_cons_self, hn⟩
    · obtain ⟨e', he, hm⟩ := ih hr hm
      exact ⟨e', List.mem_cons_of_mem _ he, hm⟩

/-- A method of a loaded service leads to the service that its return type is, behind an async
wrapper or not. -/
theorem subResource_of_loadService (h : w.loadService t = .ok s) {m : Method} (hm : m ∈ s.methods)
    {u : TypeExpr} :
    m.subResource = some u ↔ unwrapAsync m.returnType = u ∧ w.isService u := by
  obtain ⟨e, _, he⟩ := mem_loadMethods (loadService_ok h).2.2.2 hm
  rw [loadMethod_subResource he]
  split
  · rename_i hs
    constructor
    · rintro ⟨⟩; exact ⟨rfl, hs⟩
    · rintro ⟨rfl, _⟩; rfl
  · rename_i hs
    constructor
    · rintro ⟨⟩
    · rintro ⟨rfl, h⟩; exact absurd h hs

theorem requestBodyOf_arguments {b : RequestBody} (h : w.requestBodyOf t = .ok b) :
    ∀ a rest, b.arguments = a :: rest → a.param.isSome = true := by
  obtain ⟨name, _, h⟩ := except_bind_ok.1 h
  obtain ⟨reference, _, h⟩ := except_bind_ok.1 h
  obtain ⟨arguments, ha, h⟩ := except_bind_ok.1 h
  cases h
  rintro a rest rfl
  unfold creatorArguments at ha
  extract_lets matched at ha
  split at ha
  · cases ha
  subst matched
  simp only at ha
  split at ha
  · obtain ⟨_, _, ha⟩ := except_bind_ok.1 ha
    cases ha
  · obtain ⟨args, _, ha⟩ := except_bind_ok.1 ha
    split at ha
    · obtain ⟨_, _, ha⟩ := except_bind_ok.1 ha
      cases ha
    · rename_i first
      cases ha
      cases hp : a.param with
      | none =>
        obtain ⟨name, annotation, param, body, handle⟩ := a
        cases hp
        exact (first _ _ _ _ _ rfl).elim
      | some info => rfl
  · obtain ⟨_, _, ha⟩ := except_bind_ok.1 ha
    cases ha

/-- A method that takes its request from a creator takes it from no token, and the first argument of
the creator has metadata. -/
theorem requestBody_of_loadService (h : w.loadService t = .ok s) {m : Method} (hm : m ∈ s.methods)
    {b : RequestBody} (hb : m.requestBody = some b) :
    m.requestElement = none ∧ ∀ a rest, b.arguments = a :: rest → a.param.isSome = true := by
  obtain ⟨e, _, he⟩ := mem_loadMethods (loadService_ok h).2.2.2 hm
  obtain ⟨arguments, _, he⟩ := except_bind_ok.1 he
  obtain ⟨⟨element, body⟩, hr, he⟩ := except_bind_ok.1 he
  obtain ⟨type, _, he⟩ := except_bind_ok.1 he
  obtain ⟨name, _, he⟩ := except_bind_ok.1 he
  cases he
  obtain rfl : body = some b := hb
  have made {u : TypeExpr} (hu : (w.requestBodyOf u).map (fun b => (none, some b)) =
      .ok (element, some b)) : element = none ∧ w.requestBodyOf u = .ok b := by
    cases hb : w.requestBodyOf u with
    | error e => rw [hb] at hu; cases hu
    | ok b' => rw [hb] at hu; cases hu; exact ⟨rfl, rfl⟩
  have fromBody (hr : requestOf.fromBody w arguments = .ok (element, some b)) :
      ∃ u, element = none ∧ w.requestBodyOf u = .ok b := by
    unfold requestOf.fromBody at hr
    split at hr
    · split at hr
      · exact ⟨_, made hr⟩
      · cases hr
    · cases hr
  suffices h : ∃ u, element = none ∧ w.requestBodyOf u = .ok b by
    obtain ⟨u, he, hu⟩ := h
    exact ⟨he, requestBodyOf_arguments hu⟩
  unfold requestOf at hr
  split at hr
  · split at hr
    · exact fromBody hr
    · split at hr
      · cases hr
      · exact ⟨_, made hr⟩
  · exact fromBody hr

end World

end ApiCompiler
