import Mathlib.Data.List.Chain
import Mathlib.Logic.Relation
import ApiCompiler.Proofs.Loading
import ApiCompiler.Proofs.Traces

/-!
# Services that lead to services

An exposed method whose return type is a service makes an edge from its service to that one. A read
that succeeds has followed every edge below its service, so that none of them closes a cycle. The
trail of a scan is a path of such edges without repetition; where it meets itself there is a cycle.
-/

set_option autoImplicit false

namespace ApiCompiler

/-- The method is shown, and it or its service has a path. -/
def Service.Exposes (s : Service) (m : Method) : Prop :=
  m.isRouted = true ∧ (s.path.isSome = true ∨ m.decl.path.isSome = true)

theorem Service.template?_isSome {s : Service} {m : Method} {path : Option String}
    (h : m.decl.pathText = .ok path) (front : String) :
    (s.template? front m).isSome = (s.path.isSome || m.decl.path.isSome) := by
  have hpath : m.decl.path.isSome = path.isSome := by
    unfold MethodDecl.pathText at h
    split at h
    · rename_i hnone
      cases h
      rw [hnone]
      rfl
    · rename_i hsome
      cases h
      rw [hsome]
      rfl
    · cases h
  unfold template?
  simp only [h]
  rw [Option.isSome_map, Path.join, Option.isSome_map, hpath]
  unfold Path.joinChars
  cases s.path <;> cases path <;> rfl

/-- Whether a method is exposed shows in its template, wherever its service is scanned. -/
theorem Service.exposes_iff {s : Service} {m : Method} {path : Option String}
    (h : m.decl.pathText = .ok path) (front : String) :
    s.Exposes m ↔ m.isRouted = true ∧ (s.template? front m).isSome = true := by
  rw [template?_isSome h, Bool.or_eq_true]
  rfl

namespace World

variable {w : World} {root t u : TypeExpr}

/-- A service has an exposed method that leads to a service. -/
def Edge (w : World) (t u : TypeExpr) : Prop :=
  ∃ s, w.loadService t = .ok s ∧
    ∃ m ∈ s.methods, s.Exposes m ∧ unwrapAsync m.returnType = u ∧ w.isService u = true

/-- Exposed methods lead from a service to another one, in any number of steps. -/
def Reaches (w : World) : TypeExpr → TypeExpr → Prop := Relation.ReflTransGen w.Edge

/-- Every way along exposed methods ends. -/
def Ends (w : World) (t : TypeExpr) : Prop := Acc (fun u t => w.Edge t u) t

theorem edge_of_subResource {s : Service} (hs : w.loadService t = .ok s) {m : Method}
    (hm : m ∈ s.methods) (he : s.Exposes m) (hu : m.subResource = some u) : w.Edge t u :=
  ⟨s, hs, m, hm, he, (subResource_of_loadService hs hm).1 hu⟩

/-- Where every way ends, no cycle can be reached. -/
theorem Ends.not_cycle (h : w.Ends t) (hr : w.Reaches t u) : ¬ Relation.TransGen w.Edge u u := by
  have hu : w.Ends u := by
    induction hr with
    | refl => exact h
    | tail _ e ih => exact ih.inv e
  clear h hr
  induction hu with
  | intro u _ ih =>
    intro cycle
    obtain ⟨v, e, back⟩ := Relation.TransGen.head'_iff.1 cycle
    exact ih v e (Relation.TransGen.tail' back e)

/-- A way of exposed edges from the root to a service, over different services. -/
structure OnWay (w : World) (root : TypeExpr) (trail : List TypeExpr) (t : TypeExpr) : Prop where
  chain : List.IsChain w.Edge (trail ++ [t])
  nodup : trail.Nodup
  reached : ∀ u ∈ trail ++ [t], w.Reaches root u

namespace OnWay

variable {trail : List TypeExpr}

theorem start (w : World) (root : TypeExpr) : w.OnWay root [] root where
  chain := List.isChain_singleton root
  nodup := List.nodup_nil
  reached _ hu := List.mem_singleton.1 hu ▸ Relation.ReflTransGen.refl

theorem step (h : w.OnWay root trail t) (hn : t ∉ trail) (e : w.Edge t u) :
    w.OnWay root (trail ++ [t]) u where
  chain := by
    refine List.isChain_append.2 ⟨h.chain, List.isChain_singleton u, fun x hx y hy => ?_⟩
    rw [List.getLast?_concat, Option.mem_some_iff] at hx
    rw [List.head?_cons, Option.mem_some_iff] at hy
    rw [← hx, ← hy]
    exact e
  nodup := by
    rw [List.nodup_append]
    refine ⟨h.nodup, List.pairwise_singleton _ t, fun x hx y hy hxy => hn ?_⟩
    rw [← List.mem_singleton.1 hy, ← hxy]
    exact hx
  reached v hv := by
    rcases List.mem_append.1 hv with hv | hv
    · exact h.reached v hv
    · rw [List.mem_singleton.1 hv]
      exact (h.reached t (List.mem_append_right _ (List.mem_singleton_self t))).tail e

end OnWay

/-- The names of a cycle of exposed edges over different services that the root leads to, the first
one again at the end. -/
def IsCycle (w : World) (root : TypeExpr) (chain : List String) : Prop :=
  ∃ u us, chain = (u :: us ++ [u]).map w.cycleName ∧ List.IsChain w.Edge (u :: us ++ [u]) ∧
    (u :: us).Nodup ∧ w.Reaches root u

theorem transGen_of_isChain {us : List TypeExpr} :
    ∀ {t}, List.IsChain w.Edge (t :: us ++ [u]) → Relation.TransGen w.Edge t u := by
  induction us with
  | nil => intro t h; exact .single (List.isChain_pair.1 h)
  | cons v us ih =>
    intro t h
    obtain ⟨e, h⟩ := List.isChain_cons_cons.1 h
    exact .head e (ih h)

theorem IsCycle.exists_cycle {chain : List String} (h : w.IsCycle root chain) :
    ∃ u, w.Reaches root u ∧ Relation.TransGen w.Edge u u := by
  obtain ⟨u, us, _, chain, _, reached⟩ := h
  exact ⟨u, reached, transGen_of_isChain chain⟩

end World

namespace Run

variable {w : World} {p q : Progress} {s : Service}

theorem any_same_iff {i : Nat} (hs : s.type = .declared i) {trail : List TypeExpr} :
    trail.any (TypeExpr.same s.type) = true ↔ s.type ∈ trail := by
  rw [List.any_eq_true, hs]
  constructor
  · rintro ⟨u, hu, h⟩
    rwa [TypeExpr.same_declared.1 h] at hu
  · exact fun h => ⟨_, h, TypeExpr.same_declared.2 rfl⟩

/-- The trail from a service on it. -/
theorem trailFrom_of_mem {i : Nat} {trail : List TypeExpr} (h : TypeExpr.declared i ∈ trail) :
    ∃ before us, trail = before ++ .declared i :: us ∧
      trailFrom (.declared i) trail = .declared i :: us := by
  unfold trailFrom
  induction trail with
  | nil => cases h
  | cons u trail ih =>
    by_cases hu : u = .declared i
    · subst hu
      have same : (TypeExpr.declared i).same (.declared i) = true := TypeExpr.same_declared.2 rfl
      exact ⟨[], trail, rfl, by rw [List.dropWhile_cons, same]; rfl⟩
    · obtain ⟨before, us, rfl, hd⟩ := ih ((List.mem_cons.1 h).resolve_left fun h => hu h.symm)
      have other : u.same (.declared i) = false :=
        Bool.eq_false_iff.2 fun h => hu (TypeExpr.same_declared_right.1 h)
      exact ⟨u :: before, us, rfl, by rw [List.dropWhile_cons, other]; exact hd⟩

/-- A trail that comes back to one of its services has a cycle at its end. -/
theorem isCycle_chain {root : TypeExpr} (hs : w.loadService s.type = .ok s)
    (h : w.OnWay root p.trail s.type) (hm : p.trail.any (TypeExpr.same s.type) = true) :
    w.IsCycle root (p.chain w s) := by
  obtain ⟨i, hi, _⟩ := World.loadService_declared hs
  have mem := (any_same_iff hi).1 hm
  rw [hi] at mem
  obtain ⟨before, us, htrail, hfrom⟩ := trailFrom_of_mem mem
  refine ⟨s.type, us, ?_, ?_, ?_, ?_⟩
  · rw [Progress.chain, hi, hfrom, List.map_append, List.map_singleton, ← hi,
      World.cycleName_of_loadService hs]
  · have chain := h.chain
    rw [htrail, ← hi, List.append_assoc] at chain
    exact (List.isChain_append.1 chain).2.1
  · have nodup := h.nodup
    rw [htrail, ← hi] at nodup
    exact (List.nodup_append.1 nodup).2.1
  · exact h.reached _ (List.mem_append_right _ (List.mem_singleton_self _))

/-- A scan has followed every edge to its end. -/
theorem ends_of_scans {s : Service} {d : Descent} {above : List Entry} {ms : List Method}
    {visits : List Visit} (h : Scans w s d above ms p visits q) :
    ∀ m ∈ ms, s.Exposes m → ∀ u, m.subResource = some u → w.Ends u := by
  induction h with
  | nil => exact fun m hm => absurd hm List.not_mem_nil
  | @unexposed s d above m ms p q visits path hpath hn rest ih =>
    intro m' hm he u hu
    rcases List.mem_cons.1 hm with rfl | hm
    · obtain ⟨routed, found⟩ := (Service.exposes_iff hpath d.path).1 he
      rcases hn with hn | hn
      · rw [hn] at found
        cases found
      · rw [Method.isRouted, hn] at routed
        cases routed
    · exact ih m' hm he u hu
  | @hidden s d above m ms p q r visits template info ht hi hb rest ih =>
    intro m' hm he u hu
    rcases List.mem_cons.1 hm with rfl | hm
    · have routed := he.1
      rw [isRouted_of_build hb hi] at routed
      cases routed
    · exact ih m' hm he u hu
  | @operation e above ms p q r r' visits ht hi hb hs hst rest ih =>
    intro m' hm he u hu
    rcases List.mem_cons.1 hm with rfl | hm
    · rw [hs] at hu
      cases hu
    · exact ih m' hm he u hu
  | @locator e above ms p q r r₁ r₂ r₃ nested visits t sub ht hi hb hs hl hnew inner hst rest
      ihInner ihRest =>
    intro m' hm he u hu
    rcases List.mem_cons.1 hm with rfl | hm
    · obtain rfl := Option.some.inj (hs.symm.trans hu)
      refine Acc.intro _ fun v hv => ?_
      obtain ⟨sub', hl', m, hm, he, leads⟩ := hv
      obtain rfl := Except.ok.inj ((load_ok hl).1.symm.trans hl')
      exact ihInner m hm he v ((World.subResource_of_loadService hl' hm).2 leads)
    · exact ihRest m' hm he u hu

/-- No way below a service that is read without an error leads back to where it has been. -/
theorem ends_of_read {t : TypeExpr} {includeHidden : Bool} {u : Unit} (hl : w.loadService t = .ok s)
    (hs : Descent.skips { includeHidden } s = false) (h : read w t includeHidden p = .ok u q) :
    w.Ends t := by
  obtain ⟨visits, reads⟩ := reads_of_ok h
  cases reads with
  | skipped hl' hskips =>
    obtain rfl := Except.ok.inj (hl.symm.trans (load_ok hl').1)
    rw [hs] at hskips
    cases hskips
  | scanned hl' _ trace =>
    obtain rfl := Except.ok.inj (hl.symm.trans (load_ok hl').1)
    refine Acc.intro _ fun v hv => ?_
    obtain ⟨s', hl', m, hm, he, leads⟩ := hv
    obtain rfl := Except.ok.inj (hl.symm.trans hl')
    exact ends_of_scans trace m hm he v ((World.subResource_of_loadService hl hm).2 leads)

end Run

end ApiCompiler
