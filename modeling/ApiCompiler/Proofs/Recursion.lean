import Mathlib.Data.List.Basic
import ApiCompiler.Proofs.Frames
import ApiCompiler.Proofs.Loading
import ApiCompiler.Proofs.Scanning

/-!
# The recursion of a scan

Every scan leaves the trail as it found it, also when it fails. A service is only entered when it is
not on the trail, and the services on the trail are declared classes of the world, so that the
number of those left decreases; the bound of a scan is never reached, and a scan satisfies the
equation of the recursion without a bound. What that recursion finds is not said here.
-/

set_option autoImplicit false

namespace ApiCompiler.Run

/-- The trail is the same. -/
def SameTrail (p q : Progress) : Prop := q.trail = p.trail

theorem sameTrail_building : AllowsBuilding SameTrail :=
  allowsBuilding_of_eq Progress.trail (fun _ _ => rfl) (fun _ _ => rfl) fun _ _ => rfl

section Trail

variable {w : World} {below : Service → Descent → Run Unit}
  (hb : ∀ s d, Keeps SameTrail (below s d))

theorem load_keepsTrail (w : World) (t : TypeExpr) : Keeps SameTrail (load w t) :=
  sameTrail_building.bind (sameTrail_building.ofExcept _) fun _ =>
    sameTrail_building.bind (sameTrail_building.report _ rfl) fun _ => sameTrail_building.pure _

theorem store_keepsTrail (path verb : String) (tags : List String) (op : Operation) :
    Keeps SameTrail (store path verb tags op) := by
  intro p
  obtain ⟨q, h, _, ht, _⟩ := store_ok path verb tags op p
  rw [after_of_ok h]
  exact ht

include hb

theorem scanTarget_keepsTrail (m : Method) (d : Descent) :
    Keeps SameTrail (scanTarget w below m d) := by
  unfold scanTarget
  cases m.subResource with
  | none => exact sameTrail_building.pure _
  | some t => exact sameTrail_building.bind (load_keepsTrail w t) fun sub => hb sub d

theorem scanMethod_keepsTrail (s : Service) (d : Descent) (m : Method) :
    Keeps SameTrail (scanMethod w below s d m) := by
  refine sameTrail_building.bind (sameTrail_building.ofExcept _) fun path => ?_
  split
  · refine sameTrail_building.bind (build_keeps sameTrail_building w m) fun built => ?_
    cases built with
    | none => exact sameTrail_building.pure _
    | some op =>
      exact sameTrail_building.bind (scanTarget_keepsTrail hb m _) fun _ =>
        store_keepsTrail _ _ _ _
  · exact sameTrail_building.report _ rfl

omit hb in
theorem scanMethods_keepsTrail {f : Method → Run Unit} (hf : ∀ m, Keeps SameTrail (f m))
    (ms : List Method) : Keeps SameTrail (scanMethods f ms) := by
  induction ms with
  | nil => exact sameTrail_building.pure _
  | cons m ms ih => exact sameTrail_building.bind (hf m) fun _ => ih

/-- What is put on the trail when a service is entered is taken off again. -/
theorem scanService_keepsTrail (s : Service) (d : Descent) :
    Keeps SameTrail (scanService w below s d) := by
  intro p
  cases hs : d.skips s with
  | true => rw [after_of_ok (scanService_of_skips hs)]; rfl
  | false =>
    cases hm : p.trail.any (TypeExpr.same s.type) with
    | true => rw [after_of_error (scanService_of_met hs hm)]; rfl
    | false =>
      have hmethods := scanMethods_keepsTrail (scanMethod_keepsTrail (w := w) hb s (d.within s))
        s.methods (p.enter s.type)
      have hafter : after (scanService w below s d) p =
          after (guarded Progress.leave (scanMethods (scanMethod w below s (d.within s)) s.methods))
            (p.enter s.type) := by
        unfold after
        rw [scanService_of_new hs hm]
      show (after (scanService w below s d) p).trail = p.trail
      rw [hafter, after_guarded]
      show (after _ _).trail.dropLast = p.trail
      rw [show (after _ _).trail = (p.enter s.type).trail from hmethods]
      exact List.dropLast_concat

end Trail

theorem scanWithin_keepsTrail (w : World) (bound : Nat) (s : Service) (d : Descent) :
    Keeps SameTrail (scanWithin w bound s d) := by
  induction bound generalizing s d with
  | zero => exact sameTrail_building.throw _
  | succ bound ih => exact scanService_keepsTrail ih s d

theorem scan_keepsTrail (w : World) (s : Service) (d : Descent) : Keeps SameTrail (scan w s d) :=
  scanWithin_keepsTrail w _ s d

/-- Reading a service leaves the trail as it was, whether it fails or not. -/
theorem read_keepsTrail (w : World) (t : TypeExpr) (includeHidden : Bool) :
    Keeps SameTrail (read w t includeHidden) :=
  sameTrail_building.bind (load_keepsTrail w t) fun s => scan_keepsTrail w s _

/-- The declared classes that are not on a trail. -/
def remaining (w : World) (trail : List TypeExpr) : Nat :=
  ((List.range w.decls.length).filter fun i => !trail.any (TypeExpr.same (.declared i))).length

theorem remaining_le (w : World) (trail : List TypeExpr) :
    remaining w trail ≤ w.decls.length := by
  have h := List.length_filter_le (fun i => !trail.any (TypeExpr.same (.declared i)))
    (List.range w.decls.length)
  rwa [List.length_range] at h

/-- Entering a declared class that is not on the trail leaves fewer of them. -/
theorem remaining_enter {w : World} {trail : List TypeExpr} {i : Nat} (hi : i < w.decls.length)
    (hn : trail.any (TypeExpr.same (.declared i)) = false) :
    remaining w (trail ++ [.declared i]) < remaining w trail := by
  have sub : ((List.range w.decls.length).filter fun j =>
      !(trail ++ [TypeExpr.declared i]).any (TypeExpr.same (.declared j))).Sublist
      ((List.range w.decls.length).filter fun j => !trail.any (TypeExpr.same (.declared j))) := by
    refine List.monotone_filter_right _ fun j hj => ?_
    rw [List.any_append, Bool.not_or, Bool.and_eq_true] at hj
    exact hj.1
  refine Nat.lt_of_le_of_ne sub.length_le fun h => ?_
  have mem : i ∈ (List.range w.decls.length).filter fun j =>
      !trail.any (TypeExpr.same (.declared j)) :=
    List.mem_filter.2 ⟨List.mem_range.2 hi, by rw [hn]; rfl⟩
  rw [← sub.eq_of_length h] at mem
  have same : (TypeExpr.declared i).same (.declared i) = true := TypeExpr.same_declared.2 rfl
  simp [same] at mem

/-- Two ways of scanning agree on loaded services where the trail is the given one. -/
def Agree (w : World) (trail : List TypeExpr) (f g : Service → Descent → Run Unit) : Prop :=
  ∀ ⦃s⦄, w.loadService s.type = .ok s → ∀ d p, p.trail = trail → f s d p = g s d p

section Agreement

variable {w : World} {f g : Service → Descent → Run Unit}

theorem scanTarget_congr {p : Progress} (h : Agree w p.trail f g) (m : Method) (d : Descent) :
    scanTarget w f m d p = scanTarget w g m d p := by
  cases ht : m.subResource with
  | none => rw [scanTarget_of_none ht, scanTarget_of_none ht]
  | some t =>
    rw [scanTarget_of_some ht, scanTarget_of_some ht]
    cases hl : load w t p with
    | error e q => rw [bind_of_error hl, bind_of_error hl]
    | ok sub q =>
      rw [bind_of_ok hl, bind_of_ok hl]
      exact h (World.loadService_type (load_ok hl).1) d q ((load_keepsTrail w t).of_ok hl)

theorem scanMethod_congr {p : Progress} (h : Agree w p.trail f g) (s : Service) (d : Descent)
    (m : Method) : scanMethod w f s d m p = scanMethod w g s d m p := by
  rcases scanMethod_cases s d m with ⟨e, he⟩ | ⟨template, info, ht, hi⟩ | ⟨path, hpath, hn⟩
  · rw [scanMethod_of_fault he, scanMethod_of_fault he]
  · rw [scanMethod_of_exposed ht hi, scanMethod_of_exposed ht hi]
    cases hb : build w m p with
    | error e q =>
      unfold scanRoute
      rw [bind_of_error hb, bind_of_error hb]
    | ok built q =>
      have hq : q.trail = p.trail := (build_keeps sameTrail_building w m).of_ok hb
      cases built with
      | none => rw [scanRoute_of_hidden hb, scanRoute_of_hidden hb]
      | some op =>
        rw [scanRoute_of_built hb, scanRoute_of_built hb]
        have htarget := scanTarget_congr (hq ▸ h) m
          (d.below template (placed op template info d))
        cases hf : scanTarget w f m (d.below template (placed op template info d)) q with
        | error e r => rw [bind_of_error hf, bind_of_error (htarget ▸ hf)]
        | ok u r => rw [bind_of_ok hf, bind_of_ok (htarget ▸ hf)]
  · rw [scanMethod_of_unexposed hpath hn, scanMethod_of_unexposed hpath hn]

theorem scanMethods_congr {f g : Method → Run Unit} (hf : ∀ m, Keeps SameTrail (f m))
    (ms : List Method) : ∀ {p : Progress},
      (∀ m q, q.trail = p.trail → f m q = g m q) → scanMethods f ms p = scanMethods g ms p := by
  induction ms with
  | nil => intro p _; rfl
  | cons m ms ih =>
    intro p h
    have hm := h m p rfl
    show (f m >>= fun _ => scanMethods f ms) p = (g m >>= fun _ => scanMethods g ms) p
    cases hr : f m p with
    | error e q => rw [bind_of_error hr, bind_of_error (hm ▸ hr)]
    | ok u q =>
      rw [bind_of_ok hr, bind_of_ok (hm ▸ hr)]
      exact ih fun m' r hr' => h m' r (hr'.trans ((hf m).of_ok hr))

/-- What a scan of a service does depends on the scans below it only where the service has been
entered. -/
theorem scanService_congr (hf : ∀ s d, Keeps SameTrail (f s d)) {s : Service} {d : Descent}
    {p : Progress}
    (h : p.trail.any (TypeExpr.same s.type) = false → Agree w (p.enter s.type).trail f g) :
    scanService w f s d p = scanService w g s d p := by
  cases hs : d.skips s with
  | true => rw [scanService_of_skips hs, scanService_of_skips hs]
  | false =>
    cases hm : p.trail.any (TypeExpr.same s.type) with
    | true => rw [scanService_of_met hs hm, scanService_of_met hs hm]
    | false =>
      rw [scanService_of_new hs hm, scanService_of_new hs hm]
      have methods := scanMethods_congr (scanMethod_keepsTrail (w := w) hf s (d.within s))
        s.methods (p := p.enter s.type) fun m q hq =>
          scanMethod_congr (hq ▸ h hm) s (d.within s) m
      unfold guarded
      rw [methods]

end Agreement

/-- Bounds above the number of services that are left make no difference. -/
theorem scanWithin_congr {w : World} {s : Service} (hs : w.loadService s.type = .ok s)
    (d : Descent) {p : Progress} {n m : Nat} (hn : remaining w p.trail < n)
    (hm : remaining w p.trail < m) : scanWithin w n s d p = scanWithin w m s d p := by
  induction n generalizing s d p m with
  | zero => cases hn
  | succ n ih =>
    cases m with
    | zero => cases hm
    | succ m =>
      refine scanService_congr (scanWithin_keepsTrail w n) fun hnew s' hs' d' q hq => ?_
      obtain ⟨i, hi, hlt⟩ := World.loadService_declared hs
      rw [hi] at hnew
      have less := remaining_enter hlt hnew
      have hq : q.trail = p.trail ++ [.declared i] := by rw [hq, ← hi]; rfl
      exact ih hs' d' (by rw [hq]; omega) (by rw [hq]; omega)

/-- A larger bound changes nothing: scans end for another reason. -/
theorem scanWithin_eq_scan {w : World} {s : Service} (hs : w.loadService s.type = .ok s)
    (d : Descent) (p : Progress) {n : Nat} (hn : w.decls.length < n) :
    scanWithin w n s d p = scan w s d p :=
  scanWithin_congr hs d (Nat.lt_of_le_of_lt (remaining_le w p.trail) hn)
    (Nat.lt_succ_of_le (remaining_le w p.trail))

/-- The equation of the recursion, with the scans below not bounded any more. -/
theorem scan_eq {w : World} {s : Service} (hs : w.loadService s.type = .ok s) (d : Descent)
    (p : Progress) : scan w s d p = scanService w (scan w) s d p := by
  rw [← scanWithin_eq_scan hs d p (Nat.lt_succ_of_lt (Nat.lt_succ_self w.decls.length))]
  rfl

end ApiCompiler.Run
