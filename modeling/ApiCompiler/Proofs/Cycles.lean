import ApiCompiler.Proofs.Reachability
import ApiCompiler.Proofs.Recursion

/-!
# Cycles of services

Cycles are detected exactly: as long as nothing else goes wrong on the way, reading a service ends,
and it ends with a cycle if and only if there is one of exposed edges below the service. What may go
wrong is looked at method by method, in the states in which a scan comes to them; nothing is said
about reads in which it does.
-/

set_option autoImplicit false

namespace ApiCompiler

/-- Scanning the methods of a service from a state comes to a method of a service in a state. -/
inductive Meets (w : World) : Service → Descent → List Method → Progress → Service → Method →
    Progress → Prop
  | here {s : Service} {d : Descent} {m : Method} {ms : List Method} {p : Progress} :
      Meets w s d (m :: ms) p s m p
  | inside {e : Entry} {ms : List Method} {p r r₁ : Progress} {t : TypeExpr} {sub : Service}
      {s' : Service} {m' : Method} {p' : Progress}
      (ht : e.service.template? e.descent.path e.method = some e.template)
      (hi : e.method.decl.operation = some e.info)
      (hb : Run.build w e.method p = .ok (some e.built) r) (hs : e.method.subResource = some t)
      (hl : Run.load w t r = .ok sub r₁) (hnew : r₁.trail.any (TypeExpr.same sub.type) = false)
      (inner : Meets w sub (e.below.within sub) sub.methods (r₁.enter sub.type) s' m' p') :
      Meets w e.service e.descent (e.method :: ms) p s' m' p'
  | later {s : Service} {d : Descent} {m : Method} {ms : List Method} {p r : Progress}
      {s' : Service} {m' : Method} {p' : Progress}
      (hm : Run.scanMethod w (Run.scan w) s d m p = .ok () r) (rest : Meets w s d ms r s' m' p') :
      Meets w s d (m :: ms) p s' m' p'

/-- Nothing goes wrong with a method in a state: its path is a text, and if it is exposed, its
operation can be built and the service that it leads to can be loaded. -/
structure Smooth (w : World) (s : Service) (m : Method) (p : Progress) : Prop where
  path : ∃ path, m.decl.pathText = .ok path
  built : s.Exposes m → ∃ built q, Run.build w m p = .ok built q
  loaded : s.Exposes m → ∀ t, m.subResource = some t → ∃ sub, w.loadService t = .ok sub

namespace Run

variable {w : World} {root : TypeExpr} {s : Service} {d : Descent} {p q : Progress} {e : Failure}

/-- Only a service that a method leads to can fail a scan of the method. -/
theorem scanMethod_error {m : Method} (hsmooth : Smooth w s m p)
    (h : scanMethod w (scan w) s d m p = .error e q) :
    ∃ (entry : Entry) (r r₁ : Progress) (t : TypeExpr) (sub : Service),
      entry.service = s ∧ entry.descent = d ∧ entry.method = m ∧
      s.template? d.path m = some entry.template ∧ m.decl.operation = some entry.info ∧
      build w m p = .ok (some entry.built) r ∧ m.subResource = some t ∧
      load w t r = .ok sub r₁ ∧ s.Exposes m ∧ scan w sub entry.below r₁ = .error e q := by
  obtain ⟨path, hpath⟩ := hsmooth.path
  rcases scanMethod_cases s d m with ⟨e, he⟩ | ⟨template, info, ht, hi⟩ | ⟨path, hpath, hn⟩
  · rw [hpath] at he
    cases he
  · rw [scanMethod_of_exposed ht hi] at h
    cases hidden : m.operation.hidden with
    | true =>
      rw [scanRoute_of_hidden (build_of_hidden hidden p)] at h
      cases h
    | false =>
      have exposed : s.Exposes m := by
        refine (Service.exposes_iff hpath d.path).2 ⟨?_, by rw [ht]; rfl⟩
        rw [Method.operation, hi, Option.getD_some] at hidden
        rw [Method.isRouted, hi, Option.any_some, hidden]
        rfl
      obtain ⟨built, r, hb⟩ := hsmooth.built exposed
      have shown := isRouted_of_build hb hi
      rw [exposed.1] at shown
      obtain ⟨op, rfl⟩ := Option.isSome_iff_exists.1 shown.symm
      rw [scanRoute_of_built hb] at h
      let entry : Entry := ⟨s, d, m, template, info, op⟩
      have htarget : scanTarget w (scan w) m entry.below r = .error e q := by
        rcases bind_error.1 h with h | ⟨_, r', _, h⟩
        · exact h
        · obtain ⟨_, hst, _⟩ := store_ok template.text m.verb (info.tags ++ d.tags)
            (completed (placed op template info d) info d.tags s.info.authorizationNames) r'
          rw [hst] at h
          cases h
      cases hs : m.subResource with
      | none =>
        rw [scanTarget_of_none hs] at htarget
        cases htarget
      | some t =>
        rw [scanTarget_of_some hs] at htarget
        obtain ⟨sub, hl⟩ := hsmooth.loaded exposed t hs
        have hload := load_of_ok hl r
        rw [bind_of_ok hload] at htarget
        exact ⟨entry, r, _, t, sub, rfl, rfl, rfl, ht, hi, hb, rfl, hload, exposed, htarget⟩
  · rw [scanMethod_of_unexposed hpath hn] at h
    cases h

/-- Where the trail is the given one, a scan that goes smoothly fails by a cycle only. -/
def FailsByCycles (w : World) (root : TypeExpr) (trail : List TypeExpr) : Prop :=
  ∀ ⦃s d p q e⦄, p.trail = trail → w.loadService s.type = .ok s → d.skips s = false →
    w.OnWay root trail s.type →
    (trail.any (TypeExpr.same s.type) = false → ∀ ⦃s' m p'⦄,
      Meets w s (d.within s) s.methods (p.enter s.type) s' m p' → Smooth w s' m p') →
    scan w s d p = .error e q → ∃ chain, e = .cyclic chain ∧ w.IsCycle root chain

theorem scanMethods_error {trail : List TypeExpr} (hs : w.loadService s.type = .ok s)
    (way : w.OnWay root trail s.type) (hn : s.type ∉ trail)
    (below : FailsByCycles w root (trail ++ [s.type])) {ms : List Method} :
    ∀ {p : Progress}, ms ⊆ s.methods → p.trail = trail ++ [s.type] →
      (∀ ⦃s' m p'⦄, Meets w s d ms p s' m p' → Smooth w s' m p') →
      scanMethods (scanMethod w (scan w) s d) ms p = .error e q →
      ∃ chain, e = .cyclic chain ∧ w.IsCycle root chain := by
  induction ms with
  | nil => intro p _ _ _ h; cases h
  | cons m ms ih =>
    intro p hms hp smooth h
    have keeps := scanMethod_keepsTrail (w := w) (scan_keepsTrail w) s d m
    rcases bind_error.1 h with h | ⟨_, r, hm, h⟩
    · obtain ⟨entry, r, r₁, t, sub, rfl, rfl, rfl, ht, hi, hb, hsub, hl, exposed, h⟩ :=
        scanMethod_error (smooth .here) h
      have hload := (load_ok hl).1
      obtain rfl : sub.type = t := (World.loadService_ok hload).1
      have trail₁ : r₁.trail = trail ++ [entry.service.type] := by
        have loaded : r₁.trail = r.trail := (load_keepsTrail w _).of_ok hl
        have built : r.trail = p.trail := (build_keeps sameTrail_building w _).of_ok hb
        rw [loaded, built, hp]
      have edge := World.edge_of_subResource hs (hms List.mem_cons_self) exposed hsub
      have shown : entry.below.skips sub = false := by
        simp [Descent.skips, Entry.below, Descent.below]
      refine below trail₁ hload shown (way.step hn edge) (fun hnew s' m' p' inner => ?_) h
      exact smooth (.inside ht hi hb hsub hl (trail₁ ▸ hnew) inner)
    · exact ih (fun m' hm' => hms (List.mem_cons_of_mem _ hm')) ((keeps.of_ok hm).trans hp)
        (fun s' m' p' rest => smooth (.later hm rest)) h

/-- The services that are not on the trail become fewer, so a scan comes to its end. -/
theorem scan_failsByCycles (w : World) (root : TypeExpr) (trail : List TypeExpr) :
    FailsByCycles w root trail := by
  induction hk : remaining w trail using Nat.strongRecOn generalizing trail with
  | ind k ih =>
    intro s d p q e hp hs hskips way smooth h
    obtain ⟨i, hi, hlt⟩ := World.loadService_declared hs
    rw [scan_eq hs] at h
    cases hm : trail.any (TypeExpr.same s.type) with
    | true =>
      rw [scanService_of_met hskips (hp ▸ hm)] at h
      obtain ⟨rfl, _⟩ := EStateM.Result.error.inj h
      exact ⟨_, rfl, isCycle_chain hs (hp ▸ way) (hp ▸ hm)⟩
    | false =>
      rw [scanService_of_new hskips (hp ▸ hm)] at h
      obtain ⟨r, h, _⟩ := guarded_error.1 h
      have hn : s.type ∉ trail := fun mem => by
        rw [(any_same_iff hi).2 mem] at hm
        cases hm
      have less : remaining w (trail ++ [s.type]) < k := by
        rw [← hk, hi]
        exact remaining_enter hlt (hi ▸ hm)
      refine scanMethods_error hs way hn (ih _ less _ rfl) (List.Subset.refl _) ?_ (smooth hm) h
      show p.trail ++ [s.type] = _
      rw [hp]

/-- Reading a service leaves the trail as it was, and no larger bound makes a difference. Where it
is not left out, starts with an empty trail and goes smoothly, it ends well or with a cycle: with a
cycle exactly when one of exposed edges can be reached, and then with the names of such a cycle. -/
theorem read_cyclic (w : World) (t : TypeExpr) (includeHidden : Bool) (p : Progress) :
    (after (read w t includeHidden) p).trail = p.trail ∧
    (∀ bound, w.decls.length < bound →
      (load w t >>= fun s => scanWithin w bound s { includeHidden }) p =
        read w t includeHidden p) ∧
    ∀ s, w.loadService t = .ok s → Descent.skips { includeHidden } s = false → p.trail = [] →
      (∀ r, load w t p = .ok s r → ∀ ⦃s' m p'⦄, Meets w s (Descent.within { includeHidden } s)
        s.methods (r.enter s.type) s' m p' → Smooth w s' m p') →
      ((∃ q, read w t includeHidden p = .ok () q) ∨
        ∃ chain q, read w t includeHidden p = .error (.cyclic chain) q) ∧
      ((∃ chain q, read w t includeHidden p = .error (.cyclic chain) q) ↔
        ∃ u, w.Reaches t u ∧ Relation.TransGen w.Edge u u) ∧
      ∀ chain q, read w t includeHidden p = .error (.cyclic chain) q → w.IsCycle t chain := by
  refine ⟨read_keepsTrail w t includeHidden p, fun bound hbound => ?_, ?_⟩
  · show _ = (load w t >>= fun s => scan w s { includeHidden }) p
    cases hl : load w t p with
    | error e q => rw [bind_of_error hl, bind_of_error hl]
    | ok s q =>
      rw [bind_of_ok hl, bind_of_ok hl]
      exact scanWithin_eq_scan (World.loadService_type (load_ok hl).1) _ q hbound
  · intro s hl hskips hp smooth
    have hload := load_of_ok hl p
    have htype := (World.loadService_ok hl).1
    have fails : ∀ {e q}, read w t includeHidden p = .error e q →
        ∃ chain, e = .cyclic chain ∧ w.IsCycle t chain := by
      intro e q h
      have h : (load w t >>= fun s => scan w s { includeHidden }) p = .error e q := h
      rw [bind_of_ok hload] at h
      refine scan_failsByCycles w t [] ?_ (World.loadService_type hl) hskips
        (htype ▸ World.OnWay.start w t) (fun _ => smooth _ hload) h
      exact hp
    refine ⟨?_, ⟨?_, ?_⟩, ?_⟩
    · cases h : read w t includeHidden p with
      | ok u q => exact .inl ⟨q, rfl⟩
      | error e q =>
        obtain ⟨chain, rfl, _⟩ := fails h
        exact .inr ⟨chain, q, rfl⟩
    · rintro ⟨chain, q, h⟩
      obtain ⟨_, he, cycle⟩ := fails h
      exact cycle.exists_cycle
    · rintro ⟨u, reached, cycle⟩
      cases h : read w t includeHidden p with
      | ok u q => exact absurd cycle ((ends_of_read hl hskips h).not_cycle reached)
      | error e q =>
        obtain ⟨chain, rfl, _⟩ := fails h
        exact ⟨chain, q, rfl⟩
    · intro chain q h
      obtain ⟨_, he, cycle⟩ := fails h
      obtain rfl := Failure.cyclic.inj he
      exact cycle

/-- A method that neither takes nor returns anything is built in every state. -/
theorem build_of_bare {m : Method} (helement : m.requestElement = none)
    (hbody : m.requestBody = none) (harguments : m.arguments = [])
    (hpayload : w.payloadType m = none) (hresponses : m.decl.responses = [])
    (hheaders : m.operation.responseHeaders = []) (p : Progress) :
    ∃ built, build w m p = .ok built p := by
  have headers : responseHeaders w m.operation.responseHeaders [] p = .ok [] p := by
    rw [hheaders]
    rfl
  have success : ∀ headers op, successResponse w m headers op p = .ok op p := by
    intro headers op
    unfold successResponse
    rw [hpayload]
    rfl
  have declared : ∀ op, declaredResponses w m.decl.responses op p = .ok op p := by
    intro op
    rw [hresponses]
    rfl
  have parameters : classify w m p = .ok [] p := by
    unfold classify candidates
    rw [helement, hbody, harguments]
    rfl
  unfold build
  split
  · exact ⟨none, rfl⟩
  · rw [bind_of_ok headers, bind_of_ok (success _ _), bind_of_ok (declared _),
      bind_of_ok parameters]
    exact ⟨_, rfl⟩

end Run

/-- What a scan comes to are methods of loaded services. -/
theorem Meets.loaded {w : World} {s s' : Service} {d : Descent} {ms : List Method} {m : Method}
    {p p' : Progress} (h : Meets w s d ms p s' m p') (hs : w.loadService s.type = .ok s)
    (hms : ms ⊆ s.methods) : w.loadService s'.type = .ok s' ∧ m ∈ s'.methods := by
  induction h with
  | here => exact ⟨hs, hms List.mem_cons_self⟩
  | inside ht hi hb hsub hl hnew inner ih =>
    exact ih (World.loadService_type (Run.load_ok hl).1) (List.Subset.refl _)
  | later hm rest ih => exact ih hs fun m hm => hms (List.mem_cons_of_mem _ hm)

namespace World

/-- The methods of a service neither take nor return anything but services that can be loaded. -/
def isBare (w : World) (t : TypeExpr) : Bool :=
  match w.loadService t with
  | .error _ => true
  | .ok s => s.methods.all fun m =>
      m.decl.pathText.isOk && m.requestElement.isNone && m.requestBody.isNone &&
      m.arguments.isEmpty && (w.payloadType m).isNone && m.decl.responses.isEmpty &&
      m.operation.responseHeaders.isEmpty && m.subResource.all fun u => (w.loadService u).isOk

theorem smooth_of_isBare {w : World} {s : Service} {m : Method} (hs : w.loadService s.type = .ok s)
    (hm : m ∈ s.methods) (h : w.isBare s.type = true) (p : Progress) : Smooth w s m p := by
  rw [isBare, hs] at h
  have h := List.all_eq_true.1 h m hm
  simp only [Bool.and_eq_true, Option.isNone_iff_eq_none, List.isEmpty_iff] at h
  obtain ⟨⟨⟨⟨⟨⟨⟨hpath, helement⟩, hbody⟩, harguments⟩, hpayload⟩, hresponses⟩, hheaders⟩, hsub⟩ := h
  refine ⟨except_isOk.1 hpath, fun _ => ?_, fun _ t ht => ?_⟩
  · obtain ⟨built, hb⟩ :=
      Run.build_of_bare helement hbody harguments hpayload hresponses hheaders p
    exact ⟨built, p, hb⟩
  · rw [ht] at hsub
    exact except_isOk.1 hsub

/-- Two services that lead to each other. -/
def rounds : World where
  decls := [
    .cls {
      name := "There"
      qualname := "There"
      above := [.builtin .object]
      service := some {}
      methods := [("back", {
        name := "back"
        marked := true
        path := some (.text "/back")
        operation := some {}
        returns := some (.declared 1) })] },
    .cls {
      name := "Back"
      qualname := "Back"
      above := [.builtin .object]
      service := some {}
      methods := [("there", {
        name := "there"
        marked := true
        path := some (.text "/there")
        operation := some {}
        returns := some (.declared 0) })] }]
  names := [("There", .declared 0), ("Back", .declared 1)]

end World

theorem Run.read_cyclic_rounds :
    ∃ q, read World.rounds (.declared 0) false {} =
        .error (.cyclic ["app.There", "app.Back", "app.There"]) q ∧
      q.trail = [] ∧ World.rounds.IsCycle (.declared 0) ["app.There", "app.Back", "app.There"] ∧
      ∃ u, World.rounds.Reaches (.declared 0) u ∧ Relation.TransGen World.rounds.Edge u u := by
  have failed : (match read World.rounds (.declared 0) false {} with
      | .error (.cyclic chain) _ => some chain
      | _ => none) = some ["app.There", "app.Back", "app.There"] := by decide +kernel
  have found : (World.rounds.loadService (.declared 0)).toOption.map
      (Descent.skips { includeHidden := false }) = some false := by decide +kernel
  have bare : ∀ i < World.rounds.decls.length, World.rounds.isBare (.declared i) = true := by
    decide +kernel
  obtain ⟨restored, _, cycles⟩ := read_cyclic World.rounds (.declared 0) false {}
  cases hl : World.rounds.loadService (.declared 0) with
  | error e => rw [hl] at found; cases found
  | ok s =>
    rw [hl] at found
    have smooth : ∀ r, load World.rounds (.declared 0) {} = .ok s r → ∀ ⦃s' m p'⦄,
        Meets World.rounds s (Descent.within { includeHidden := false } s) s.methods
          (r.enter s.type) s' m p' → Smooth World.rounds s' m p' := by
      intro r hr s' m p' meets
      obtain ⟨hs', hm⟩ := meets.loaded (World.loadService_type (load_ok hr).1) (List.Subset.refl _)
      obtain ⟨i, hi, hlt⟩ := World.loadService_declared hs'
      exact World.smooth_of_isBare hs' hm (hi ▸ bare i hlt) p'
    obtain ⟨_, found_iff, named⟩ := cycles s hl (Option.some.inj found) rfl smooth
    cases h : read World.rounds (.declared 0) false {} with
    | ok u q => rw [h] at failed; cases failed
    | error e q =>
      rw [h] at failed
      rw [after_of_error h] at restored
      cases e with
      | cyclic chain =>
        obtain rfl := Option.some.inj failed
        exact ⟨q, rfl, restored, named _ _ h, found_iff.1 ⟨_, _, h⟩⟩
      | _ => cases failed

end ApiCompiler
