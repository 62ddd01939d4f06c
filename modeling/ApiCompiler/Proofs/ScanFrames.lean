import ApiCompiler.Proofs.Loading
import ApiCompiler.Proofs.Traces

/-!
# What scans keep

A read may fail anywhere, and what it has stored by then stays. A relation between states holds
across every read, failing or not, when it allows building, changes of the trail, and the storing of
operations; of a stored operation it may be used that it has been built from a method of a loaded
service and placed below the path of that method. Nothing is said here about the state that a read
starts from.
-/

set_option autoImplicit false

namespace ApiCompiler

/-- The entry comes up in scans: it is a method of a loaded service, whose operation has been built
for the place that the method has there. -/
structure Entry.Arises (w : World) (e : Entry) : Prop where
  loaded : ∃ t, w.loadService t = .ok e.service
  method : e.method ∈ e.service.methods
  template : e.service.template? e.descent.path e.method = some e.template
  info : e.method.decl.operation = some e.info
  built : ∃ p q, Run.build w e.method p = .ok (some e.built) q

/-- The operation has been stored: it stands in the document under its path and verb. -/
def Entry.slotted (e : Entry) : String × String × Operation :=
  (e.template.text, Text.lower e.method.verb, e.operation)

namespace Run

/-- The relation allows the steps of a scan. -/
structure AllowsScanning (w : World) (R : Progress → Progress → Prop) : Prop
    extends AllowsBuilding R where
  trail : ∀ p trail, R p { p with trail }
  store : ∀ e : Entry, e.Arises w → Keeps R e.store

/-- The relation allows the steps of a scan where all that is passed down has a property. -/
structure AllowsDescents (w : World) (D : Descent → Prop) (R : Progress → Progress → Prop) : Prop
    extends AllowsBuilding R where
  trail : ∀ p trail, R p { p with trail }
  within : ∀ d s, D d → D (d.within s)
  below : ∀ e : Entry, e.Arises w → D e.descent → D e.below
  store : ∀ e : Entry, e.Arises w → D e.descent → Keeps R e.store

theorem AllowsScanning.descents {w : World} {R : Progress → Progress → Prop}
    (hR : AllowsScanning w R) : AllowsDescents w (fun _ => True) R where
  toAllowsBuilding := hR.toAllowsBuilding
  trail := hR.trail
  within _ _ := id
  below _ _ := id
  store e he _ := hR.store e he

/-- For the second step it may be used what the first one has returned. -/
theorem AllowsBuilding.bind_of {R : Progress → Progress → Prop} {α β : Type}
    (hR : AllowsBuilding R) {x : Run α} {f : α → Run β} (hx : Keeps R x)
    (hf : ∀ p a q, x p = .ok a q → Keeps R (f a)) : Keeps R (x >>= f) := by
  intro p
  cases h : x p with
  | ok a q =>
    rw [after_bind_of_ok h]
    exact hR.trans (hx.of_ok h) (hf p a q h q)
  | error e q =>
    have hp := hx p
    rw [after_of_error h] at hp
    rw [after_of_error (bind_of_error h)]
    exact hp

section

variable {w : World} {D : Descent → Prop} {R : Progress → Progress → Prop}
  (hR : AllowsDescents w D R)
include hR

theorem load_keeps (t : TypeExpr) : Keeps R (load w t) :=
  hR.bind (hR.ofExcept _) fun _ => hR.bind (hR.report _ rfl) fun _ => hR.pure _

variable {below : Service → Descent → Run Unit}
  (hb : ∀ t s d, w.loadService t = .ok s → D d → Keeps R (below s d))
include hb

theorem scanTarget_keeps (m : Method) {d : Descent} (hd : D d) :
    Keeps R (scanTarget w below m d) := by
  unfold scanTarget
  cases m.subResource with
  | none => exact hR.pure _
  | some t =>
    apply hR.bind_of (load_keeps hR t)
    intro p sub q hload
    exact hb t sub d (load_ok hload).1 hd

theorem scanMethod_keeps {t : TypeExpr} {s : Service} (hs : w.loadService t = .ok s) {d : Descent}
    (hd : D d) {m : Method} (hm : m ∈ s.methods) : Keeps R (scanMethod w below s d m) := by
  intro p
  rcases scanMethod_cases s d m with ⟨e, he⟩ | ⟨template, info, ht, hi⟩ | ⟨path, hpath, hn⟩
  · rw [after_of_error (scanMethod_of_fault he)]
    exact hR.refl p
  · have hroute : after (scanMethod w below s d m) p =
        after (scanRoute w below s d m template info) p := by
      unfold after
      rw [scanMethod_of_exposed ht hi]
    rw [hroute]
    have route : Keeps R (scanRoute w below s d m template info) := by
      apply hR.bind_of (build_keeps hR.toAllowsBuilding w m)
      intro p built q hbuild
      cases built with
      | none => exact hR.pure _
      | some op =>
        let e : Entry := ⟨s, d, m, template, info, op⟩
        have arises : e.Arises w := ⟨⟨t, hs⟩, hm, ht, hi, ⟨p, q, hbuild⟩⟩
        have target : Keeps R (scanTarget w below m e.below) :=
          scanTarget_keeps hR hb m (hR.below e arises hd)
        have stored : Keeps R e.store := hR.store e arises hd
        exact hR.bind target fun _ => stored
    exact route p
  · rw [after_of_ok (scanMethod_of_unexposed hpath hn)]
    exact hR.notice p _ rfl

omit hb in
theorem scanMethods_keeps {f : Method → Run Unit} {ms : List Method}
    (hf : ∀ m ∈ ms, Keeps R (f m)) : Keeps R (scanMethods f ms) := by
  induction ms with
  | nil => exact hR.pure _
  | cons m ms ih =>
    have rest := ih fun m' hm' => hf m' (List.mem_cons_of_mem _ hm')
    exact hR.bind (hf m List.mem_cons_self) fun _ => rest

theorem scanService_keeps {t : TypeExpr} {s : Service} (hs : w.loadService t = .ok s)
    {d : Descent} (hd : D d) : Keeps R (scanService w below s d) := by
  intro p
  cases hskip : d.skips s with
  | true =>
    rw [after_of_ok (scanService_of_skips hskip)]
    exact hR.notice p _ rfl
  | false =>
    cases hmet : p.trail.any (TypeExpr.same s.type) with
    | true =>
      rw [after_of_error (scanService_of_met hskip hmet)]
      exact hR.refl p
    | false =>
      have hafter : after (scanService w below s d) p =
          after (guarded Progress.leave (scanMethods (scanMethod w below s (d.within s)) s.methods))
            (p.enter s.type) := by
        unfold after
        rw [scanService_of_new hskip hmet]
      rw [hafter, after_guarded]
      have methods := scanMethods_keeps hR
        (fun m hm => scanMethod_keeps hR hb hs (hR.within d s hd) hm) (p.enter s.type)
      exact hR.trans (hR.trail p _) (hR.trans methods (hR.trail _ _))

end

section

variable {w : World} {D : Descent → Prop} {R : Progress → Progress → Prop}

theorem scanWithin_keeps (hR : AllowsDescents w D R) (bound : Nat) {t : TypeExpr} {s : Service}
    (hs : w.loadService t = .ok s) {d : Descent} (hd : D d) :
    Keeps R (scanWithin w bound s d) := by
  induction bound generalizing t s d with
  | zero => exact hR.throw _
  | succ bound ih => exact scanService_keeps hR (fun _ _ _ h hd => ih h hd) hs hd

/-- A read keeps what its steps keep, whether it fails or not. -/
theorem read_keeps_of_descents (hR : AllowsDescents w D R)
    (start : ∀ includeHidden, D { includeHidden }) (t : TypeExpr) (includeHidden : Bool) :
    Keeps R (read w t includeHidden) := by
  apply hR.bind_of (load_keeps hR t)
  intro p s q hload
  exact scanWithin_keeps hR _ (load_ok hload).1 (start includeHidden)

theorem read_keeps (hR : AllowsScanning w R) (t : TypeExpr) (includeHidden : Bool) :
    Keeps R (read w t includeHidden) :=
  read_keeps_of_descents hR.descents (fun _ => trivial) t includeHidden

end

/-- The state after reads one after the other, each of which may fail. -/
def afterReads (w : World) (reads : List (TypeExpr × Bool)) (p : Progress) : Progress :=
  reads.foldl (fun p r => after (read w r.1 r.2) p) p

theorem afterReads_keeps_of_descents {w : World} {D : Descent → Prop}
    {R : Progress → Progress → Prop} (hR : AllowsDescents w D R)
    (start : ∀ includeHidden, D { includeHidden }) (reads : List (TypeExpr × Bool))
    (p : Progress) : R p (afterReads w reads p) := by
  induction reads generalizing p with
  | nil => exact hR.refl p
  | cons r reads ih => exact hR.trans (read_keeps_of_descents hR start r.1 r.2 p) (ih _)

theorem afterReads_keeps {w : World} {R : Progress → Progress → Prop} (hR : AllowsScanning w R)
    (reads : List (TypeExpr × Bool)) (p : Progress) : R p (afterReads w reads p) :=
  afterReads_keeps_of_descents hR.descents (fun _ => trivial) reads p

/-- Storing an operation adds it to those that are there. -/
theorem operations_of_store {e : Entry} {p q : Progress} (h : e.store p = .ok () q)
    {o : String × String × Operation} (ho : o ∈ q.document.operations) :
    o = e.slotted ∨ o ∈ p.document.operations := by
  obtain ⟨q', hq, _, _, _, hpaths⟩ := store_ok e.template.text e.method.verb
    (e.info.tags ++ e.descent.tags) e.operation p
  obtain rfl : q' = q := (EStateM.Result.ok.inj (hq.symm.trans h)).2
  have ho : o ∈ (p.document.addOperation e.template.text e.method.verb
      e.operation).1.operations := by
    unfold Document.operations at ho ⊢
    rw [← hpaths]
    exact ho
  exact Document.mem_operations_addOperation ho

section

variable {P : String × String × Operation → Prop}

theorem allowsBuilding_of_stored : AllowsBuilding fun p q : Progress =>
    (∀ o ∈ p.document.operations, P o) → ∀ o ∈ q.document.operations, P o where
  refl _ := id
  trans h₁ h₂ := h₂ ∘ h₁
  notice _ _ _ := id
  registry _ _ := id
  models added p := by
    obtain ⟨definitions, h⟩ := Document.addModels_document added p.document
    rw [after_of_ok (onDocument_apply _ p), h]
    exact id

theorem store_keeps_of_stored {e : Entry} (h : P e.slotted) : Keeps (fun p q : Progress =>
    (∀ o ∈ p.document.operations, P o) → ∀ o ∈ q.document.operations, P o) e.store := by
  intro p hp o ho
  obtain ⟨q, hq, _⟩ := store_ok e.template.text e.method.verb (e.info.tags ++ e.descent.tags)
    e.operation p
  have hafter : after e.store p = q := after_of_ok hq
  rw [hafter] at ho
  rcases operations_of_store hq ho with rfl | ho
  · exact h
  · exact hp o ho

/-- What is true of every operation when it is stored stays true of all of them. -/
theorem allowsScanning_of_stored {w : World} (h : ∀ e : Entry, e.Arises w → P e.slotted) :
    AllowsScanning w fun p q =>
      (∀ o ∈ p.document.operations, P o) → ∀ o ∈ q.document.operations, P o where
  toAllowsBuilding := allowsBuilding_of_stored
  trail _ _ := id
  store e he := store_keeps_of_stored (h e he)

end

end Run

end ApiCompiler
