import ApiCompiler.Proofs.Bodies
import ApiCompiler.Proofs.Locations

/-!
# One body for an operation

What a method sends itself is one body, or any number of parameters none of which is a body. An
operation below other methods takes over what these send, bodies and form parameters as well, so
that it has one body at most, and no form parameters beside it, exactly when this is true of all the
methods on the way to it taken together.
-/

set_option autoImplicit false

namespace ApiCompiler

namespace Run

variable {w : World} {p q : Progress}

/-- A request is sent without a body, or as one body and nothing else. -/
theorem classify_sole {m : Method} {xs : List Parameter} (h : classify w m p = .ok xs q) :
    (∀ x ∈ xs, x.location ≠ .body) ∨ ∃ x, xs = [x] := by
  cases classify_ok h with
  | body _ => exact .inr ⟨_, rfl⟩
  | form _ _ _ =>
    refine .inl fun x hx hbody => ?_
    obtain ⟨e, _, form⟩ := List.mem_filterMap.1 hx
    cases (Argument.sentAs_of_form form).location.symm.trans hbody
  | folded _ _ => exact .inr ⟨_, rfl⟩
  | entries _ _ =>
    refine .inl fun x hx => ?_
    obtain ⟨i, _, form⟩ := List.mem_filterMap.1 hx
    exact (ImplicitParam.sentAs_of_form form).location

end Run

namespace Operation

/-- The names of the bodies of an operation. -/
def bodies (op : Operation) : List String :=
  (op.parameters.filter fun x => x.location = .body).map Parameter.name

/-- There is at most one body, and if there is one there are no form parameters. -/
structure HasSoleBody (op : Operation) : Prop where
  single : op.bodies.length ≤ 1
  alone : op.bodies ≠ [] → ∀ x ∈ op.parameters, x.location ≠ .formData

instance (op : Operation) : Decidable op.HasSoleBody :=
  decidable_of_iff (op.bodies.length ≤ 1 ∧
      (op.bodies ≠ [] → ∀ x ∈ op.parameters, x.location ≠ .formData))
    ⟨fun ⟨single, alone⟩ => ⟨single, alone⟩, fun ⟨single, alone⟩ => ⟨single, alone⟩⟩

variable {op : Operation} {name : String}

theorem mem_bodies :
    name ∈ op.bodies ↔ (name, Location.body) ∈ op.parameters.map Parameter.key := by
  simp only [bodies, Parameter.key, List.mem_map, List.mem_filter, decide_eq_true_eq,
    Prod.mk.injEq, and_assoc]
  exact exists_congr fun x => and_congr_right fun _ => and_comm

theorem bodies_of_parameters {op' : Operation} (h : op'.parameters = op.parameters) :
    op'.bodies = op.bodies := by
  unfold bodies
  rw [h]

end Operation

theorem length_le_one_iff_of_nodup {α : Type} {l : List α} (h : l.Nodup) :
    l.length ≤ 1 ↔ ∀ a ∈ l, ∀ b ∈ l, a = b := by
  cases l with
  | nil => simp
  | cons a l =>
    cases l with
    | nil => simp
    | cons b l =>
      have hab : a ≠ b := by
        rintro rfl
        simp at h
      constructor
      · intro hlen
        simp at hlen
      · intro all
        exact absurd (all a (by simp) b (by simp)) hab

namespace Route

theorem bodies_addPlaceholder (patterns : Table String) (op : Operation) (name : String) :
    (addPlaceholder patterns op name).bodies = op.bodies := by
  unfold addPlaceholder
  split
  · rfl
  · simp [Operation.bodies, placeholderParameter]

/-- Reconciling leaves the bodies as they are. -/
theorem bodies_reconcile (op : Operation) (template : String) (patterns : Table String) :
    (reconcile op template patterns).bodies = op.bodies := by
  have added := foldl_component Operation.bodies (addPlaceholder patterns)
    (bodies_addPlaceholder patterns) (Path.placeholders template)
  refine (added _).trans ?_
  unfold Operation.bodies
  rw [List.filter_map, List.map_map]
  have kept : ∀ x : Parameter, (decide ((placeParameter (Path.placeholders template) patterns
      x).location = .body)) = decide (x.location = .body) := by
    intro x
    rw [placeParameter_location]
    split
    · rename_i h
      simp [h.1]
    · rfl
  have names : Parameter.name ∘ placeParameter (Path.placeholders template) patterns =
      Parameter.name := funext fun x => placeParameter_name _ _ x
  rw [names]
  congr 1
  exact List.filter_congr fun x _ => kept x

theorem nodup_bodies_inheritInto {z : Parameter} {own : List Parameter}
    (h : ((own.filter fun x => x.location = .body).map Parameter.name).Nodup) :
    (((inheritInto z own).filter fun x => x.location = .body).map Parameter.name).Nodup := by
  induction own with
  | nil =>
    unfold inheritInto
    by_cases hz : z.location = .body <;> simp [hz]
  | cons y own ih =>
    unfold inheritInto
    split
    · by_cases hy : y.location = .body <;> simpa [complete, hy] using h
    · rename_i other
      by_cases hy : y.location = .body
      · simp only [hy, decide_true, List.filter_cons_of_pos, List.map_cons, List.nodup_cons] at h ⊢
        refine ⟨fun hmem => ?_, ih h.2⟩
        obtain ⟨x, hx, hname⟩ := List.mem_map.1 hmem
        obtain ⟨hx, hbody⟩ := List.mem_filter.1 hx
        have hbody : x.location = .body := of_decide_eq_true hbody
        rcases mem_inheritInto hx with ⟨y', hy', hkey, _⟩ | ⟨rfl, _⟩
        · obtain ⟨hname', hloc'⟩ := Prod.mk.inj hkey
          refine h.1 (List.mem_map.2 ⟨y', List.mem_filter.2 ⟨hy', ?_⟩, hname'.trans hname⟩)
          exact decide_eq_true (hloc'.trans hbody)
        · exact other (sameParameter_iff.2 ⟨hname.symm, hy.trans hbody.symm⟩)
      · simpa [hy] using ih (by simpa [hy] using h)

theorem nodup_bodies_inherit {op : Operation} (h : op.bodies.Nodup)
    (parameters : List Parameter) : (inherit op parameters).bodies.Nodup := by
  have fold : ∀ (parameters own : List Parameter),
      ((own.filter fun x => x.location = .body).map Parameter.name).Nodup →
      (((parameters.foldl (fun own z => inheritInto z own) own).filter
        fun x => x.location = .body).map Parameter.name).Nodup := by
    intro parameters
    induction parameters with
    | nil => exact fun own h => h
    | cons z parameters ih => exact fun own h => ih _ (nodup_bodies_inheritInto h)
  exact fold parameters op.parameters h

end Route

namespace Entry

variable {w : World} {e : Entry}

/-- What a method sends itself is one body, or parameters none of which is a body. -/
theorem built_sole (he : e.Arises w) :
    (∀ x ∈ e.built.parameters, x.location ≠ .body) ∨ ∃ x, e.built.parameters = [x] := by
  obtain ⟨p, q, hb⟩ := he.built
  obtain ⟨r, hc⟩ := Run.build_classify hb
  exact Run.classify_sole hc

theorem nodup_bodies_built (he : e.Arises w) : e.built.bodies.Nodup := by
  unfold Operation.bodies
  rcases built_sole he with none | ⟨x, hx⟩
  · rw [List.filter_eq_nil_iff.2 fun x hx => by simpa using none x hx]
    exact List.nodup_nil
  · rw [hx]
    by_cases hbody : x.location = .body <;> simp [hbody]

theorem nodup_bodies_operation (he : e.Arises w) : e.operation.bodies.Nodup := by
  have hparameters : e.operation.parameters = (Route.inherit (Route.reconcile e.built
      e.template.text e.template.patterns) e.descent.parameters).parameters :=
    e.operation_parameters.trans (Run.placed_parameters _ _ _ _)
  rw [Operation.bodies_of_parameters hparameters]
  apply Route.nodup_bodies_inherit
  rw [Route.bodies_reconcile]
  exact nodup_bodies_built he

/-- A method that sends a body sends no other body and no form parameter. -/
theorem sends_sole (he : e.Arises w) {name : String} (hbody : e.Sends name .body) :
    (∀ name', e.Sends name' .body → name = name') ∧ ∀ name', ¬ e.Sends name' .formData := by
  obtain ⟨x, hx, hkey⟩ := List.mem_map.1 hbody.1
  rcases built_sole he with none | ⟨y, hy⟩
  · exact absurd (Prod.mk.inj hkey).2 (none x hx)
  · have sole : ∀ {k}, k ∈ e.built.parameters.map Parameter.key → k = (name, .body) := by
      intro k hk
      rw [hy] at hx hk
      rw [List.mem_singleton.1 hk, ← List.mem_singleton.1 hx, hkey]
    constructor
    · intro name' h
      exact (Prod.mk.inj (sole h.1)).1.symm
    · intro name' h
      cases (Prod.mk.inj (sole h.1)).2

end Entry

/-- The methods on the way to an operation send one body at most among them, counted by name, and no
form parameters if there is one. -/
structure Visit.SendsSoleBody (v : Visit) : Prop where
  single : ∀ e ∈ v.way, ∀ e' ∈ v.way, ∀ name name', e.Sends name .body → e'.Sends name' .body →
    name = name'
  alone : ∀ e ∈ v.way, ∀ e' ∈ v.way, ∀ name name', e.Sends name .body →
    ¬ e'.Sends name' .formData

namespace Visit

variable {w : World} {v : Visit}

theorem mem_bodies_operation (hv : Linked v.way) {name : String} :
    name ∈ v.entry.operation.bodies ↔ ∃ e ∈ v.way, e.Sends name .body := by
  rw [Operation.mem_bodies]
  exact mem_keys_operation hv (by decide)

theorem hasSoleBody_iff (hv : Linked v.way) (ha : ∀ e ∈ v.way, e.Arises w) :
    v.entry.operation.HasSoleBody ↔ v.SendsSoleBody := by
  have nodup := Entry.nodup_bodies_operation (ha v.entry List.mem_cons_self)
  constructor
  · intro h
    refine ⟨fun e he e' he' name name' hs hs' => ?_, fun e he e' he' name name' hs hs' => ?_⟩
    · have hname := (mem_bodies_operation hv).2 ⟨e, he, hs⟩
      have hname' := (mem_bodies_operation hv).2 ⟨e', he', hs'⟩
      exact (length_le_one_iff_of_nodup nodup).1 h.single name hname name' hname'
    · have hname := (mem_bodies_operation hv).2 ⟨e, he, hs⟩
      obtain ⟨x, hx, hkey⟩ := List.mem_map.1 ((mem_keys_operation hv (by decide)).2 ⟨e', he', hs'⟩)
      exact h.alone (List.ne_nil_of_mem hname) x hx (Prod.mk.inj hkey).2
  · intro h
    refine ⟨(length_le_one_iff_of_nodup nodup).2 fun name hname name' hname' => ?_,
      fun hne x hx hform => ?_⟩
    · obtain ⟨e, he, hs⟩ := (mem_bodies_operation hv).1 hname
      obtain ⟨e', he', hs'⟩ := (mem_bodies_operation hv).1 hname'
      exact h.single e he e' he' name name' hs hs'
    · obtain ⟨name, hname⟩ := List.exists_mem_of_ne_nil _ hne
      obtain ⟨e, he, hs⟩ := (mem_bodies_operation hv).1 hname
      have hkey : (x.name, Location.formData) ∈ v.entry.operation.parameters.map Parameter.key :=
        List.mem_map.2 ⟨x, hx, Prod.ext rfl hform⟩
      obtain ⟨e', he', hs'⟩ := (mem_keys_operation hv (by decide)).1 hkey
      exact h.alone e he e' he' name x.name hs hs'

/-- A method that no locator stands above is alone on its way. -/
theorem sendsSoleBody_of_root (ha : ∀ e ∈ v.way, e.Arises w) (hroot : v.above = []) :
    v.SendsSoleBody := by
  have alone : ∀ e ∈ v.way, e = v.entry := by
    intro e he
    rw [way, hroot] at he
    exact List.mem_singleton.1 he
  have arises := ha v.entry List.mem_cons_self
  constructor
  · intro e he e' he' name name' hs hs'
    rw [alone e he] at hs
    rw [alone e' he'] at hs'
    exact (Entry.sends_sole arises hs).1 name' hs'
  · intro e he e' he' name name' hs hs'
    rw [alone e he] at hs
    rw [alone e' he'] at hs'
    exact (Entry.sends_sole arises hs).2 name' hs'

end Visit

/-- In every read that succeeds, an operation that it stores has one body at most, and no form
parameters beside it, exactly when this is true of what its method and the locators above it send
themselves. It is true where there is no locator above. -/
theorem Run.read_bodies {w : World} {t : TypeExpr} {includeHidden : Bool} {p q : Progress}
    {u : Unit} (h : read w t includeHidden p = .ok u q) :
    ∃ visits, Reads w t includeHidden p visits q ∧
      (∀ o ∈ q.document.operations,
        o ∈ p.document.operations ∨ ∃ v ∈ visits, o = v.entry.slotted) ∧
      ∀ v ∈ visits, (v.entry.operation.HasSoleBody ↔ v.SendsSoleBody) ∧
        (v.above = [] → v.entry.operation.HasSoleBody) := by
  obtain ⟨visits, stores⟩ := stores_of_read h
  refine ⟨visits, stores.reads, stores.stored, fun v hv => ?_⟩
  have sole := Visit.hasSoleBody_iff (stores.linked v hv) (stores.arises v hv)
  constructor
  · exact sole
  · intro hroot
    exact sole.2 (Visit.sendsSoleBody_of_root (stores.arises v hv) hroot)

/-- Rooms that are added to a house, which is described by a plan, or to a flat, which is known by
its floor. -/
def World.buildings : World where
  decls := [
    .cls {
      name := "Plan"
      qualname := "Plan"
      above := [.builtin .object]
      annotations := [("area", .builtin .int)] },
    .cls {
      name := "Rooms"
      qualname := "Rooms"
      above := [.builtin .object]
      service := some {}
      methods := [("add", {
        name := "add"
        marked := true
        path := some (.text "/rooms")
        operation := some {}
        arguments := [{
          name := "plan"
          annotation := some (.declared 0)
          params := [{ required := true }] }] })] },
    .cls {
      name := "Buildings"
      qualname := "Buildings"
      above := [.builtin .object]
      service := some {}
      methods := [
        ("house", {
          name := "house"
          marked := true
          path := some (.text "/house")
          operation := some {}
          arguments := [{
            name := "plan"
            annotation := some (.declared 0)
            params := [{ required := true }] }]
          returns := some (.declared 1) }),
        ("flat", {
          name := "flat"
          marked := true
          path := some (.text "/flat")
          operation := some {}
          arguments := [{
            name := "floor"
            annotation := some (.builtin .int)
            params := [{ required := true }] }]
          returns := some (.declared 1) })] }]
  names := [("Plan", .declared 0), ("Rooms", .declared 1), ("Buildings", .declared 2)]

/-- The paths of the stored operations, with the names and locations of their parameters. -/
def World.requests (p : Progress) : List (String × List (String × Location)) :=
  p.document.operations.map fun o => (o.1, o.2.2.parameters.map Parameter.key)

/-- Rooms are added with two bodies to a house, and with a body and a form parameter to a flat. -/
theorem World.buildings_requests :
    ∃ q, Run.read buildings (.declared 2) false {} = .ok () q ∧ requests q = [
      ("/house/rooms", [("Rooms_add", .body), ("Buildings_house", .body)]),
      ("/house", [("Buildings_house", .body)]),
      ("/flat/rooms", [("Rooms_add", .body), ("floor", .formData)]),
      ("/flat", [("floor", .formData)])] ∧
      ∀ o ∈ q.document.operations, o.2.2.HasSoleBody ↔ o.1 = "/house" ∨ o.1 = "/flat" := by
  have seen : (Run.read buildings (.declared 2) false).observe (fun q => (requests q,
      q.document.operations.all fun o =>
        decide (o.2.2.HasSoleBody ↔ o.1 = "/house" ∨ o.1 = "/flat"))) = some ([
      ("/house/rooms", [("Rooms_add", .body), ("Buildings_house", .body)]),
      ("/house", [("Buildings_house", .body)]),
      ("/flat/rooms", [("Rooms_add", .body), ("floor", .formData)]),
      ("/flat", [("floor", .formData)])], true) := by decide +kernel
  obtain ⟨_, q, hr, hq⟩ := Run.observe_some seen
  obtain ⟨hrequests, hsole⟩ := Prod.mk.inj hq
  refine ⟨q, hr, hrequests, fun o ho => ?_⟩
  exact of_decide_eq_true (List.all_eq_true.1 hsole o ho)

/-- To add rooms to a house, the two methods on the way send different bodies; the house itself is
described by one. -/
theorem Run.read_bodies_buildings :
    ∃ q visits, read World.buildings (.declared 2) false {} = .ok () q ∧
      Reads World.buildings (.declared 2) false {} visits q ∧
      (∃ v ∈ visits, v.entry.template.text = "/house/rooms" ∧
        ¬ v.entry.operation.HasSoleBody ∧ ¬ v.SendsSoleBody) ∧
      ∃ v ∈ visits, v.entry.template.text = "/house" ∧
        v.entry.operation.HasSoleBody ∧ v.SendsSoleBody := by
  have seen : (read World.buildings (.declared 2) false).observe (fun q =>
      (q.document.operations.any fun o => o.1 == "/house/rooms" && !decide o.2.2.HasSoleBody) &&
        q.document.operations.any fun o => o.1 == "/house" && decide o.2.2.HasSoleBody) =
      some true := by decide +kernel
  obtain ⟨_, q, hr, hq⟩ := observe_some seen
  obtain ⟨hrooms, hhouse⟩ := Bool.and_eq_true_iff.1 hq
  obtain ⟨visits, reads, stored, bodies⟩ := Run.read_bodies hr
  refine ⟨q, visits, hr, reads, ?_, ?_⟩
  · obtain ⟨o, ho, h⟩ := List.any_eq_true.1 hrooms
    obtain ⟨v, hv, rfl⟩ := (stored o ho).resolve_left List.not_mem_nil
    have h : (v.entry.template.text == "/house/rooms" &&
        !decide v.entry.operation.HasSoleBody) = true := h
    obtain ⟨hpath, hnot⟩ := Bool.and_eq_true_iff.1 h
    have hnot : ¬ v.entry.operation.HasSoleBody :=
      of_decide_eq_false (by simpa only [Bool.not_eq_true'] using hnot)
    exact ⟨v, hv, beq_iff_eq.1 hpath, hnot, fun hs => hnot ((bodies v hv).1.2 hs)⟩
  · obtain ⟨o, ho, h⟩ := List.any_eq_true.1 hhouse
    obtain ⟨v, hv, rfl⟩ := (stored o ho).resolve_left List.not_mem_nil
    obtain ⟨hpath, hsole⟩ := Bool.and_eq_true_iff.1 h
    have hsole : v.entry.operation.HasSoleBody := of_decide_eq_true hsole
    exact ⟨v, hv, beq_iff_eq.1 hpath, hsole, (bodies v hv).1.1 hsole⟩

end ApiCompiler
