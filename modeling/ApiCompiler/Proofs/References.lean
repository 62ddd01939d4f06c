import ApiCompiler.Compilation.Compile
import ApiCompiler.Proofs.Completeness
import ApiCompiler.Proofs.Scanning

/-!
# References of a compiled document

A scan keeps the state settled: what an operation refers to is defined when it is stored, also where
it takes over the parameters of the operation above. Compiling starts from a settled state, since
overrides are primitive, so that no reference of the compiled document is left without a definition.
-/

set_option autoImplicit false

namespace ApiCompiler

namespace Document

theorem Complete.has_of_mem_references {d : Document} (h : d.Complete) :
    ∀ n ∈ d.references, d.definitions.has n := by
  intro n hn
  rcases List.mem_append.1 hn with hn | hn
  · obtain ⟨e, he, hn⟩ := Schema.mem_tableReferences.1 hn
    exact h.definitions e he n hn
  · obtain ⟨o, ho, hn⟩ := List.mem_flatMap.1 hn
    exact h.operations o ho n hn

/-- A complete document has no unresolved references. -/
theorem Complete.unresolvedReferences {d : Document} (h : d.Complete) :
    d.unresolvedReferences = [] := by
  have defined : d.references.filter (fun n => !d.definitions.has n) = [] :=
    List.filter_eq_nil_iff.2 fun n hn => by simp [h.has_of_mem_references n hn]
  rw [Document.unresolvedReferences, defined]
  exact List.mergeSort_nil

end Document

namespace Run

open Progress (Settled Settles Defines)

variable {p q : Progress}

theorem store_settles {path verb : String} {tags : List String} {op : Operation} {u : Unit}
    (h : store path verb tags op p = .ok u q) (hp : p.Settled)
    (ho : p.Defines (Document.operationReferences op)) : p.Settles q := by
  obtain ⟨q', hq, hr, _, hd, hpaths⟩ := store_ok path verb tags op p
  obtain rfl : q' = q := by rw [hq] at h; exact (EStateM.Result.ok.inj h).2
  refine ⟨⟨hr ▸ hp.registry, hr ▸ hp.idle, ?_, ?_, ?_⟩, hr ▸ .refl _, fun n hn => hd ▸ hn⟩
  · rw [hd]; exact hp.document.definitions
  · rw [hd]; exact hp.document.required
  · intro o hmem n hn
    rw [hd]
    have hmem : o ∈ (p.document.addOperation path verb op).1.operations := by
      unfold Document.operations at hmem ⊢
      rw [← hpaths]
      exact hmem
    rcases Document.mem_operations_addOperation hmem with rfl | hmem
    · exact ho n hn
    · exact hp.document.operations o hmem n hn

/-- Placing an operation adds no references but those of the parameters that it takes over. -/
theorem defines_placed {op : Operation} {template : Path.Template} {info : OperationInfo}
    {d : Descent} (ho : p.Defines (Document.operationReferences op))
    (hd : p.Defines (parameterReferences d.parameters)) :
    p.Defines (Document.operationReferences (placed op template info d)) := by
  intro n hn
  rcases Document.mem_operationReferences.1 hn with ⟨x, hx, hn⟩ | hn
  · rw [placed_parameters] at hx
    rcases Route.shape_of_mem_inherit hx with ⟨y, hy, hs⟩ | ⟨y, hy, hs⟩
    · rcases Route.shape_of_mem_reconcile hy with ⟨z, hz, hs'⟩ | hs'
      · rw [hs, hs'] at hn
        exact ho n (Document.mem_operationReferences.2 (.inl ⟨z, hz, hn⟩))
      · rw [hs, hs'] at hn
        simp [Schema.references, Schema.optionReferences, Schema.tableReferences] at hn
    · rw [hs] at hn
      exact hd n (List.mem_flatMap.2 ⟨y, hy, hn⟩)
  · rw [placed_responses] at hn
    exact ho n (Document.mem_operationReferences.2 (.inr hn))

/-- What a way of scanning does to a settled state. -/
def ScanSettles (scan : Service → Descent → Run Unit) : Prop :=
  ∀ ⦃s d p q u⦄, scan s d p = .ok u q → p.Settled →
    p.Defines (parameterReferences d.parameters) → p.Settles q

theorem scanTarget_settles {w : World} {below : Service → Descent → Run Unit}
    (hb : ScanSettles below) {m : Method} {d : Descent} {u : Unit}
    (h : scanTarget w below m d p = .ok u q) (hp : p.Settled)
    (hd : p.Defines (parameterReferences d.parameters)) : p.Settles q := by
  cases ht : m.subResource with
  | none =>
    rw [scanTarget_of_none ht] at h
    cases h
    exact hp.refl
  | some t =>
    rw [scanTarget_of_some ht] at h
    obtain ⟨sub, r, hl, h⟩ := bind_ok.1 h
    have hr : p.Settles r := by
      obtain ⟨_, rfl⟩ := load_ok hl
      exact hp.of_same rfl rfl
    exact hr.trans (hb h hr.settled (hr.defines hd))

theorem scanRoute_settles {w : World} {below : Service → Descent → Run Unit}
    (hb : ScanSettles below) {s : Service} {d : Descent} {m : Method} {template : Path.Template}
    {info : OperationInfo} {u : Unit} (h : scanRoute w below s d m template info p = .ok u q)
    (hp : p.Settled) (hd : p.Defines (parameterReferences d.parameters)) : p.Settles q := by
  obtain ⟨built, r, hbuilt, _⟩ := bind_ok.1 h
  obtain ⟨hr, ho⟩ := build_settles hbuilt hp
  cases built with
  | none =>
    rw [scanRoute_of_hidden hbuilt] at h
    cases h
    exact hr
  | some op =>
    rw [scanRoute_of_built hbuilt] at h
    obtain ⟨_, r', ht, h⟩ := bind_ok.1 h
    have hplaced : r.Defines (Document.operationReferences (placed op template info d)) :=
      defines_placed (ho op rfl) (hr.defines hd)
    have ht := scanTarget_settles hb ht hr.settled
      fun n hn => hplaced n (List.mem_append_left _ hn)
    refine (hr.trans ht).trans (store_settles h ht.settled ?_)
    rw [Document.operationReferences_congr (completed_parameters _ _ _ _)
      (completed_responses _ _ _ _)]
    exact ht.defines hplaced

theorem scanMethod_settles {w : World} {below : Service → Descent → Run Unit}
    (hb : ScanSettles below) {s : Service} {d : Descent} {m : Method} {u : Unit}
    (h : scanMethod w below s d m p = .ok u q) (hp : p.Settled)
    (hd : p.Defines (parameterReferences d.parameters)) : p.Settles q := by
  rcases scanMethod_cases s d m with ⟨e, he⟩ | ⟨template, info, ht, hi⟩ | ⟨path, hpath, hn⟩
  · rw [scanMethod_of_fault he] at h
    cases h
  · rw [scanMethod_of_exposed ht hi] at h
    exact scanRoute_settles hb h hp hd
  · rw [scanMethod_of_unexposed hpath hn] at h
    cases h
    exact hp.of_same rfl rfl

theorem scanMethods_settles {f : Method → Run Unit} {d : Descent}
    (hf : ∀ ⦃m p q u⦄, f m p = .ok u q → p.Settled →
      p.Defines (parameterReferences d.parameters) → p.Settles q) {ms : List Method} :
    ∀ {p q : Progress} {u : Unit}, scanMethods f ms p = .ok u q → p.Settled →
      p.Defines (parameterReferences d.parameters) → p.Settles q := by
  induction ms with
  | nil => intro p q u h hp _; cases h; exact hp.refl
  | cons m ms ih =>
    intro p q u h hp hd
    obtain ⟨_, r, hm, h⟩ := bind_ok.1 h
    have hr := hf hm hp hd
    exact hr.trans (ih h hr.settled (hr.defines hd))

theorem scanService_settles {w : World} {below : Service → Descent → Run Unit}
    (hb : ScanSettles below) : ScanSettles (scanService w below) := by
  intro s d p q u h hp hd
  cases hs : d.skips s with
  | true =>
    rw [scanService_of_skips hs] at h
    cases h
    exact hp.of_same rfl rfl
  | false =>
    cases hm : p.trail.any (TypeExpr.same s.type) with
    | true => rw [scanService_of_met hs hm] at h; cases h
    | false =>
      rw [scanService_of_new hs hm] at h
      obtain ⟨r, hr, rfl⟩ := guarded_ok.1 h
      have entered : p.Settles (p.enter s.type) := hp.of_same rfl rfl
      have hr := scanMethods_settles (d := d.within s)
        (fun m p q u h hp hd => scanMethod_settles hb h hp hd) hr entered.settled
        (entered.defines hd)
      exact (entered.trans hr).trans (hr.settled.of_same rfl rfl)

theorem scan_settles (w : World) : ScanSettles (scan w) := by
  have within : ∀ bound, ScanSettles (scanWithin w bound) := by
    intro bound
    induction bound with
    | zero => intro s d p q u h; cases h
    | succ bound ih => exact scanService_settles ih
  exact within _

theorem read_settles {w : World} {t : TypeExpr} {includeHidden : Bool} {u : Unit}
    (h : read w t includeHidden p = .ok u q) (hp : p.Settled) : p.Settles q := by
  obtain ⟨s, r, hl, h⟩ := bind_ok.1 h
  have hr : p.Settles r := by
    obtain ⟨_, rfl⟩ := load_ok hl
    exact hp.of_same rfl rfl
  exact hr.trans (scan_settles w h hr.settled nofun)

theorem scanTargets_settles {w : World} {includeHidden : Bool} {targets : List Target} :
    ∀ {names : List String} {p q : Progress},
      scanTargets w includeHidden targets p = .ok names q → p.Settled → p.Settles q := by
  induction targets with
  | nil => intro names p q h hp; cases h; exact hp.refl
  | cons target targets ih =>
    intro names p q h hp
    obtain ⟨t, r, ht, h⟩ := bind_ok.1 h
    obtain ⟨_, rfl⟩ := ofExcept_ok.1 ht
    rw [bind_of_ok (report_apply _ p)] at h
    obtain ⟨_, r₂, hread, h⟩ := bind_ok.1 h
    obtain ⟨name, r₃, hname, h⟩ := bind_ok.1 h
    obtain ⟨_, rfl⟩ := ofExcept_ok.1 hname
    obtain ⟨rest, r₄, hrest, h⟩ := bind_ok.1 h
    obtain ⟨rfl, rfl⟩ := pure_ok.1 h
    have reported : p.Settles { p with notices := .scanning (w.shown t) :: p.notices } :=
      hp.of_same rfl rfl
    have hr := read_settles hread reported.settled
    exact (reported.trans hr).trans (ih hrest hr.settled)

end Run

namespace Overrides

theorem mem_insert {t : TypeExpr} {s : Schema} {overrides : Overrides} {e : TypeExpr × Schema}
    (h : e ∈ overrides.insert t s) : e.2 = s ∨ e ∈ overrides := by
  induction overrides with
  | nil => exact .inl (by rw [List.mem_singleton.1 h])
  | cons o overrides ih =>
    obtain ⟨u, s'⟩ := o
    unfold insert at h
    split at h
    · rcases List.mem_cons.1 h with rfl | h
      · exact .inl rfl
      · exact .inr (List.mem_cons_of_mem _ h)
    · rcases List.mem_cons.1 h with rfl | h
      · exact .inr List.mem_cons_self
      · exact (ih h).imp_right (List.mem_cons_of_mem _)

/-- What stands for a type by a primitive name refers to nothing. -/
theorem references_ofTable {w : World} {table : Table String} {overrides : Overrides}
    (h : ofTable w table = .ok overrides) : ∀ e ∈ overrides, e.2.references = [] := by
  have ofNames_references : ∀ (names : List (TypeExpr × String)) (acc out : Overrides),
      ofNames names acc = .ok out → (∀ e ∈ acc, e.2.references = []) →
      ∀ e ∈ out, e.2.references = [] := by
    intro names
    induction names with
    | nil => intro acc out h hacc; cases h; exact hacc
    | cons name names ih =>
      obtain ⟨t, name⟩ := name
      intro acc out h hacc
      obtain ⟨s, hs, h⟩ := except_bind_ok.1 h
      refine ih _ _ h fun e he => ?_
      rcases mem_insert he with rfl | he
      · exact Primitive.references_check hs
      · exact hacc e he
  obtain ⟨names, _, h⟩ := except_bind_ok.1 h
  exact ofNames_references names [] overrides h nofun

end Overrides

namespace Run

theorem settled_empty {overrides : Overrides} (h : ∀ e ∈ overrides, e.2.references = []) :
    Progress.Settled { registry := { overrides } } :=
  ⟨⟨h, nofun, nofun⟩, rfl, Document.complete_empty⟩

/-- A compilation that succeeds has scanned its targets in a fresh state with primitive overrides.
-/
theorem compileTargets_ok {w : World} {targets : List Target} {settings : Settings} {c : Compiled}
    {q : Progress} (h : compileTargets w targets settings {} = .ok c q) :
    ∃ overrides services r, Overrides.ofTable w settings.typeOverrides = .ok overrides ∧
      scanTargets w settings.includeHidden targets { registry := { overrides } } =
        .ok services r ∧
      c.document = r.document ∧ c.unresolved = r.document.unresolvedReferences := by
  obtain ⟨overrides, _, ho, h⟩ := bind_ok.1 h
  obtain ⟨hoverrides, rfl⟩ := ofExcept_ok.1 ho
  rw [bind_of_ok (onRegistry_apply _ _)] at h
  obtain ⟨services, r, hs, h⟩ := bind_ok.1 h
  obtain ⟨_, _, hg, h⟩ := bind_ok.1 h
  obtain ⟨rfl, rfl⟩ := get_ok.1 hg
  refine ⟨overrides, services, r, hoverrides, hs, ?_⟩
  split at h
  · obtain ⟨_, _, _, h⟩ := bind_ok.1 h
    obtain ⟨rfl, _⟩ := pure_ok.1 h
    exact ⟨rfl, rfl⟩
  · obtain ⟨rfl, _⟩ := pure_ok.1 h
    exact ⟨rfl, rfl⟩

end Run

/-- Whatever is compiled, the document is complete: every name that a definition, a parameter or a
response refers to is defined, and every required name is a property of its definition. -/
theorem World.compile_complete (w : World) (targets : List Target) (settings : Settings)
    {c : Compiled} {notices : List Notice} (h : w.compile targets settings = (.ok c, notices)) :
    c.document.unresolvedReferences = [] ∧ c.unresolved = [] ∧
      (∀ n ∈ c.document.references, c.document.definitions.has n) ∧
      ∀ e ∈ c.document.definitions, ∀ n ∈ e.2.required, Table.has e.2.properties n := by
  have hrun : ∃ q, Run.compileTargets w targets settings {} = .ok c q := by
    unfold World.compile at h
    cases hr : Run.compileTargets w targets settings {} with
    | ok c' q =>
      rw [hr] at h
      obtain rfl := Except.ok.inj (Prod.mk.inj h).1
      exact ⟨q, rfl⟩
    | error e q => rw [hr] at h; cases (Prod.mk.inj h).1
  obtain ⟨q, hq⟩ := hrun
  obtain ⟨overrides, services, r, ho, hs, hdocument, hunresolved⟩ := Run.compileTargets_ok hq
  have start := Run.settled_empty (Overrides.references_ofTable ho)
  have complete := (Run.scanTargets_settles hs start).settled.document
  rw [hdocument, hunresolved]
  exact ⟨complete.unresolvedReferences, complete.unresolvedReferences,
    complete.has_of_mem_references, complete.required⟩

/-- Two models that refer to each other and themselves, below a service that answers with one. -/
def World.mutualModels : World where
  decls := [
    .cls {
      name := "Node"
      qualname := "Node"
      above := [.builtin .object]
      annotations := [("next", .union [.declared 0, .noneType]), ("tree", .declared 1)] },
    .cls {
      name := "Tree"
      qualname := "Tree"
      above := [.builtin .object]
      annotations := [("nodes", .applied (.builtin .list) [.declared 0])] },
    .cls {
      name := "Trees"
      qualname := "Trees"
      above := [.builtin .object]
      service := some {}
      path := some "/trees"
      methods := [("first", {
        name := "first"
        marked := true
        operation := some { response := .declared 1 } })] }]
  names := [("Node", .declared 0), ("Tree", .declared 1), ("Trees", .declared 2)]

theorem World.compile_complete_mutualModels :
    ∃ c notices, mutualModels.compile [.type (.declared 2)] {} = (.ok c, notices) ∧
      c.document.references = ["app.Node", "app.Node", "app.Tree", "app.Tree"] ∧
      c.document.unresolvedReferences = [] ∧
      ∀ n ∈ c.document.references, c.document.definitions.has n := by
  have compiled : (match (mutualModels.compile [.type (.declared 2)] {}).1 with
      | .ok c => c.document.references
      | .error _ => []) = ["app.Node", "app.Node", "app.Tree", "app.Tree"] := by decide +kernel
  rcases h : mutualModels.compile [.type (.declared 2)] {} with ⟨result, notices⟩
  rw [h] at compiled
  cases result with
  | error e => cases compiled
  | ok c =>
    obtain ⟨unresolved, _, defined, _⟩ := World.compile_complete _ _ _ h
    exact ⟨c, notices, rfl, compiled, unresolved, defined⟩

end ApiCompiler
