import ApiCompiler.Proofs.Overriding
import ApiCompiler.Proofs.SuppliedValues
import ApiCompiler.Proofs.TargetOrder

/-!
# Printing what is compiled

Compiling does not ask whether its result can be written. A compiled document has a text in a format
unless one of its scalars has no form there, and such a scalar stands in one of the values that the
compilation was supplied with: listed by a type of a method that comes up, the default of one of its
arguments or implicit parameters, or part of a security definition. Decimal numbers are such values:
JSON text holds them, and YAML text does not.
-/

set_option autoImplicit false

namespace ApiCompiler

/-- The values that a compilation is supplied with: those of the methods that come up, and the
security definitions of the settings. -/
inductive World.Supplies (w : World) (o : Overrides) (targets : List Target)
    (settings : Settings) : Value → Prop
  | method {m : Method} {v : Value}
      (hm : w.ComesUp (w.IsTarget targets) settings.includeHidden m) (hv : w.SuppliedBy o m v) :
      Supplies w o targets settings v
  | security {e : String × List (Scalar × Value)} (he : e ∈ settings.securityDefinitions) :
      Supplies w o targets settings (.map e.2)

variable {given : Value → Prop}

namespace Route

theorem placeParameter_default (names : List String) (patterns : Table String) (x : Parameter) :
    (placeParameter names patterns x).default = x.default := by
  unfold placeParameter
  extract_lets x'
  have hx : x'.default = x.default := by
    by_cases h : x.location ≠ .body ∧ x.name ∈ names <;> simp [x', h]
  split
  · exact hx
  · exact hx

theorem reconcile_drawsOn {op : Operation} (h : ∀ x ∈ op.parameters, x.DrawsOn given)
    (template : String) (patterns : Table String) :
    ∀ x ∈ (reconcile op template patterns).parameters, x.DrawsOn given := by
  intro x hx
  rcases mem_reconcile_cases hx with ⟨y, hy, rfl⟩ | ⟨name, rfl⟩
  · obtain ⟨default, shape⟩ := h y hy
    rw [← placeParameter_default (Path.placeholders template) patterns y] at default
    rw [← placeParameter_shape (Path.placeholders template) patterns y] at shape
    exact ⟨default, shape⟩
  · exact ⟨nofun, .intro nofun nofun nofun nofun nofun⟩

theorem inheritInto_drawsOn {p : Parameter} (hp : p.DrawsOn given) {own : List Parameter}
    (h : ∀ x ∈ own, x.DrawsOn given) : ∀ x ∈ inheritInto p own, x.DrawsOn given := by
  induction own with
  | nil => exact List.forall_mem_singleton.2 hp
  | cons q own ih =>
    obtain ⟨first, rest⟩ := List.forall_mem_cons.1 h
    unfold inheritInto
    split
    · exact List.forall_mem_cons.2 ⟨⟨first.default, first.shape⟩, rest⟩
    · exact List.forall_mem_cons.2 ⟨first, ih rest⟩

theorem inherit_drawsOn {parameters : List Parameter} (hp : ∀ x ∈ parameters, x.DrawsOn given)
    {op : Operation} (h : ∀ x ∈ op.parameters, x.DrawsOn given) :
    ∀ x ∈ (inherit op parameters).parameters, x.DrawsOn given := by
  change ∀ x ∈ parameters.foldl (fun own p => inheritInto p own) op.parameters, x.DrawsOn given
  generalize op.parameters = own at h
  induction parameters generalizing own with
  | nil => exact h
  | cons p parameters ih =>
    obtain ⟨first, rest⟩ := List.forall_mem_cons.1 hp
    exact ih rest _ (inheritInto_drawsOn first h)

end Route

namespace Entry

variable {e : Entry}

theorem placed_drawsOn (h : e.built.DrawsOn given)
    (hd : ∀ x ∈ e.descent.parameters, x.DrawsOn given) : e.placed.DrawsOn given where
  parameters := by
    rw [placed, Run.placed_parameters]
    exact Route.inherit_drawsOn hd (Route.reconcile_drawsOn h.parameters _ _)
  responses := by
    rw [placed, Run.placed_responses]
    exact h.responses

theorem operation_drawsOn (h : e.placed.DrawsOn given) : e.operation.DrawsOn given where
  parameters := by
    rw [operation, Run.completed_parameters]
    exact h.parameters
  responses := by
    rw [operation, Run.completed_responses]
    exact h.responses

end Entry

namespace Run

variable {w : World} {o : Overrides} {p q : Progress}

theorem store_drawsOn {e : Entry} (hp : p.DrawsOn given o) (he : e.operation.DrawsOn given)
    (h : e.store p = .ok () q) : q.DrawsOn given o := by
  obtain ⟨q', hq, hregistry, _, hdefinitions, hpaths⟩ := store_ok e.template.text e.method.verb
    (e.info.tags ++ e.descent.tags) e.operation p
  obtain rfl := (EStateM.Result.ok.inj (hq.symm.trans h)).2
  refine ⟨hregistry ▸ hp.overrides, hp.named, hregistry ▸ hp.models, ?_, fun x hx => ?_⟩
  · rw [hdefinitions]
    exact hp.document.definitions
  · have hx : x ∈ (p.document.addOperation e.template.text e.method.verb
        e.operation).1.operations := by
      unfold Document.operations at hx ⊢
      rw [← hpaths]
      exact hx
    rcases Document.mem_operations_addOperation hx with rfl | hx
    · exact he
    · exact hp.document.operations x hx

theorem load_drawsOn {t : TypeExpr} {s : Service} (hp : p.DrawsOn given o)
    (h : load w t p = .ok s q) : q.DrawsOn given o := by
  obtain ⟨_, rfl⟩ := load_ok h
  exact hp.of_eq rfl rfl

/-- A scan leaves given values only, if that is so of the parameters that it passes down and of what
the methods that come up in it supply. -/
theorem scans_drawsOn {s : Service} {d : Descent} {above : List Entry} {ms : List Method}
    {visits : List Visit} (h : Scans w s d above ms p visits q)
    (hs : w.loadService s.type = .ok s) (hms : ∀ m ∈ ms, m ∈ s.methods)
    (supplied : ∀ m, w.Scanned s.type m → ∀ v, w.SuppliedBy o m v → given v)
    (hd : ∀ x ∈ d.parameters, x.DrawsOn given) (hp : p.DrawsOn given o) :
    q.DrawsOn given o := by
  induction h with
  | nil => exact hp
  | unexposed _ _ _ ih =>
    exact ih hs (fun m hm => hms m (List.mem_cons_of_mem _ hm)) supplied hd
      (hp.of_eq rfl rfl)
  | hidden _ _ hb _ ih =>
    rw [build_of_hidden (build_hidden hb)] at hb
    cases hb
    exact ih hs (fun m hm => hms m (List.mem_cons_of_mem _ hm)) supplied hd hp
  | @operation e above ms p q r r' visits ht hi hb _ hst _ ih =>
    have hm := hms e.method List.mem_cons_self
    have own := supplied _ ⟨_, _, .refl, hs, hm, exposes_of_build ht hi hb⟩
    obtain ⟨hr, built⟩ := build_delivers own hp hb
    have placed := Entry.placed_drawsOn (built _ rfl) hd
    have stored := store_drawsOn hr (Entry.operation_drawsOn placed) hst
    exact ih hs (fun m hm => hms m (List.mem_cons_of_mem _ hm)) supplied hd stored
  | @locator e above ms p q r r₁ r₂ r₃ nested visits t sub ht hi hb hs' hl _ _ hst _ ihInner
      ihRest =>
    have hm := hms e.method List.mem_cons_self
    have exposed := exposes_of_build ht hi hb
    obtain ⟨hr, built⟩ := build_delivers (supplied _ ⟨_, _, .refl, hs, hm, exposed⟩) hp hb
    have placed := Entry.placed_drawsOn (built _ rfl) hd
    have hsub := World.loadService_type (load_ok hl).1
    have edge : w.Edge e.service.type sub.type := by
      rw [(World.loadService_ok (load_ok hl).1).1]
      exact World.edge_of_subResource hs hm exposed hs'
    have below : ∀ m, w.Scanned sub.type m → ∀ v, w.SuppliedBy o m v → given v := by
      rintro m ⟨u, s', reached, found⟩
      exact supplied m ⟨u, s', reached.head edge, found⟩
    have loaded := load_drawsOn hr hl
    have inner := ihInner hsub (fun _ h => h) below placed.parameters
      (loaded.of_eq rfl rfl)
    have left : r₂.leave.DrawsOn given o := inner.of_eq rfl rfl
    have stored := store_drawsOn left (Entry.operation_drawsOn placed) hst
    exact ihRest hs (fun m hm => hms m (List.mem_cons_of_mem _ hm)) supplied hd stored

theorem read_drawsOn {t : TypeExpr} {includeHidden : Bool} {u : Unit}
    (supplied : ∀ m, w.ComesUp (· = t) includeHidden m → ∀ v, w.SuppliedBy o m v → given v)
    (hp : p.DrawsOn given o) (h : read w t includeHidden p = .ok u q) : q.DrawsOn given o := by
  obtain ⟨visits, reads⟩ := reads_of_ok h
  cases reads with
  | skipped hl _ =>
    have loaded := load_drawsOn hp hl
    exact loaded.of_eq rfl rfl
  | @scanned s r r' visits hl hskips trace =>
    have found := (load_ok hl).1
    have loaded := load_drawsOn hp hl
    have below : ∀ m, w.Scanned s.type m → ∀ v, w.SuppliedBy o m v → given v := by
      intro m hm
      rw [(World.loadService_ok found).1] at hm
      exact supplied m ⟨t, s, rfl, found, hskips, hm⟩
    have scanned := scans_drawsOn trace (World.loadService_type found) (fun _ h => h) below nofun
      (loaded.of_eq rfl rfl)
    exact scanned.of_eq rfl rfl

theorem scanTargets_drawsOn {includeHidden : Bool} {targets : List Target} {names : List String}
    (supplied : ∀ m, w.ComesUp (w.IsTarget targets) includeHidden m →
      ∀ v, w.SuppliedBy o m v → given v)
    (hp : p.DrawsOn given o) (h : scanTargets w includeHidden targets p = .ok names q) :
    q.DrawsOn given o := by
  induction targets generalizing p names with
  | nil =>
    obtain ⟨_, rfl⟩ := pure_ok.1 h
    exact hp
  | cons target targets ih =>
    obtain ⟨t, r, ht, h⟩ := bind_ok.1 h
    obtain ⟨htype, rfl⟩ := ofExcept_ok.1 ht
    rw [bind_of_ok (report_apply _ p)] at h
    obtain ⟨_, r₂, hread, h⟩ := bind_ok.1 h
    obtain ⟨name, r₃, hname, h⟩ := bind_ok.1 h
    obtain ⟨_, rfl⟩ := ofExcept_ok.1 hname
    obtain ⟨rest, r₄, hrest, h⟩ := bind_ok.1 h
    obtain ⟨_, rfl⟩ := pure_ok.1 h
    have reported : Progress.DrawsOn given o
        { p with notices := .scanning (w.shown t) :: p.notices } := hp.of_eq rfl rfl
    have first := read_drawsOn (fun m hm => supplied m (hm.mono fun u hu =>
      ⟨target, List.mem_cons_self, hu ▸ htype⟩)) reported hread
    refine ih (fun m hm => supplied m (hm.mono fun u hu => ?_)) first hrest
    obtain ⟨target', hmem, hu⟩ := hu
    exact ⟨target', List.mem_cons_of_mem _ hmem, hu⟩

/-- What a compilation returns is its document, rendered. -/
theorem compileTargets_rendered {targets : List Target} {settings : Settings} {c : Compiled}
    (h : compileTargets w targets settings p = .ok c q) :
    c.rendered = Swagger.render c.document settings := by
  obtain ⟨overrides, _, _, h⟩ := bind_ok.1 h
  rw [bind_of_ok (onRegistry_apply _ _)] at h
  obtain ⟨services, r, _, h⟩ := bind_ok.1 h
  rw [bind_of_ok (get_apply r)] at h
  split at h
  · obtain ⟨_, _, _, h⟩ := bind_ok.1 h
    obtain ⟨rfl, _⟩ := pure_ok.1 h
    rfl
  · obtain ⟨rfl, _⟩ := pure_ok.1 h
    rfl

end Run

namespace World

variable {w : World} {targets : List Target} {settings : Settings} {c : Compiled}

theorem compile_rendered (h : (w.compile targets settings).1 = .ok c) :
    c.rendered = Swagger.render c.document settings := by
  unfold compile at h
  cases hr : Run.compileTargets w targets settings {} with
  | error e q => rw [hr] at h; cases h
  | ok c' q =>
    rw [hr] at h
    obtain rfl := Except.ok.inj h
    exact Run.compileTargets_rendered hr

theorem drawsOn_empty {o : Overrides} (ho : Overrides.ofTable w settings.typeOverrides = .ok o) :
    Progress.DrawsOn given o { registry := { overrides := o } } := by
  obtain ⟨entries, _, made⟩ := except_bind_ok.1 ho
  refine ⟨rfl, fun e he => ?_, nofun, ⟨nofun, nofun⟩⟩
  obtain ⟨name, hname⟩ := Overrides.find_of_ofNames made he
  exact Primitive.drawsOn_find hname

/-- The values of a compiled document are among those that the compilation was supplied with. -/
theorem compile_supplied (h : (w.compile targets settings).1 = .ok c) :
    ∃ o, Overrides.ofTable w settings.typeOverrides = .ok o ∧
      c.rendered.MadeFrom (w.Supplies o targets settings) := by
  obtain ⟨o, names, r, ho, hs, document⟩ := compile_ok h
  have supplied : ∀ m, w.ComesUp (w.IsTarget targets) settings.includeHidden m →
      ∀ v, w.SuppliedBy o m v → w.Supplies o targets settings v :=
    fun _ hm _ hv => .method hm hv
  have scanned := Run.scanTargets_drawsOn supplied (drawsOn_empty ho) hs
  refine ⟨o, ho, ?_⟩
  rw [compile_rendered h, document]
  exact Swagger.render_madeFrom scanned.document fun _ he => .security he

/-- Whatever is compiled, and in either format: the result has a text exactly when each of its
scalars has a form where it stands, and otherwise it is refused as one of the values is that the
compilation was supplied with. -/
theorem compile_prints (h : (w.compile targets settings).1 = .ok c) :
    ∃ o, Overrides.ofTable w settings.typeOverrides = .ok o ∧ ∀ format : TextFormat,
      ((∃ text, format.print c.rendered = .ok text) ↔
        ∀ x ∈ c.rendered.scalars, format.refusal? x = none) ∧
      ∀ e, format.print c.rendered = .error e →
        ∃ v, w.Supplies o targets settings v ∧ format.print v = .error e := by
  obtain ⟨o, ho, made⟩ := compile_supplied h
  refine ⟨o, ho, fun format => ⟨TextFormat.print_ok_iff, fun e refused => ?_⟩⟩
  exact TextFormat.exists_given_of_print_error made refused

/-- A service that answers with one of its prices, which are decimal numbers. -/
def prices : World where
  decls := [
    .cls {
      name := "Price"
      qualname := "Price"
      kind := .enumeration .plain
      above := [.builtin .object]
      enumValues := [.scalar (.decimal ⟨false, 150, -2⟩), .scalar (.decimal ⟨false, 9, 0⟩)] },
    .cls {
      name := "Prices"
      qualname := "Prices"
      above := [.builtin .object]
      service := some {}
      path := some "/prices"
      methods := [("cheapest", {
        name := "cheapest"
        marked := true
        operation := some { response := .declared 0 } })] }]
  names := [("Price", .declared 0), ("Prices", .declared 1)]

/-- The prices are compiled and have a JSON text. YAML text does not hold them, since it holds no
decimal number that the service was declared with. -/
theorem compile_prints_prices :
    ∃ c, (prices.compile [.type (.declared 1)] {}).1 = .ok c ∧
      (∃ text, TextFormat.json.print c.rendered = .ok text) ∧
      TextFormat.yaml.print c.rendered = .error .malformedYaml ∧
      ∃ o v, prices.Supplies o [.type (.declared 1)] {} v ∧
        TextFormat.yaml.print v = .error .malformedYaml := by
  have compiled : (match (prices.compile [.type (.declared 1)] {}).1 with
      | .ok c => c.rendered.scalars.all (fun x => (TextFormat.json.refusal? x).isNone) &&
          decide (TextFormat.yaml.refuses? c.rendered = some .malformedYaml)
      | .error _ => false) = true := by decide +kernel
  cases h : (prices.compile [.type (.declared 1)] {}).1 with
  | error e => rw [h] at compiled; cases compiled
  | ok c =>
    rw [h] at compiled
    obtain ⟨accepted, refused⟩ := Bool.and_eq_true_iff.1 compiled
    have refused := TextFormat.print_error_iff.2 (of_decide_eq_true refused)
    obtain ⟨o, _, prints⟩ := compile_prints h
    have text := (prints .json).1.2 fun x hx =>
      Option.isNone_iff_eq_none.1 (List.all_eq_true.1 accepted x hx)
    exact ⟨c, rfl, text, refused, o, (prints .yaml).2 _ refused⟩

/-- What is compiled does not always have a text in both formats. -/
theorem not_all_print : ¬ ∀ (w : World) (targets : List Target) (settings : Settings) (c : Compiled),
    (w.compile targets settings).1 = .ok c →
      ∀ format : TextFormat, ∃ text, format.print c.rendered = .ok text := by
  intro all
  have refused : (match (prices.compile [.type (.declared 1)] {}).1 with
      | .ok c => !(TextFormat.yaml.print c.rendered).isOk
      | .error _ => false) = true := by decide +kernel
  cases h : (prices.compile [.type (.declared 1)] {}).1 with
  | error e => rw [h] at refused; cases refused
  | ok c =>
    obtain ⟨text, printed⟩ := all _ _ _ c h .yaml
    rw [h] at refused
    simp only [printed] at refused
    cases refused

end World

end ApiCompiler
