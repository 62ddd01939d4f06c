import Mathlib.Data.List.Nodup
import ApiCompiler.Proofs.Inheritance
import ApiCompiler.Proofs.ScanFrames

/-!
# Parameters and placeholders

A stored operation has a required path parameter for every placeholder of its path, and exactly one
when no method declares a name twice. Both are true of an operation when it is stored, however deep
it stands: reconciling it with its template adds what is missing and makes required what is there,
and neither this nor taking over parameters from above adds a parameter under a name and location
that is taken already.
-/

set_option autoImplicit false

namespace ApiCompiler

/-- A parameter is identified by its name and location. -/
def Parameter.key (x : Parameter) : String × Location := (x.name, x.location)

namespace Operation

/-- No two parameters have the same name and location. -/
def DistinctParameters (op : Operation) : Prop := (op.parameters.map Parameter.key).Nodup

/-- There is a required path parameter of that name. -/
def Fills (op : Operation) (name : String) : Prop :=
  ∃ x ∈ op.parameters, x.name = name ∧ x.location = .path ∧ x.required = true

/-- How many path parameters of that name there are. -/
def countPath (op : Operation) (name : String) : Nat :=
  op.parameters.countP fun x => x.name = name ∧ x.location = .path

/-- Where a path parameter has one of the names, it is required. -/
def RequiresPath (op : Operation) (names : List String) : Prop :=
  ∀ x ∈ op.parameters, x.location = .path → x.name ∈ names → x.required = true

theorem countPath_eq_count (op : Operation) (name : String) :
    op.countPath name = (op.parameters.map Parameter.key).count (name, .path) := by
  rw [countPath, List.count, List.countP_map]
  congr 1
  funext x
  rw [Bool.eq_iff_iff]
  simp [Parameter.key]

theorem countPath_of_distinct {op : Operation} (h : op.DistinctParameters) {name : String}
    (hf : op.Fills name) : op.countPath name = 1 := by
  obtain ⟨x, hx, hname, hpath, _⟩ := hf
  have hkey : (name, Location.path) ∈ op.parameters.map Parameter.key :=
    List.mem_map.2 ⟨x, hx, Prod.ext hname hpath⟩
  rw [countPath_eq_count]
  exact List.count_eq_one_of_mem h hkey

/-- Only the parameters matter. -/
theorem Fills.of_parameters {op op' : Operation} (h : op'.parameters = op.parameters)
    {name : String} (hf : op.Fills name) : op'.Fills name := by
  unfold Fills
  rw [h]
  exact hf

theorem DistinctParameters.of_parameters {op op' : Operation} (h : op'.parameters = op.parameters)
    (hd : op.DistinctParameters) : op'.DistinctParameters := by
  unfold DistinctParameters
  rw [h]
  exact hd

end Operation

namespace Route

/-! ### Taking over parameters from above -/

theorem keys_inheritInto (z : Parameter) (own : List Parameter) :
    (inheritInto z own).map Parameter.key =
      if z.key ∈ own.map Parameter.key then own.map Parameter.key
      else own.map Parameter.key ++ [z.key] := by
  induction own with
  | nil => rfl
  | cons y own ih =>
    unfold inheritInto
    by_cases h : sameParameter y z = true
    · have hkey : z.key = y.key := by
        obtain ⟨hname, hloc⟩ := sameParameter_iff.1 h
        exact Prod.ext hname.symm hloc.symm
      have hmem : z.key ∈ (y :: own).map Parameter.key := by
        rw [hkey]
        exact List.mem_cons_self
      rw [if_pos h, if_pos hmem]
      rfl
    · have hkey : z.key ≠ y.key := fun he =>
        h (sameParameter_iff.2 ⟨(Prod.mk.inj he).1.symm, (Prod.mk.inj he).2.symm⟩)
      rw [if_neg h, List.map_cons, ih, List.map_cons]
      by_cases hmem : z.key ∈ own.map Parameter.key
      · rw [if_pos hmem, if_pos (List.mem_cons_of_mem _ hmem)]
      · have hnot : z.key ∉ y.key :: own.map Parameter.key := by
          simp [hkey, hmem]
        rw [if_neg hmem, if_neg hnot]
        rfl

theorem nodup_inheritInto {z : Parameter} {own : List Parameter}
    (h : (own.map Parameter.key).Nodup) : ((inheritInto z own).map Parameter.key).Nodup := by
  rw [keys_inheritInto]
  by_cases hmem : z.key ∈ own.map Parameter.key
  · rw [if_pos hmem]
    exact h
  · rw [if_neg hmem, ← List.concat_eq_append]
    exact h.concat hmem

/-- Whatever comes from above, the parameters stay distinct. -/
theorem inherit_distinct {op : Operation} (h : op.DistinctParameters)
    (parameters : List Parameter) : (inherit op parameters).DistinctParameters := by
  show ((parameters.foldl (fun own z => inheritInto z own) op.parameters).map Parameter.key).Nodup
  have hown : (op.parameters.map Parameter.key).Nodup := h
  generalize op.parameters = own at hown
  induction parameters generalizing own with
  | nil => exact hown
  | cons z parameters ih => exact ih _ (nodup_inheritInto hown)

/-- Completing a parameter changes neither where it is sent nor its shape. -/
theorem exists_mem_inheritInto {x z : Parameter} {own : List Parameter} (hx : x ∈ own) :
    ∃ y ∈ inheritInto z own, y.name = x.name ∧ y.location = x.location ∧
      y.required = x.required ∧ y.shape = x.shape := by
  induction own with
  | nil => cases hx
  | cons y own ih =>
    unfold inheritInto
    by_cases h : sameParameter y z = true
    · rw [if_pos h]
      rcases List.mem_cons.1 hx with rfl | hx
      · exact ⟨complete x z, List.mem_cons_self, rfl, rfl, rfl, rfl⟩
      · exact ⟨x, List.mem_cons_of_mem _ hx, rfl, rfl, rfl, rfl⟩
    · rw [if_neg h]
      rcases List.mem_cons.1 hx with rfl | hx
      · exact ⟨x, List.mem_cons_self, rfl, rfl, rfl, rfl⟩
      · obtain ⟨y', hy', hsame⟩ := ih hx
        exact ⟨y', List.mem_cons_of_mem _ hy', hsame⟩

theorem exists_mem_inherit {op : Operation} {x : Parameter} (hx : x ∈ op.parameters)
    (parameters : List Parameter) :
    ∃ y ∈ (inherit op parameters).parameters, y.name = x.name ∧ y.location = x.location ∧
      y.required = x.required ∧ y.shape = x.shape := by
  show ∃ y ∈ parameters.foldl (fun own z => inheritInto z own) op.parameters,
    y.name = x.name ∧ y.location = x.location ∧ y.required = x.required ∧ y.shape = x.shape
  generalize op.parameters = own at hx
  induction parameters generalizing x own with
  | nil => exact ⟨x, hx, rfl, rfl, rfl, rfl⟩
  | cons z parameters ih =>
    obtain ⟨y, hy, hname, hloc, hreq, hshape⟩ := exists_mem_inheritInto (z := z) hx
    obtain ⟨y', hy', hname', hloc', hreq', hshape'⟩ := ih _ hy
    exact ⟨y', hy', hname'.trans hname, hloc'.trans hloc, hreq'.trans hreq,
      hshape'.trans hshape⟩

theorem inherit_fills {op : Operation} {name : String} (h : op.Fills name)
    (parameters : List Parameter) : (inherit op parameters).Fills name := by
  obtain ⟨x, hx, hname, hpath, hreq⟩ := h
  obtain ⟨y, hy, hname', hpath', hreq', _⟩ := exists_mem_inherit hx parameters
  exact ⟨y, hy, hname'.trans hname, hpath'.trans hpath, hreq'.trans hreq⟩

/-! ### Reconciling with the template -/

/-- A parameter that stands in the path under the name of a placeholder has been made required. -/
theorem placeParameter_required {names : List String} {patterns : Table String} {y : Parameter}
    (hpath : (placeParameter names patterns y).location = .path) (hname : y.name ∈ names) :
    (placeParameter names patterns y).required = true := by
  have hbody : y.location ≠ .body := by
    intro h
    rw [placeParameter_body names patterns h] at hpath
    cases hpath
  unfold placeParameter
  rw [if_pos ⟨hbody, hname⟩]
  dsimp only
  split <;> rfl

theorem addPlaceholder_requires {op : Operation} {names : List String}
    (h : op.RequiresPath names) (patterns : Table String) (name : String) :
    (addPlaceholder patterns op name).RequiresPath names := by
  unfold addPlaceholder
  split
  · exact h
  · intro x hx hpath hname
    rcases List.mem_append.1 hx with hx | hx
    · exact h x hx hpath hname
    · rw [List.mem_singleton.1 hx]
      rfl

theorem addPlaceholders_requires {names : List String} (patterns : Table String)
    (rest : List String) {op : Operation} (h : op.RequiresPath names) :
    (rest.foldl (addPlaceholder patterns) op).RequiresPath names := by
  induction rest generalizing op with
  | nil => exact h
  | cons name rest ih => exact ih (addPlaceholder_requires h patterns name)

theorem reconcile_requires (op : Operation) (template : String) (patterns : Table String) :
    (reconcile op template patterns).RequiresPath (Path.placeholders template) := by
  refine addPlaceholders_requires patterns _ ?_
  intro x hx hpath hname
  obtain ⟨y, _, rfl⟩ := List.mem_map.1 hx
  rw [placeParameter_name] at hname
  exact placeParameter_required hpath hname

theorem reconcile_fills (op : Operation) {template name : String}
    (h : name ∈ Path.placeholders template) (patterns : Table String) :
    (reconcile op template patterns).Fills name := by
  have found := contents_reconcile_ne_nil (x := { name, location := .path }) rfl op h patterns
  obtain ⟨c, hc⟩ := List.exists_mem_of_ne_nil _ found
  obtain ⟨x, hx, hname, hpath, _⟩ := mem_contents.1 hc
  have hmem : x.name ∈ Path.placeholders template := by
    rw [hname]
    exact h
  exact ⟨x, hx, hname, hpath, reconcile_requires op template patterns x hx hpath hmem⟩

theorem addPlaceholder_distinct {op : Operation} (h : op.DistinctParameters)
    (patterns : Table String) (name : String) :
    (addPlaceholder patterns op name).DistinctParameters := by
  unfold addPlaceholder
  split
  · exact h
  · rename_i has
    have new : (name, Location.path) ∉ op.parameters.map Parameter.key := by
      intro hmem
      obtain ⟨x, hx, hkey⟩ := List.mem_map.1 hmem
      obtain ⟨hname, hpath⟩ := Prod.mk.inj hkey
      exact has (List.any_eq_true.2 ⟨x, hx, by simp [hname, hpath]⟩)
    show ((op.parameters ++ [_]).map Parameter.key).Nodup
    rw [List.map_append, List.map_singleton, ← List.concat_eq_append]
    exact List.Nodup.concat new h

theorem addPlaceholders_distinct (patterns : Table String) (rest : List String) {op : Operation}
    (h : op.DistinctParameters) :
    (rest.foldl (addPlaceholder patterns) op).DistinctParameters := by
  induction rest generalizing op with
  | nil => exact h
  | cons name rest ih => exact ih (addPlaceholder_distinct h patterns name)

/-- With distinct names, no two parameters meet in the path when they are moved there. -/
theorem reconcile_distinct {op : Operation} (h : (op.parameters.map Parameter.name).Nodup)
    (template : String) (patterns : Table String) :
    (reconcile op template patterns).DistinctParameters := by
  refine addPlaceholders_distinct patterns _ (List.Nodup.of_map Prod.fst ?_)
  rw [List.map_map, List.map_map]
  have hnames : op.parameters.map ((Prod.fst ∘ Parameter.key) ∘
      placeParameter (Path.placeholders template) patterns) = op.parameters.map Parameter.name :=
    List.map_congr_left fun y _ => placeParameter_name _ _ y
  rw [hnames]
  exact h

end Route

/-! ### Own parameters -/

/-- No name is declared twice, neither for arguments nor in the table of implicit parameters. -/
def Method.DeclaresDistinct (m : Method) : Prop :=
  (m.requestArguments.filterMap Argument.parameterName?).Nodup ∧
    (m.decl.implicitParams.map ImplicitParam.name).Nodup

/-- No method of a service declares a name twice. -/
def World.DeclaresDistinct (w : World) : Prop :=
  ∀ t s, w.loadService t = .ok s → ∀ m ∈ s.methods, m.DeclaresDistinct

namespace Run

variable {w : World} {p q : Progress}

theorem names_implicitForms (is : List ImplicitParam) :
    ((is.filterMap ImplicitParam.form?).map Parameter.name).Sublist
      (is.map ImplicitParam.name) := by
  induction is with
  | nil => exact .slnil
  | cons i is ih =>
    rw [List.filterMap_cons, List.map_cons]
    cases form : i.form? with
    | none => exact ih.cons _
    | some x =>
      rw [List.map_cons, (ImplicitParam.sentAs_of_form form).name]
      exact ih.cons_cons _

/-- In each of the forms of a request, the parameters have distinct names. -/
theorem classify_nodup {m : Method} {xs : List Parameter} (h : classify w m p = .ok xs q)
    (hm : m.DeclaresDistinct) : (xs.map Parameter.name).Nodup := by
  cases classify_ok h with
  | body _ => exact List.nodup_singleton _
  | form _ origins _ =>
    rw [names_argumentForms, origins]
    exact hm.1
  | folded _ _ => exact List.nodup_singleton _
  | entries _ _ => exact hm.2.sublist (names_implicitForms _)

end Run

/-! ### Stored operations -/

namespace Entry

variable {w : World} {e : Entry}

theorem operation_parameters (e : Entry) : e.operation.parameters = e.placed.parameters :=
  Run.completed_parameters _ _ _ _

theorem operation_fills {name : String} (h : name ∈ Path.placeholders e.template.text) :
    e.operation.Fills name := by
  have own := Route.reconcile_fills e.built h e.template.patterns
  have placed : e.placed.Fills name :=
    (Route.inherit_fills own e.descent.parameters).of_parameters (Run.placed_parameters _ _ _ _)
  exact placed.of_parameters e.operation_parameters

theorem operation_distinct (he : e.Arises w) (hm : e.method.DeclaresDistinct) :
    e.operation.DistinctParameters := by
  obtain ⟨p, q, hb⟩ := he.built
  obtain ⟨r, hc⟩ := Run.build_classify hb
  have own := Route.reconcile_distinct (Run.classify_nodup hc hm) e.template.text
    e.template.patterns
  have placed : e.placed.DistinctParameters :=
    (Route.inherit_distinct own e.descent.parameters).of_parameters
      (Run.placed_parameters _ _ _ _)
  exact placed.of_parameters e.operation_parameters

end Entry

/-- After any reads, failing ones among them, every operation has a required path parameter for each
placeholder of its path; and if no method declares a name twice, no two parameters of an operation
have the same name and location, so that there is one path parameter for each placeholder. -/
theorem Run.afterReads_placeholders {w : World} {p : Progress}
    (fresh : p.document.operations = []) (reads : List (TypeExpr × Bool)) :
    (∀ o ∈ (afterReads w reads p).document.operations, ∀ name ∈ Path.placeholders o.1,
      o.2.2.Fills name) ∧
    (w.DeclaresDistinct → ∀ o ∈ (afterReads w reads p).document.operations,
      o.2.2.DistinctParameters ∧ ∀ name ∈ Path.placeholders o.1, o.2.2.countPath name = 1) := by
  have stored {P : String × String × Operation → Prop}
      (h : ∀ e : Entry, e.Arises w → P e.slotted) :
      ∀ o ∈ (afterReads w reads p).document.operations, P o := by
    apply afterReads_keeps (allowsScanning_of_stored h) reads p
    rw [fresh]
    exact fun o ho => absurd ho List.not_mem_nil
  constructor
  · exact stored fun e _ name hname => e.operation_fills hname
  · intro hw
    refine stored fun e he => ?_
    obtain ⟨t, ht⟩ := he.loaded
    have distinct : e.operation.DistinctParameters :=
      Entry.operation_distinct he (hw t e.service ht e.method he.method)
    constructor
    · exact distinct
    · exact fun name hname => Operation.countPath_of_distinct distinct (e.operation_fills hname)

/-- The services of a world with two declarations are loaded from them. -/
theorem World.accounts_declaresDistinct : World.accounts.DeclaresDistinct := by
  intro t s hs m hm
  have distinct : ∀ i < 2, ∀ s, World.accounts.loadService (.declared i) = .ok s →
      ∀ m ∈ s.methods, m.DeclaresDistinct := by
    intro i hi s hs m hm
    have names : (World.accounts.loadService (.declared i)).toOption.all (fun s =>
        s.methods.all fun m =>
          decide (m.requestArguments.filterMap Argument.parameterName?).Nodup &&
            decide (m.decl.implicitParams.map ImplicitParam.name).Nodup) = true := by
      have cases : i = 0 ∨ i = 1 := by omega
      rcases cases with rfl | rfl <;> decide +kernel
    rw [hs] at names
    have hm := List.all_eq_true.1 names m hm
    simp only [Bool.and_eq_true, decide_eq_true_eq] at hm
    exact hm
  obtain ⟨i, htype, hi⟩ := World.loadService_declared hs
  have ht : t = .declared i := (World.loadService_ok hs).1.symm.trans htype
  rw [ht] at hs
  exact distinct i hi s hs m hm

/-- Two services are read around something that is none: the id of a user is the one path parameter
of both operations below it. -/
theorem Run.afterReads_placeholders_accounts :
    ∃ q, q = afterReads World.accounts [(.declared 0, false), (.builtin .int, false),
        (.declared 1, false)] {} ∧
      q.document.operations.map (fun o => (o.1, Path.placeholders o.1)) =
        [("/posts", []), ("/users/{id}/posts", ["id"]), ("/users/{id}", ["id"])] ∧
      (∀ o ∈ q.document.operations, ∀ name ∈ Path.placeholders o.1, o.2.2.Fills name) ∧
      ∀ o ∈ q.document.operations, o.2.2.DistinctParameters ∧
        ∀ name ∈ Path.placeholders o.1, o.2.2.countPath name = 1 := by
  have main := afterReads_placeholders (w := World.accounts) (p := {}) rfl
    [(.declared 0, false), (.builtin .int, false), (.declared 1, false)]
  refine ⟨_, rfl, by decide +kernel, main.1, main.2 World.accounts_declaresDistinct⟩

end ApiCompiler
