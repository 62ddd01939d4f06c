import ApiCompiler.Compilation.Build
import ApiCompiler.Proofs.Completeness

/-!
# Own parameters of a method

Besides bodies, which are named after models, a built operation has only parameters that its method
declares: for an argument with metadata, for an argument of the creator of its request type, or in
the table of implicit parameters. Parameters that a route adds are not looked at here.
-/

set_option autoImplicit false

namespace ApiCompiler

/-- The names of the parameters that a method declares. -/
def Method.declaredNames (m : Method) : List String :=
  m.requestArguments.filterMap Argument.parameterName? ++
    m.decl.implicitParams.map ImplicitParam.name

/-- The method sends the table of implicit parameters: its request starts with a raw one. -/
structure Method.SendsImplicit (m : Method) : Prop where
  element : m.requestElement = none
  raw : ∃ first rest, m.requestArguments = first :: rest ∧ first.param = none ∧
    first.requestHandle = true

/-- The ways of sending a request: as a body, as a form of its arguments, or by the table of
implicit parameters, which is folded into a body as well when it has an object. -/
inductive Method.Classified (m : Method) : List Parameter → Prop
  | body {name : String} (other : ¬ m.SendsImplicit) : Classified m [Run.bodyParameter name]
  | form {shaped : List (Argument × Schema)} (other : ¬ m.SendsImplicit)
      (origins : shaped.map Prod.fst = m.requestArguments)
      (simple : ∀ e ∈ shaped, e.2.isSimple = true) : Classified m (Run.argumentForms shaped)
  | folded (implicit : m.SendsImplicit)
      (object : ∃ i ∈ m.decl.implicitParams, i.typeName = "object") :
      Classified m [Run.bodyParameter m.place]
  | entries (implicit : m.SendsImplicit)
      (unfolded : ∀ i ∈ m.decl.implicitParams, i.typeName ≠ "object") :
      Classified m (m.decl.implicitParams.filterMap ImplicitParam.form?)

namespace Run

variable {w : World} {m : Method} {xs : List Parameter} {p q : Progress}

theorem resolveArguments_arguments {arguments : List Argument} :
    ∀ {p q : Progress} {shaped : List (Argument × Schema)},
      resolveArguments w arguments p = .ok shaped q → shaped.map Prod.fst = arguments := by
  induction arguments with
  | nil => intro p q shaped h; cases h; rfl
  | cons a rest ih =>
    intro p q shaped h
    obtain ⟨s, r, _, h⟩ := bind_ok.1 h
    obtain ⟨more, r', hm, h⟩ := bind_ok.1 h
    obtain ⟨rfl, _⟩ := pure_ok.1 h
    rw [List.map_cons, ih hm]

theorem tokenBody_parameter {element : TypeExpr} {x : Parameter}
    (h : tokenBody w m element p = .ok x q) : x = bodyParameter m.identifier := by
  obtain ⟨s, r, _, h⟩ := bind_ok.1 h
  generalize s.kind = kind at h
  generalize s.items = items at h
  split at h
  · obtain ⟨_, _, _, h⟩ := bind_ok.1 h
    obtain ⟨_, _, _, h⟩ := bind_ok.1 h
    obtain ⟨rfl, _⟩ := pure_ok.1 h
    rfl
  · cases h

theorem objectBody_parameter {arguments : List (Argument × Schema)} {name reference : String}
    {x : Parameter} (h : objectBody arguments name reference p = .ok x q) :
    x = bodyParameter name := by
  obtain ⟨_, _, _, h⟩ := bind_ok.1 h
  obtain ⟨_, _, _, h⟩ := bind_ok.1 h
  obtain ⟨rfl, _⟩ := pure_ok.1 h
  rfl

/-- The parameters of a method have been sent in one of the ways that there are. -/
theorem classify_ok (h : classify w m p = .ok xs q) : m.Classified xs := by
  unfold classify at h
  cases element : m.requestElement with
  | some e =>
    rw [element] at h
    obtain ⟨x, _, hx, h⟩ := bind_ok.1 h
    obtain ⟨rfl, _⟩ := pure_ok.1 h
    rw [tokenBody_parameter hx]
    exact .body fun implicit => by cases element.symm.trans implicit.element
  | none =>
    rw [element] at h
    obtain ⟨⟨arguments, name, reference⟩, _, hc, h⟩ := bind_ok.1 h
    have given : arguments = m.requestArguments := (candidates_ok hc).2
    cases arguments with
    | nil =>
      obtain ⟨rfl, _⟩ := pure_ok.1 h
      have other : ¬ m.SendsImplicit := by
        rintro ⟨_, first, rest, given', _⟩
        cases given.trans given'
      show m.Classified (argumentForms [])
      exact .form other given nofun
    | cons first rest =>
      simp only at h
      split at h
      · rename_i annotated
        have other : ¬ m.SendsImplicit := by
          rintro ⟨_, first', rest', given', bare, _⟩
          obtain rfl := (List.cons.inj (given.trans given')).1
          rw [bare] at annotated
          cases annotated
        obtain ⟨shaped, _, hs, h⟩ := bind_ok.1 h
        split at h
        · rename_i simple
          rw [(formParameters_reports shaped).eq_of_ok h]
          exact .form other ((resolveArguments_arguments hs).trans given)
            fun e he => List.all_eq_true.1 simple e he
        · obtain ⟨x, _, hx, h⟩ := bind_ok.1 h
          obtain ⟨rfl, _⟩ := pure_ok.1 h
          rw [objectBody_parameter hx]
          exact .body other
      · rename_i bare
        split at h
        · rename_i handle
          have bare : first.param = none := by simpa using bare
          have implicit : m.SendsImplicit := ⟨element, first, rest, given.symm, bare, handle⟩
          rcases implicitParameters_ok h with ⟨object, rfl⟩ | ⟨unfolded, h⟩
          · exact .folded implicit object
          · rw [(implicitList_forms _).eq_of_ok h]
            exact .entries implicit unfolded
        · cases h

/-- Besides bodies, there are only parameters that the method declares. -/
theorem classify_names (h : classify w m p = .ok xs q) :
    ∀ x ∈ xs, x.location ≠ .body → x.name ∈ m.declaredNames := by
  intro x hx hbody
  cases classify_ok h with
  | body _ => exact absurd (List.mem_singleton.1 hx ▸ rfl) hbody
  | @form shaped _ origins _ =>
    have named : x.name ∈ (argumentForms shaped).map Parameter.name := List.mem_map_of_mem hx
    rw [names_argumentForms, origins] at named
    exact List.mem_append_left _ named
  | folded _ _ => exact absurd (List.mem_singleton.1 hx ▸ rfl) hbody
  | entries _ _ =>
    obtain ⟨i, hi, form⟩ := List.mem_filterMap.1 hx
    rw [(ImplicitParam.sentAs_of_form form).name]
    exact List.mem_append_right _ (List.mem_map_of_mem hi)

/-- The parameters of a built operation are those of its request. -/
theorem build_classify {op : Operation}
    (h : build w m p = .ok (some op) q) : ∃ r, classify w m r = .ok op.parameters q := by
  unfold build at h
  split at h
  · cases h
  · obtain ⟨headers, p₁, _, h⟩ := bind_ok.1 h
    obtain ⟨op₁, p₂, _, h⟩ := bind_ok.1 h
    obtain ⟨op₂, p₃, _, h⟩ := bind_ok.1 h
    obtain ⟨parameters, p₄, hc, h⟩ := bind_ok.1 h
    obtain ⟨hop, rfl⟩ := pure_ok.1 h
    obtain rfl := Option.some.inj hop
    refine ⟨p₃, ?_⟩
    split <;> exact hc

theorem build_names {op : Operation}
    (h : build w m p = .ok (some op) q) :
    ∀ x ∈ op.parameters, x.location ≠ .body → x.name ∈ m.declaredNames := by
  obtain ⟨r, hc⟩ := build_classify h
  exact classify_names hc

end Run

end ApiCompiler
