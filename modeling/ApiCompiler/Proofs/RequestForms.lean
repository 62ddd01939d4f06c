import Mathlib.Data.List.Basic
import ApiCompiler.Compilation.Parameters
import ApiCompiler.Proofs.Steps

/-!
# Forms of requests

In a form, each argument with metadata stands for one parameter, and so does each entry in the table
of implicit parameters whose location is supported. Sending a form does nothing but report. A table
that has an object among its entries is no form: all of them become one body.
-/

set_option autoImplicit false

namespace ApiCompiler

/-! ### Arguments -/

/-- The name of the parameter that an argument stands for, if it has metadata. -/
def Argument.parameterName? (a : Argument) : Option String :=
  a.param.map fun info => if info.name = "" then a.name else info.name

/-- The parameter that an argument of the given schema is sent as in a form, if it has metadata. -/
def Argument.form? (a : Argument) (shape : Schema) : Option Parameter :=
  a.param.map fun info => {
    name := if info.name = "" then a.name else info.name
    location := .formData
    required := info.required
    description := info.description
    default := info.default
    access := info.access
    enum := (AllowedValues.read info.allowedValues).1
    shape }

/-- The parameters that arguments are sent as in a form. -/
def Run.argumentForms (shaped : List (Argument × Schema)) : List Parameter :=
  shaped.filterMap fun e => e.1.form? e.2

theorem Run.argumentForms_cons (a : Argument) (shape : Schema) (rest : List (Argument × Schema)) :
    argumentForms ((a, shape) :: rest) = (a.form? shape).toList ++ argumentForms rest := by
  unfold argumentForms
  rw [List.filterMap_cons]
  cases a.form? shape <;> rfl

/-- The parameter that an argument of this schema is sent as in a form. -/
structure Argument.SentAs (a : Argument) (shape : Schema) (x : Parameter) : Prop where
  location : x.location = .formData
  name : a.parameterName? = some x.name
  shape : x.shape = shape

theorem Argument.sentAs_of_form {a : Argument} {shape : Schema} {x : Parameter}
    (h : a.form? shape = some x) : a.SentAs shape x := by
  obtain ⟨info, hinfo, rfl⟩ := Option.map_eq_some_iff.1 h
  exact ⟨rfl, by rw [parameterName?, hinfo, Option.map_some], rfl⟩

/-! ### Entries of a table -/

namespace ImplicitParam

/-- Where an implicit parameter is sent, if that is supported. -/
def place? (i : ImplicitParam) : Option Location :=
  Run.implicitLocations.get? (Text.lower (Text.trim i.location))

/-- The parameter that an entry in the table of implicit parameters stands for. -/
def form? (i : ImplicitParam) : Option Parameter :=
  i.place?.map fun location => {
    name := i.name
    location
    required := i.required
    description := i.description
    default := i.default
    access := i.access
    enum := (AllowedValues.read i.allowedValues).1
    shape := (Primitive.schema i.typeName).1 }

/-- A parameter that an entry is sent as. -/
structure SentAs (i : ImplicitParam) (x : Parameter) : Prop where
  name : x.name = i.name
  location : x.location ≠ .body
  pattern : x.pattern = none
  shape : x.shape = (Primitive.schema i.typeName).1

theorem place?_not_body {i : ImplicitParam} {location : Location} (h : i.place? = some location) :
    location ≠ .body := by
  have all : ∀ e ∈ Run.implicitLocations, e.2 ≠ .body := by decide
  unfold place? at h
  exact all _ (Table.mem_of_get? h)

theorem sentAs_of_form {i : ImplicitParam} {x : Parameter} (h : i.form? = some x) :
    i.SentAs x := by
  obtain ⟨location, hl, rfl⟩ := Option.map_eq_some_iff.1 h
  exact { name := rfl, location := place?_not_body hl, pattern := rfl, shape := by dsimp only }

end ImplicitParam

/-! ### Sending -/

namespace Run

variable {m : Method} {shaped : List (Argument × Schema)} {is : List ImplicitParam}
  {xs : List Parameter} {p q : Progress}

theorem formParameter_reports {a : Argument} {info : ParamInfo} (h : a.param = some info)
    (shape : Schema) : ∃ x, a.form? shape = some x ∧ Reports (formParameter a info shape) x := by
  unfold Argument.form?
  rw [h]
  exact ⟨_, rfl, (Reports.reported (AllowedValues.read info.allowedValues)).bind (.pure _)⟩

theorem formParameters_reports (shaped : List (Argument × Schema)) :
    Reports (formParameters shaped) (argumentForms shaped) := by
  induction shaped with
  | nil => exact .pure _
  | cons e rest ih =>
    obtain ⟨a, shape⟩ := e
    unfold formParameters
    rw [argumentForms_cons]
    cases ha : a.param with
    | none =>
      rw [Argument.form?, ha]
      exact ih
    | some info =>
      obtain ⟨x, hform, hx⟩ := formParameter_reports ha shape
      rw [hform]
      exact hx.bind (ih.bind (.pure _))

/-- Form parameters have the names of the arguments with metadata. -/
theorem names_argumentForms (shaped : List (Argument × Schema)) :
    (argumentForms shaped).map Parameter.name =
      (shaped.map Prod.fst).filterMap Argument.parameterName? := by
  unfold argumentForms
  rw [List.map_filterMap, List.filterMap_map]
  refine List.filterMap_congr fun e _ => ?_
  rw [Argument.form?, Option.map_map]
  rfl

theorem exists_of_formParameters (h : formParameters shaped p = .ok xs q) {x : Parameter}
    (hx : x ∈ xs) : ∃ e ∈ shaped, e.1.form? e.2 = some x := by
  rw [(formParameters_reports shaped).eq_of_ok h] at hx
  exact List.mem_filterMap.1 hx

theorem implicitParameter_form (i : ImplicitParam) : Reports (implicitParameter i) i.form? := by
  unfold implicitParameter ImplicitParam.form? ImplicitParam.place?
  extract_lets kind
  split
  · rename_i body
    rw [show implicitLocations.get? kind = none by rw [body]; rfl]
    exact (Reports.report _).bind (.pure _)
  · split
    · rename_i unknown
      rw [unknown]
      exact (Reports.report _).bind (.pure _)
    · rename_i location known
      rw [known]
      exact (Reports.reported _).bind ((Reports.reported _).bind (.pure _))

theorem implicitList_forms (is : List ImplicitParam) :
    Reports (implicitList is) (is.filterMap ImplicitParam.form?) := by
  induction is with
  | nil => exact .pure _
  | cons i is ih =>
    have forms : (i :: is).filterMap ImplicitParam.form? =
        i.form?.toList ++ is.filterMap ImplicitParam.form? := by
      rw [List.filterMap_cons]
      cases i.form? <;> rfl
    rw [forms]
    exact (implicitParameter_form i).bind (ih.bind (.pure _))

theorem exists_of_implicitList (h : implicitList is p = .ok xs q) {x : Parameter} (hx : x ∈ xs) :
    ∃ i ∈ is, i.SentAs x := by
  rw [(implicitList_forms is).eq_of_ok h] at hx
  obtain ⟨i, hi, form⟩ := List.mem_filterMap.1 hx
  exact ⟨i, hi, ImplicitParam.sentAs_of_form form⟩

/-- A table of implicit parameters is sent as one body when it has an object, and otherwise entry by
entry. -/
theorem implicitParameters_ok (h : implicitParameters m p = .ok xs q) :
    (∃ i ∈ m.decl.implicitParams, i.typeName = "object") ∧ xs = [bodyParameter m.place] ∨
      (∀ i ∈ m.decl.implicitParams, i.typeName ≠ "object") ∧
        implicitList m.decl.implicitParams p = .ok xs q := by
  unfold implicitParameters at h
  split at h
  · rename_i object
    obtain ⟨_, _, _, h⟩ := bind_ok.1 h
    obtain ⟨_, _, _, h⟩ := bind_ok.1 h
    obtain ⟨rfl, _⟩ := pure_ok.1 h
    obtain ⟨i, hi, hname⟩ := List.any_eq_true.1 object
    exact .inl ⟨⟨i, hi, beq_iff_eq.1 hname⟩, rfl⟩
  · rename_i none
    refine .inr ⟨fun i hi hname => none ?_, h⟩
    exact List.any_eq_true.2 ⟨i, hi, beq_iff_eq.2 hname⟩

end Run

end ApiCompiler
