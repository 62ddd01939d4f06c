import ApiCompiler.Proofs.SameTypes
import ApiCompiler.Proofs.Steps

/-!
# Fields of classes and of their applications

A type gets its fields from a class. An application of the class has the same fields, with the type
of each changed by the arguments and nothing else; without arguments nothing is changed.
-/

set_option autoImplicit false

namespace ApiCompiler.World

variable {w : World} {t cls : TypeExpr} {fields : List ModelField}

/-- The fields that a class itself has. -/
def classFields (w : World) (cls : TypeExpr) : Except String (List ModelField) :=
  if w.isModel cls then .ok (w.modelFieldsOf cls)
  else
    match w.annotationsOf cls with
    | .ok hints => .ok (w.annotatedFields cls hints)
    | .error fault => .error fault.message

/-- The type of a field once its class is applied to arguments, if there are any. -/
def applyArguments (w : World) (cls : TypeExpr) (args : List TypeExpr) (type : TypeExpr) :
    TypeExpr :=
  match args with
  | [] => type
  | args => w.substitute (TypeExpr.binding (w.parameters cls) args) type

theorem substitute_unbound (t : TypeExpr) : w.substitute (fun _ => none) t = t := by
  unfold substitute
  split
  · rfl
  · dsimp only
    cases h : w.parameters t <;> simp

theorem isClass_of_fieldClass (h : fieldClass? t = some cls) : cls.isClass = true := by
  have head (h : Head) : (headClass h).isClass = true := by cases h <;> rfl
  unfold fieldClass? at h
  split at h
  · rename_i c horigin
    obtain rfl := Option.some.inj h
    unfold origin? at horigin
    split at horigin
    · obtain rfl := Option.some.inj horigin
      exact head _
    · obtain rfl := Option.some.inj horigin
      rfl
    · cases horigin
  · split at h
    · rename_i hclass
      obtain rfl := Option.some.inj h
      exact hclass
    · cases h

/-- A class gets its fields from itself. -/
theorem fieldClass_of_isClass (h : cls.isClass = true) :
    fieldClass? cls = some cls ∧ arguments cls = [] := by
  unfold TypeExpr.isClass at h
  split at h
  · exact ⟨rfl, rfl⟩
  · exact ⟨rfl, rfl⟩
  · exact ⟨rfl, rfl⟩
  · cases h

/-- A class below no declared one has no fields. -/
theorem classFields_undeclared (h : w.declaredLineage cls = []) : w.classFields cls = .ok [] := by
  have hints : w.annotationsOf cls = .ok [] := by
    unfold annotationsOf
    rw [h]
    rfl
  simp [classFields, isModel, annotatedFields, dataFieldsOf, isTypedDict, namedTupleOf, h, hints]

/-- The fields of a type are those of its class, changed by its arguments. -/
theorem fieldsOf_of_fieldClass (h : fieldClass? t = some cls) : w.fieldsOf t =
    match w.classFields cls with
    | .error reason => .error reason
    | .ok [] => .error "no fields"
    | .ok own => .ok (own.map fun f =>
        { f with type := w.applyArguments cls (arguments t) f.type }) := by
  unfold fieldsOf classFields
  rw [h]
  by_cases hm : w.isModel cls = true
  · simp only [if_pos hm]
    cases w.modelFieldsOf cls with
    | nil => cases arguments t <;> rfl
    | cons f own =>
      cases arguments t with
      | nil => exact congrArg Except.ok (List.map_id _).symm
      | cons a args => rfl
  · simp only [if_neg hm]
    cases w.annotationsOf cls with
    | error fault => rfl
    | ok hints =>
      dsimp only
      cases w.annotatedFields cls hints with
      | nil => cases arguments t <;> rfl
      | cons f own =>
        cases arguments t with
        | nil => exact congrArg Except.ok (List.map_id _).symm
        | cons a args => rfl

/-- What fields a type has. -/
theorem fieldsOf_ok_iff : w.fieldsOf t = .ok fields ↔
    ∃ cls own, fieldClass? t = some cls ∧ w.classFields cls = .ok own ∧ own ≠ [] ∧
      fields = own.map fun f => { f with type := w.applyArguments cls (arguments t) f.type } := by
  constructor
  · intro h
    cases hc : fieldClass? t with
    | none =>
      unfold fieldsOf at h
      rw [hc] at h
      cases h
    | some cls =>
      rw [fieldsOf_of_fieldClass hc] at h
      split at h
      · cases h
      · cases h
      · rename_i own nonempty hown
        exact ⟨cls, own, rfl, hown, nonempty, (Except.ok.inj h).symm⟩
  · rintro ⟨cls, own, hc, hown, nonempty, rfl⟩
    rw [fieldsOf_of_fieldClass hc, hown]
    cases own with
    | nil => exact absurd rfl nonempty
    | cons f own => rfl

end ApiCompiler.World
