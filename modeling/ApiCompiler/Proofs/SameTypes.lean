import ApiCompiler.Resolution.Resolve

/-!
# Types that are the same

A model counts as built from a type when the type is the same as the one that it was built from,
which need not be written in the same way. Every type is the same as itself, and of types that are
the same either all have fields or none: whether a type has fields is a matter of its class. So is
the element that it stands for as a token.
-/

set_option autoImplicit false

namespace ApiCompiler

namespace TypeExpr

mutual

/-- Every type is the same as itself. -/
theorem same_refl : ∀ t : TypeExpr, t.same t = true
  | .null | .ellipsis | .noReturn | .never => rfl
  | .builtin _ | .generic _ | .declared _ | .typeVar _ | .newType _ | .forward _ => by simp [same]
  | .filled _ args | .applied _ args | .pending _ args => by simp [same, sameList_refl args]
  | .union ts | .either ts => by simp [same, within_of_subset ts (List.Subset.refl ts)]
  | .literal vs => by
    have own : ∀ v, sameLiteral v v = true := fun v => by simp [sameLiteral]
    simp only [same, beq_self_eq_true, Bool.true_and, List.all_eq_true]
    exact fun v hv => List.any_eq_true.2 ⟨v, hv, own v⟩
  | .annotated t _ | .classVar t | .required t | .notRequired t => by simp [same, same_refl t]

theorem sameList_refl : ∀ ts : List TypeExpr, sameList ts ts = true
  | [] => rfl
  | t :: ts => by simp [sameList, same_refl t, sameList_refl ts]

theorem within_of_subset : ∀ (ts : List TypeExpr) {us : List TypeExpr}, ts ⊆ us →
    within ts us = true
  | [], _, _ => rfl
  | t :: ts, us, h => by
    have ht : us.any (same t) = true := List.any_eq_true.2 ⟨t, h List.mem_cons_self, same_refl t⟩
    have hts : within ts us = true := within_of_subset ts fun _ hu => h (List.mem_cons_of_mem _ hu)
    simp [within, ht, hts]

end

end TypeExpr

namespace World

/-- A class has fields of its own or from above. -/
def hasOwnFields (w : World) (cls : TypeExpr) : Bool :=
  if w.isModel cls then !(w.modelFieldsOf cls).isEmpty
  else match w.annotationsOf cls with
    | .ok hints => !(w.annotatedFields cls hints).isEmpty
    | .error _ => false

variable {w : World} {i : Nat} {xs ys : List TypeExpr} {t u : TypeExpr}

/-- Whether a type has fields is a matter of its class. -/
theorem fieldsOf_isOk : (w.fieldsOf t).isOk = (fieldClass? t).any w.hasOwnFields := by
  unfold fieldsOf
  cases fieldClass? t with
  | none => rfl
  | some cls =>
    rw [Option.any_some, hasOwnFields]
    by_cases hm : w.isModel cls = true
    · simp only [if_pos hm]
      cases w.modelFieldsOf cls with
      | nil => rfl
      | cons f fields => cases arguments t <;> rfl
    · simp only [if_neg hm]
      cases w.annotationsOf cls with
      | error fault => rfl
      | ok hints =>
        dsimp only
        cases w.annotatedFields cls hints with
        | nil => rfl
        | cons f fields => cases arguments t <;> rfl

theorem declaredLineage_filled :
    w.declaredLineage (.filled i xs) = w.declaredLineage (.declared i) := by
  cases h : w.class? i <;> simp [declaredLineage, lineage, h]

theorem annotatedFields_filled (hints : Table TypeExpr) :
    w.annotatedFields (.filled i xs) hints = w.annotatedFields (.filled i ys) hints := by
  have member (name : String) :
      w.hasAttribute (.filled i xs) name = w.hasAttribute (.filled i ys) name := by
    simp [hasAttribute, someHasAttribute, lineage, isAbstract, ownAttributes]
  simp only [annotatedFields, dataFieldsOf, isTypedDict, requiredKeysOf, namedTupleOf,
    declaredLineage_filled, member]

theorem hasOwnFields_filled : w.hasOwnFields (.filled i xs) = w.hasOwnFields (.filled i ys) := by
  have annotated (hints : Table TypeExpr) : w.annotatedFields (.filled i xs) hints =
      w.annotatedFields (.filled i ys) hints := annotatedFields_filled hints
  have filled (args : List TypeExpr) : (w.modelFieldsOf (.filled i args)).isEmpty =
      ((w.class? i).map fun c => c.modelFields.values.isEmpty).getD true := by
    unfold modelFieldsOf
    cases h : w.class? i <;> simp [h]
  simp only [hasOwnFields, isModel, annotationsOf, declaredLineage_filled, annotated, filled]

/-- Of types that are the same, both have fields or none. -/
theorem fieldsOf_isOk_of_same (h : t.same u = true) :
    (w.fieldsOf t).isOk = (w.fieldsOf u).isOk := by
  rw [fieldsOf_isOk, fieldsOf_isOk]
  unfold TypeExpr.same at h
  split at h
  any_goals rfl
  · rw [eq_of_beq h]
  · rw [eq_of_beq h]
  · rw [eq_of_beq h]
  · obtain rfl := eq_of_beq (Bool.and_eq_true_iff.1 h).1
    exact hasOwnFields_filled
  · obtain rfl := eq_of_beq (Bool.and_eq_true_iff.1 h).1
    rfl
  · cases h

/-- What element a class stands for does not depend on the arguments that it is filled in with. -/
theorem tokenElement_filled : w.tokenElement (.filled i xs) = w.tokenElement (.filled i ys) := by
  have lines : (w.lineage (.filled i xs)).drop 1 = (w.lineage (.filled i ys)).drop 1 := rfl
  have token : w.isToken (.filled i xs) = w.isToken (.filled i ys) := by
    simp [isToken, isBelow, lineage, TypeExpr.isClass, TypeExpr.same]
  have bases : w.writtenBases (.filled i xs) = w.writtenBases (.filled i ys) := by
    simp [writtenBases, lineage]
  unfold tokenElement
  rw [show (w.lineage (.filled i xs)).length = (w.lineage (.filled i ys)).length from rfl]
  cases (w.lineage (.filled i ys)).length with
  | zero => rfl
  | succ n => rw [elementAbove, elementAbove, token, bases, lines]

end World

end ApiCompiler
