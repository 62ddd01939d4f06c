import ApiCompiler.Declarations
import ApiCompiler.Proofs.Hints
import ApiCompiler.Proofs.NewModels

/-!
# Instances of generic classes

A generic class may get its fields from generic classes above it, and along the way each class says
what the type variables of its bases are bound to: `World.Extends`. The fields of an instance ought
to have their declared types with the variables bound in this way, `TypeExpr.instantiate`. Resolution
looks at the arguments of the instance alone, so that it gets the types right where the class that
declares a field and the class of the instance bind the variables of the type alike. They do for the
fields of the class itself, and for those from above if each class on the way is written with its
own type variables. A class that has no arguments binds nothing.
-/

set_option autoImplicit false

namespace ApiCompiler

namespace TypeExpr

mutual

/-- The type variables of a type, also those in classes that are filled in. -/
def varsWithin : TypeExpr → List Nat
  | .typeVar i => [i]
  | .filled _ args | .applied _ args | .pending _ args => varsWithinList args
  | .union ts | .either ts => varsWithinList ts
  | .annotated t _ | .classVar t | .required t | .notRequired t => varsWithin t
  | _ => []

def varsWithinList : List TypeExpr → List Nat
  | [] => []
  | t :: ts => varsWithin t ++ varsWithinList ts

end

mutual

/-- Replaces all type variables, also those in classes that are filled in. A class that is filled in
without variables stays as it is. -/
def replaceAll (f : Nat → TypeExpr) : TypeExpr → TypeExpr
  | .typeVar i => f i
  | .filled i args =>
    if (varsWithinList args).isEmpty then .filled i args else .filled i (replaceAllList f args)
  | .applied head args => makeApplied head (replaceAllList f args)
  | .pending name args => .pending name (replaceAllList f args)
  | .union ts => makeUnion (replaceAllList f ts)
  | .either ts => makeEithers (replaceAllList f ts)
  | .annotated t m => makeAnnotated (replaceAll f t) m
  | .classVar t => .classVar (replaceAll f t)
  | .required t => .required (replaceAll f t)
  | .notRequired t => .notRequired (replaceAll f t)
  | t => t

def replaceAllList (f : Nat → TypeExpr) : List TypeExpr → List TypeExpr
  | [] => []
  | t :: ts => replaceAll f t :: replaceAllList f ts

end

/-- The type with each variable replaced by what it is bound to. -/
def instantiate (bound : Nat → Option TypeExpr) (t : TypeExpr) : TypeExpr :=
  if t.varsWithin.any fun i => (bound i).isSome then
    t.replaceAll fun i => (bound i).getD (.typeVar i)
  else t

mutual

/-- The classes that are filled in within the type are filled in without variables. -/
def closedFills : TypeExpr → Bool
  | .filled _ args => (varsWithinList args).isEmpty
  | .applied _ args | .pending _ args => closedFillsList args
  | .union ts | .either ts => closedFillsList ts
  | .annotated t _ | .classVar t | .required t | .notRequired t => closedFills t
  | _ => true

def closedFillsList : List TypeExpr → Bool
  | [] => true
  | t :: ts => closedFills t && closedFillsList ts

end

section Variables

variable {f g : Nat → TypeExpr} {ts : List TypeExpr}

mutual

/-- Only the variables of a type matter to it. -/
theorem replaceVars_congr : ∀ t : TypeExpr, (∀ i ∈ t.varsIn, f i = g i) →
    t.replaceVars f = t.replaceVars g
  | .typeVar i, h => h i (List.mem_singleton_self i)
  | .applied head args, h => congrArg (makeApplied head) (replaceVarsList_congr args h)
  | .pending name args, h => congrArg (TypeExpr.pending name) (replaceVarsList_congr args h)
  | .union ts, h => congrArg makeUnion (replaceVarsList_congr ts h)
  | .either ts, h => congrArg makeEithers (replaceVarsList_congr ts h)
  | .annotated t m, h => congrArg (makeAnnotated · m) (replaceVars_congr t h)
  | .classVar t, h => congrArg TypeExpr.classVar (replaceVars_congr t h)
  | .required t, h => congrArg TypeExpr.required (replaceVars_congr t h)
  | .notRequired t, h => congrArg TypeExpr.notRequired (replaceVars_congr t h)
  | .null, _ | .ellipsis, _ | .noReturn, _ | .never, _ | .builtin _, _ | .generic _, _
  | .declared _, _ | .filled _ _, _ | .newType _, _ | .literal _, _ | .forward _, _ => rfl

theorem replaceVarsList_congr : ∀ ts : List TypeExpr, (∀ i ∈ varsInList ts, f i = g i) →
    replaceVarsList f ts = replaceVarsList g ts
  | [], _ => rfl
  | t :: ts, h => congrArg₂ List.cons
      (replaceVars_congr t fun i hi => h i (List.mem_append_left _ hi))
      (replaceVarsList_congr ts fun i hi => h i (List.mem_append_right _ hi))

end

mutual

theorem varsWithin_eq : ∀ t : TypeExpr, t.closedFills = true → t.varsWithin = t.varsIn
  | .filled .., h => List.isEmpty_iff.1 h
  | .applied _ args, h | .pending _ args, h | .union args, h | .either args, h =>
    varsWithinList_eq args h
  | .annotated t _, h | .classVar t, h | .required t, h | .notRequired t, h => varsWithin_eq t h
  | .null, _ | .ellipsis, _ | .noReturn, _ | .never, _ | .builtin _, _ | .generic _, _
  | .declared _, _ | .typeVar _, _ | .newType _, _ | .literal _, _ | .forward _, _ => rfl

theorem varsWithinList_eq : ∀ ts : List TypeExpr, closedFillsList ts = true →
    varsWithinList ts = varsInList ts
  | [], _ => rfl
  | t :: ts, h => congrArg₂ List.append (varsWithin_eq t (Bool.and_eq_true_iff.1 h).1)
      (varsWithinList_eq ts (Bool.and_eq_true_iff.1 h).2)

end

mutual

theorem replaceAll_eq : ∀ t : TypeExpr, t.closedFills = true → t.replaceAll f = t.replaceVars f
  | .filled .., h => if_pos h
  | .applied head args, h => congrArg (makeApplied head) (replaceAllList_eq args h)
  | .pending name args, h => congrArg (TypeExpr.pending name) (replaceAllList_eq args h)
  | .union ts, h => congrArg makeUnion (replaceAllList_eq ts h)
  | .either ts, h => congrArg makeEithers (replaceAllList_eq ts h)
  | .annotated t m, h => congrArg (makeAnnotated · m) (replaceAll_eq t h)
  | .classVar t, h => congrArg TypeExpr.classVar (replaceAll_eq t h)
  | .required t, h => congrArg TypeExpr.required (replaceAll_eq t h)
  | .notRequired t, h => congrArg TypeExpr.notRequired (replaceAll_eq t h)
  | .null, _ | .ellipsis, _ | .noReturn, _ | .never, _ | .builtin _, _ | .generic _, _
  | .declared _, _ | .typeVar _, _ | .newType _, _ | .literal _, _ | .forward _, _ => rfl

theorem replaceAllList_eq : ∀ ts : List TypeExpr, closedFillsList ts = true →
    replaceAllList f ts = replaceVarsList f ts
  | [], _ => rfl
  | t :: ts, h => congrArg₂ List.cons (replaceAll_eq t (Bool.and_eq_true_iff.1 h).1)
      (replaceAllList_eq ts (Bool.and_eq_true_iff.1 h).2)

end

theorem instantiate_eq {t : TypeExpr} {bound : Nat → Option TypeExpr} (h : t.closedFills = true) :
    t.instantiate bound = if t.varsIn.any fun i => (bound i).isSome then
      t.replaceVars fun i => (bound i).getD (.typeVar i) else t := by
  rw [instantiate, varsWithin_eq t h, replaceAll_eq t h]

/-- Only what the variables of a type are bound to matters to its instance. -/
theorem instantiate_congr {t : TypeExpr} {bound bound' : Nat → Option TypeExpr}
    (h : t.closedFills = true) (alike : ∀ i ∈ t.varsIn, bound i = bound' i) :
    t.instantiate bound = t.instantiate bound' := by
  have some_bound : (t.varsIn.any fun i => (bound i).isSome) =
      t.varsIn.any fun i => (bound' i).isSome := by
    have mapped : t.varsIn.map bound = t.varsIn.map bound' := List.map_congr_left alike
    have any : (t.varsIn.map bound).any Option.isSome = (t.varsIn.map bound').any Option.isSome := by
      rw [mapped]
    rwa [List.any_map, List.any_map] at any
  rw [instantiate_eq h, instantiate_eq h, some_bound,
    replaceVars_congr t fun i hi => by rw [alike i hi]]

theorem varsInList_typeVars (vars : List Nat) : varsInList (vars.map .typeVar) = vars := by
  induction vars with
  | nil => rfl
  | cons i vars ih => exact congrArg (List.cons i) ih

theorem closedFillsList_typeVars (vars : List Nat) :
    closedFillsList (vars.map .typeVar) = true := by
  induction vars with
  | nil => rfl
  | cons i vars ih => exact ih

theorem replaceVarsList_typeVars (f : Nat → TypeExpr) (vars : List Nat) :
    replaceVarsList f (vars.map .typeVar) = vars.map f := by
  induction vars with
  | nil => rfl
  | cons i vars ih => exact congrArg (List.cons (f i)) ih

/-- An application to variables is applied to what these are bound to. -/
theorem instantiate_typeVars {head : Head} {vars : List Nat} {bound : Nat → Option TypeExpr}
    (given : ∀ k ∈ vars, ∃ a, bound k = some a ∧ a.asType = a) :
    (TypeExpr.applied head (vars.map .typeVar)).instantiate bound =
      .applied head (vars.map fun i => (bound i).getD (.typeVar i)) := by
  have closed : (TypeExpr.applied head (vars.map .typeVar)).closedFills = true :=
    closedFillsList_typeVars vars
  rw [instantiate_eq closed]
  have mem : (TypeExpr.applied head (vars.map .typeVar)).varsIn = vars := varsInList_typeVars vars
  have same : (vars.map fun i => (bound i).getD (.typeVar i)).map asType =
      vars.map fun i => (bound i).getD (.typeVar i) := by
    rw [List.map_map]
    refine List.map_congr_left fun k hk => ?_
    obtain ⟨a, ha, hasType⟩ := given k hk
    simpa [ha] using hasType
  rw [mem]
  cases vars with
  | nil => rfl
  | cons k vars =>
    obtain ⟨a, ha, _⟩ := given k List.mem_cons_self
    rw [if_pos (List.any_eq_true.2 ⟨k, List.mem_cons_self, by rw [ha]; rfl⟩)]
    change makeApplied head (replaceVarsList _ ((k :: vars).map .typeVar)) = _
    rw [replaceVarsList_typeVars, makeApplied, same, ite_self]

theorem mem_parametersOf {i : Nat} : i ∈ parametersOf ts ↔ i ∈ varsInList ts := by
  have collected (vars acc : List Nat) :
      i ∈ vars.foldl (fun acc i => if i ∈ acc then acc else acc ++ [i]) acc ↔
        i ∈ acc ∨ i ∈ vars := by
    induction vars generalizing acc with
    | nil => simp
    | cons j vars ih =>
      rw [List.foldl_cons, ih]
      split <;> grind
  unfold parametersOf
  rw [collected]
  simp

/-- Variables bound to one value each. -/
theorem binding_map (f : Nat → TypeExpr) (vars : List Nat) (i : Nat) :
    binding vars (vars.map f) i = if i ∈ vars then some (f i) else none := by
  unfold binding
  induction vars with
  | nil => rfl
  | cons j vars ih =>
    rw [List.map_cons, List.zip_cons_cons, List.find?_cons]
    by_cases h : j = i
    · subst h
      simp
    · have other : (j == i) = false := beq_eq_false_iff_ne.2 h
      dsimp only
      rw [other]
      dsimp only
      rw [ih]
      simp [Ne.symm h]

end Variables

end TypeExpr

namespace World

open TypeExpr

variable {w : World} {t u cls : TypeExpr} {type : TypeExpr} {bound : Nat → Option TypeExpr}
  {args : List TypeExpr}

/-- Unless it is a class, the parameters of a type are its variables. -/
theorem mem_parameters (h : ∀ i, t ≠ .declared i) {i : Nat} :
    i ∈ w.parameters t ↔ i ∈ t.varsIn := by
  have params : w.parameters t = parametersOf [t] := by
    cases t with
    | declared i => exact absurd rfl (h i)
    | _ => rfl
  rw [params, mem_parametersOf, varsInList, varsInList, List.append_nil]

/-- A type with variables is no class, and they are its parameters. -/
theorem mem_parameters_iff (hv : t.varsIn ≠ []) {i : Nat} :
    i ∈ w.parameters t ↔ i ∈ t.varsIn := by
  refine mem_parameters ?_
  rintro j rfl
  exact hv rfl

theorem parameters_isEmpty (hv : t.varsIn ≠ []) : (w.parameters t).isEmpty = false := by
  obtain ⟨i, hi⟩ := List.exists_mem_of_ne_nil _ hv
  exact List.isEmpty_eq_false_iff.2 (List.ne_nil_of_mem ((mem_parameters_iff hv).2 hi))

/-- Arguments for all variables of a type replace these. -/
theorem subscript_of_variables (hv : t.varsIn ≠ []) (single : ∀ i, t ≠ .typeVar i)
    (hargs : args.length = (w.parameters t).length) : w.subscript t args =
      some (t.replaceVars fun i => (binding (w.parameters t) args i).getD (.typeVar i)) := by
  unfold subscript
  split
  · exact absurd rfl hv
  · exact absurd rfl hv
  · exact absurd rfl hv
  · dsimp only
    rw [parameters_isEmpty hv, hargs, bne_self_eq_false, Bool.or_false, if_neg Bool.false_ne_true]
    split
    · exact absurd rfl (single _)
    · rfl

theorem substitute_of_bound (hv : t.varsIn ≠ []) (all : ∀ i ∈ t.varsIn, (bound i).isSome) :
    w.substitute bound t = t.replaceVars fun i => (bound i).getD (.typeVar i) := by
  unfold substitute
  split
  · rfl
  · rename_i single
    let f : Nat → TypeExpr := fun i => (bound i).getD (.typeVar i)
    have args : (w.parameters t).filterMap bound = (w.parameters t).map f := by
      rw [← List.filterMap_eq_map]
      refine List.filterMap_congr fun i hi => ?_
      obtain ⟨a, ha⟩ := Option.isSome_iff_exists.1 (all i ((mem_parameters_iff hv).1 hi))
      simp [f, ha]
    have bound_all : (w.parameters t).all (fun i => (bound i).isSome) = true :=
      List.all_eq_true.2 fun i hi => all i ((mem_parameters_iff hv).1 hi)
    have replaced : (t.replaceVars fun i =>
        (binding (w.parameters t) ((w.parameters t).map f) i).getD (.typeVar i)) =
        t.replaceVars f := by
      refine replaceVars_congr t fun i hi => ?_
      rw [binding_map, if_pos ((mem_parameters_iff hv).2 hi)]
      rfl
    dsimp only
    rw [parameters_isEmpty hv, bound_all, args,
      subscript_of_variables hv single (List.length_map f), replaced]
    rfl

/-- Nothing is replaced in a type of which some variable is not bound. -/
theorem substitute_of_unbound {i : Nat} (hi : i ∈ w.parameters t) (free : bound i = none) :
    w.substitute bound t = t := by
  unfold substitute
  split
  · rename_i j
    have single : ∀ k, TypeExpr.typeVar j ≠ .declared k := fun _ => TypeExpr.noConfusion
    obtain rfl := List.mem_singleton.1 ((mem_parameters single).1 hi)
    rw [free]
    rfl
  · have unbound : (w.parameters t).all (fun i => (bound i).isSome) = false := by
      refine List.all_eq_false.2 ⟨i, hi, ?_⟩
      rw [free]
      exact nofun
    dsimp only
    rw [unbound, Bool.not_false, Bool.or_true, if_pos rfl]

theorem substitute_of_no_parameters (h : w.parameters t = []) : w.substitute bound t = t := by
  unfold substitute
  split
  · cases h
  · dsimp only
    rw [h, List.isEmpty_nil, Bool.true_or, if_pos rfl]

/-- Variables can be replaced in a type: its classes that are filled in have none, it does not have
some of them bound and others not, and it is no generic class that comes without arguments. -/
structure Replaces (w : World) (bound : Nat → Option TypeExpr) (type : TypeExpr) : Prop where
  closed : type.closedFills = true
  whole : (∀ i ∈ type.varsIn, (bound i).isSome) ∨ ∀ i ∈ type.varsIn, bound i = none
  applied : ∀ i, type = .declared i → w.parameters type ≠ [] →
    ∃ j ∈ w.parameters type, bound j = none

/-- Replacing the variables of a type, where they can be replaced, makes its instance. -/
theorem Replaces.substitute (h : w.Replaces bound t) :
    w.substitute bound t = t.instantiate bound := by
  rw [instantiate_eq h.closed]
  by_cases hv : t.varsIn = []
  · rw [hv, List.any_nil, if_neg Bool.false_ne_true]
    by_cases hp : w.parameters t = []
    · exact substitute_of_no_parameters hp
    · have isClass : ∃ i, t = .declared i := by
        by_contra other
        obtain ⟨i, hi⟩ := List.exists_mem_of_ne_nil _ hp
        rw [mem_parameters fun j hj => other ⟨j, hj⟩, hv] at hi
        cases hi
      obtain ⟨i, rfl⟩ := isClass
      obtain ⟨j, hj, free⟩ := h.applied i rfl hp
      exact substitute_of_unbound hj free
  · obtain ⟨i, hi⟩ := List.exists_mem_of_ne_nil _ hv
    rcases h.whole with all | free
    · rw [if_pos (List.any_eq_true.2 ⟨i, hi, all i hi⟩), substitute_of_bound hv all]
    · have unbound : ¬ t.varsIn.any (fun i => (bound i).isSome) = true := by
        rw [List.any_eq_true]
        rintro ⟨j, hj, hsome⟩
        rw [free j hj] at hsome
        cases hsome
      rw [if_neg unbound, substitute_of_unbound ((mem_parameters_iff hv).2 hi) (free i hi)]

section Definitions

variable (w : World)

/-- What the arguments of a type bind the type variables of its class to. -/
def bindings (t : TypeExpr) (i : Nat) : Option TypeExpr :=
  (fieldClass? t).bind fun cls => binding (w.parameters cls) (arguments t) i

/-- From a type to a base of its class, with the variables of the class bound as in the type. -/
def Extends (t u : TypeExpr) : Prop :=
  ∃ i c b, fieldClass? t = some (.declared i) ∧ w.class? i = some c ∧ b ∈ c.bases ∧
    u = b.instantiate (w.bindings t)

/-- A type has a field from one of the types that it extends, whose class gives the type of the
field. -/
structure Inherits (t u : TypeExpr) (name : String) (type : TypeExpr) : Prop where
  chain : Relation.ReflTransGen w.Extends t u
  declares : ∃ i c, fieldClass? u = some (.declared i) ∧ w.class? i = some c ∧
    w.Declares c name type

/-- From a type to a base of its class that is written with the variables of its own class, all of
which the type binds. -/
def HandsOn (t u : TypeExpr) : Prop :=
  ∃ i c head j, fieldClass? t = some (.declared i) ∧ w.class? i = some c ∧
    headClass head = .declared j ∧
    .applied head ((w.parameters (.declared j)).map .typeVar) ∈ c.bases ∧
    (∀ k ∈ w.parameters (.declared j), ∃ a, w.bindings t k = some a ∧ a.asType = a) ∧
    u = (TypeExpr.applied head ((w.parameters (.declared j)).map .typeVar)).instantiate
      (w.bindings t)

end Definitions

variable {fields : List ModelField} {f : ModelField} {name : String} {k : Nat}

theorem bindings_of_fieldClass (h : fieldClass? t = some cls) :
    w.bindings t = binding (w.parameters cls) (arguments t) := by
  unfold bindings
  rw [h]
  rfl

/-- Without arguments nothing is bound. -/
theorem bindings_of_no_arguments (h : arguments t = []) : w.bindings t = fun _ => none := by
  funext i
  unfold bindings binding
  rw [h]
  simp only [List.zip_nil_right, List.find?_nil, Option.map_none]
  cases fieldClass? t <;> rfl

/-- The arguments of a class are put into the types of its fields as what they bind. -/
theorem applyArguments_eq (h : fieldClass? t = some cls) :
    w.applyArguments cls (arguments t) type = w.substitute (w.bindings t) type := by
  unfold applyArguments
  split
  · rename_i hargs
    rw [bindings_of_no_arguments hargs, substitute_unbound]
  · rw [bindings_of_fieldClass h]

/-- A field has the type that the class shows for its name, with what the type binds put in. -/
theorem fieldsOf_type (h : w.fieldsOf t = .ok fields) (hc : fieldClass? t = some cls)
    (hm : w.isModel cls = false) (hf : f ∈ fields) :
    ∃ hint : Option TypeExpr, (∀ type, hint = some type ↔ w.Shows cls f.name type) ∧
      f.type = w.substitute (w.bindings t) (hint.getD .any) := by
  obtain ⟨cls', own, hc', hown, _, rfl⟩ := fieldsOf_ok_iff.1 h
  obtain rfl := Option.some.inj (hc.symm.trans hc')
  unfold classFields at hown
  rw [hm, if_neg Bool.false_ne_true] at hown
  cases hints : w.annotationsOf cls with
  | error fault =>
    rw [hints] at hown
    cases hown
  | ok table =>
    rw [hints] at hown
    obtain rfl := Except.ok.inj hown
    obtain ⟨g, hg, rfl⟩ := List.mem_map.1 hf
    refine ⟨table.get? g.name, annotationsOf_get? hints g.name, ?_⟩
    rw [← annotatedFields_type (annotationsOf_distinct hints) hg]
    exact applyArguments_eq hc

/-- What a base has bound that is written with the variables of its class, the type has bound to the
same. -/
theorem HandsOn.bindings_eq (h : w.HandsOn t u) (hk : (w.bindings u k).isSome) :
    w.bindings t k = w.bindings u k := by
  obtain ⟨i, c, head, j, _, _, hhead, _, given, rfl⟩ := h
  have named : fieldClass? (.applied head ((w.parameters (.declared j)).map fun i =>
      (w.bindings t i).getD (.typeVar i))) = some (.declared j) := congrArg some hhead
  rw [instantiate_typeVars given, bindings_of_fieldClass named] at hk ⊢
  change (binding _ (List.map _ _) k).isSome = true at hk
  change _ = binding _ (List.map _ _) k
  rw [binding_map] at hk ⊢
  by_cases mem : k ∈ w.parameters (.declared j)
  · obtain ⟨a, ha, _⟩ := given k mem
    rw [if_pos mem, ha]
    rfl
  · rw [if_neg mem] at hk
    cases hk

theorem HandsOn.toExtends (h : w.HandsOn t u) : w.Extends t u := by
  obtain ⟨i, c, head, j, hclass, hc, _, hb, _, rfl⟩ := h
  exact ⟨i, c, _, hclass, hc, hb, rfl⟩

/-- Along bases that are written with the variables of their classes, what is bound stays bound to
the same. -/
theorem bindings_of_handsOn (h : Relation.ReflTransGen w.HandsOn t u)
    (hk : (w.bindings u k).isSome) : w.bindings t k = w.bindings u k := by
  induction h with
  | refl => rfl
  | tail _ step ih =>
    have last := step.bindings_eq hk
    rw [← last] at hk
    exact (ih hk).trans last

end World

section Resolution

variable {w : World} {t cls : TypeExpr} {fields : List ModelField} {name : String} {bound : Nat}
  {p q : Progress} {s : Schema}

/-- The model of an instance of a generic class, when it is built anew. Its properties have what is
found for the types of its fields. A field has the type that is declared for it, with what the
instance itself binds put in. Where the type comes from a base that binds its variables alike, this
is the type with the variables bound as in the base; bases bind alike that are written with the
variables of their classes. Without arguments types are left as they are declared, whatever the
bases bind. -/
theorem Run.resolveWithin_instances (orderly : p.registry.Orderly w)
    (h : resolveWithin w (bound + 1) t p = .ok s q) (hf : w.HasFields p.registry.overrides t fields)
    (hn : w.modelName t.bare = .ok name) (new : name ∉ p.registry.resolving)
    (stale : p.registry.isCurrent name t.bare = false) (hc : World.fieldClass? t.bare = some cls)
    (hm : w.isModel cls = false) :
    (∃ schemas,
      List.Forall₂ (fun f s => FindsLater w bound (p.building name) f.type s ∧
        ((p.building name).registry.Clear w f.type →
          w.Denotes p.registry.overrides f.type s)) fields schemas ∧
      q.registry.models.get? name = some (objectModel name (p.registry.models.get? name)
        (Table.ofList (World.fieldProperties fields schemas)) (World.requiredNames fields))) ∧
    (∀ f ∈ fields, (f.type = .any ∨ ∃ type, w.Shows cls f.name type) ∧
      ∀ type, w.Shows cls f.name type → f.type = w.substitute (w.bindings t.bare) type ∧
        (w.Replaces (w.bindings t.bare) type → ∀ u, w.Inherits t.bare u f.name type →
          (∀ i ∈ type.varsIn, w.bindings t.bare i = w.bindings u i) →
          f.type = type.instantiate (w.bindings u)) ∧
        (World.arguments t.bare = [] → f.type = type)) ∧
    ∀ u, Relation.ReflTransGen w.HandsOn t.bare u → Relation.ReflTransGen w.Extends t.bare u ∧
      ∀ i, (w.bindings u i).isSome → w.bindings t.bare i = w.bindings u i := by
  refine ⟨?_, fun f hmem => ?_, fun u hu => ⟨?_, fun i hi => ?_⟩⟩
  · obtain ⟨_, schemas, found, model⟩ := resolveWithin_new h hf hn new stale
    have building : (p.building name).registry.Orderly w := ⟨orderly.named, orderly.built⟩
    exact ⟨schemas, found.imp fun f s hs => ⟨hs, hs.denotes building⟩, model⟩
  · obtain ⟨hint, hints, type⟩ := World.fieldsOf_type hf.found hc hm hmem
    constructor
    · cases hint with
      | none =>
        left
        rw [type]
        exact World.substitute_of_no_parameters rfl
      | some declared => exact .inr ⟨declared, (hints declared).1 rfl⟩
    · intro declared shown
      obtain rfl := (hints declared).2 shown
      change f.type = w.substitute (w.bindings t.bare) declared at type
      refine ⟨type, fun replaces u _ alike => ?_, fun hargs => ?_⟩
      · rw [type, replaces.substitute, TypeExpr.instantiate_congr replaces.closed alike]
      · rw [type, World.bindings_of_no_arguments hargs, World.substitute_unbound]
  · exact Relation.ReflTransGen.mono (fun _ _ => World.HandsOn.toExtends) _ _ hu
  · exact World.bindings_of_handsOn hu hi

end Resolution

namespace World

/-- A box of something, a class below boxes of numbers, stacks, which are boxes of lists, and piles,
which are boxes of what is in the pile. -/
def boxDecls : List Value := [
  .map [(.text "kind", .text "typevar"), (.text "id", .text "T")],
  .map [(.text "kind", .text "dataclass"), (.text "id", .text "Box"),
    (.text "params", .list [.text "T"]),
    (.text "fields", .list [.map [(.text "name", .text "item"), (.text "type", .text "T")]])],
  .map [(.text "kind", .text "dataclass"), (.text "id", .text "Numbers"),
    (.text "bases", .list [.map [(.text "g", .text "Box"), (.text "a", .list [.text "int"])]]),
    (.text "fields", .list [])],
  .map [(.text "kind", .text "dataclass"), (.text "id", .text "Stack"),
    (.text "params", .list [.text "T"]),
    (.text "bases", .list [.map [(.text "g", .text "Box"),
      (.text "a", .list [.map [(.text "g", .text "list"), (.text "a", .list [.text "T"])]])]]),
    (.text "fields", .list [.map [(.text "name", .text "top"), (.text "type", .text "T")]])],
  .map [(.text "kind", .text "dataclass"), (.text "id", .text "Pile"),
    (.text "params", .list [.text "T"]),
    (.text "bases", .list [.map [(.text "g", .text "Box"), (.text "a", .list [.text "T"])]]),
    (.text "fields", .list [.map [(.text "name", .text "all"),
      (.text "type", .map [(.text "g", .text "list"), (.text "a", .list [.text "T"])])]])]]

def boxOf (t : TypeExpr) : TypeExpr := .applied (.declared 1) [t]

def listOf (t : TypeExpr) : TypeExpr := .applied (.builtin .list) [t]

def boxes : World where
  decls := [
    .typeVar "T",
    .cls {
      name := "Box"
      qualname := "Box"
      kind := .dataclass
      above := [.builtin .object]
      typeVars := [0]
      fields := [{ name := "item", type := .typeVar 0 }]
      annotations := [("item", .typeVar 0)]
      dataFields := some [
        { name := "item", required := true, description := "", isClassVar := false }] },
    .cls {
      name := "Numbers"
      qualname := "Numbers"
      kind := .dataclass
      bases := [boxOf (.builtin .int)]
      above := [.declared 1, .builtin .object]
      dataFields := some [
        { name := "item", required := true, description := "", isClassVar := false }] },
    .cls {
      name := "Stack"
      qualname := "Stack"
      kind := .dataclass
      bases := [boxOf (listOf (.typeVar 0))]
      above := [.declared 1, .builtin .object]
      typeVars := [0]
      fields := [{ name := "top", type := .typeVar 0 }]
      annotations := [("top", .typeVar 0)]
      dataFields := some [
        { name := "item", required := true, description := "", isClassVar := false },
        { name := "top", required := true, description := "", isClassVar := false }] },
    .cls {
      name := "Pile"
      qualname := "Pile"
      kind := .dataclass
      bases := [boxOf (.typeVar 0)]
      above := [.declared 1, .builtin .object]
      typeVars := [0]
      fields := [{ name := "all", type := listOf (.typeVar 0) }]
      annotations := [("all", listOf (.typeVar 0))]
      dataFields := some [
        { name := "item", required := true, description := "", isClassVar := false },
        { name := "all", required := true, description := "", isClassVar := false }] }]
  names := [("T", .typeVar 0), ("Box", .declared 1), ("Numbers", .declared 2),
    ("Stack", .declared 3), ("Pile", .declared 4)]

def numbers : TypeExpr := .declared 2

def stackOf (t : TypeExpr) : TypeExpr := .applied (.declared 3) [t]

def pileOf (t : TypeExpr) : TypeExpr := .applied (.declared 4) [t]

def pileFields : List ModelField := [
  { name := "item", type := .builtin .int, required := true },
  { name := "all", type := listOf (.builtin .int), required := true }]

theorem pile_object : boxes.HasFields [] (pileOf (.builtin .int)) pileFields := ⟨rfl, rfl⟩

theorem box_inherited {t u : TypeExpr} (h : boxes.Extends t (boxOf u)) :
    boxes.Inherits t (boxOf u) "item" (.typeVar 0) :=
  ⟨.single h, 1, _, rfl, rfl, .typeVar 0, .typeVar 0, rfl, rfl, rfl⟩

theorem numbers_extends : boxes.Extends numbers (boxOf (.builtin .int)) :=
  ⟨2, _, _, rfl, rfl, List.mem_cons_self, rfl⟩

theorem stack_extends :
    boxes.Extends (stackOf (.builtin .int)) (boxOf (listOf (.builtin .int))) :=
  ⟨3, _, _, rfl, rfl, List.mem_cons_self, rfl⟩

theorem pile_handsOn : boxes.HandsOn (pileOf (.builtin .int)) (boxOf (.builtin .int)) := by
  refine ⟨4, _, .declared 1, 1, rfl, rfl, rfl, List.mem_cons_self, fun k hk => ?_, rfl⟩
  obtain rfl := List.mem_singleton.1 hk
  exact ⟨.builtin .int, rfl, rfl⟩

theorem pile_clear {t : TypeExpr} {r : Registry} (ho : r.overrides = [])
    (ht : t = .builtin .int ∨ t = listOf (.builtin .int)) : r.Clear boxes t := by
  intro u name hu hs hn _
  rw [ho] at hu hs
  have plain : u = .builtin .int ∨ u = listOf (.builtin .int) := by
    clear hs hn
    induction hu with
    | refl => exact ht
    | tail _ hp ih =>
      rcases ih with rfl | rfl
      · cases hp
      · exact .inl (Option.some.inj hp).symm
  rcases plain with rfl | rfl <;> cases hs

/-- In a pile of numbers the item, which comes from the box, is a number. -/
theorem resolveWithin_instances_pile : ∃ s q,
    Run.resolveWithin boxes 4 (pileOf (.builtin .int)) {} = .ok s q ∧ ∃ item all,
      q.registry.models.get? "app.Pile[int]" =
        some (modelOf "app.Pile[int]" pileFields [item, all]) ∧
      boxes.Denotes [] ((TypeExpr.typeVar 0).instantiate (boxes.bindings (boxOf (.builtin .int))))
        item ∧
      boxes.Denotes [] ((listOf (.typeVar 0)).instantiate
        (boxes.bindings (pileOf (.builtin .int)))) all := by
  obtain ⟨s, q, h⟩ : ∃ s q, Run.resolveWithin boxes 4 (pileOf (.builtin .int)) {} = .ok s q :=
    ⟨_, _, rfl⟩
  obtain ⟨⟨schemas, found, model⟩, types, chain⟩ := Run.resolveWithin_instances (w := boxes)
    (p := {}) (Registry.orderly_start boxes []) h pile_object rfl nofun rfl rfl rfl
  have inherited := box_inherited pile_handsOn.toExtends
  have replaces : boxes.Replaces (boxes.bindings (pileOf (.builtin .int))) (.typeVar 0) := by
    refine ⟨rfl, .inl fun i hi => ?_, fun _ h => nomatch h⟩
    obtain rfl := List.mem_singleton.1 hi
    rfl
  have alike : ∀ i ∈ (TypeExpr.typeVar 0).varsIn, boxes.bindings (pileOf (.builtin .int)) i =
      boxes.bindings (boxOf (.builtin .int)) i := by
    intro i hi
    obtain rfl := List.mem_singleton.1 hi
    exact (chain _ (.single pile_handsOn)).2 0 rfl
  have itemType := ((types _ List.mem_cons_self).2 (.typeVar 0)
    ⟨_, rfl, .typeVar 0, .typeVar 0, rfl, rfl, rfl⟩).2.1 replaces _ inherited alike
  cases found with
  | cons hitem rest =>
    cases rest with
    | cons hall rest =>
      cases rest
      refine ⟨s, q, h, _, _, model, itemType ▸ hitem.2 (pile_clear rfl (.inl rfl)), ?_⟩
      exact hall.2 (pile_clear rfl (.inr rfl))

def integerSchema : Schema := .primitive .integer (some "int64") []

def stackFields : List ModelField := [
  { name := "item", type := .builtin .int, required := true },
  { name := "top", type := .builtin .int, required := true }]

/-- A class below boxes of numbers has an object of any kind as its item, and a stack of numbers has
a number, where both should have what the box has that they extend. -/
theorem boxes_misbound : ofDeclarations boxDecls = .ok boxes ∧
    (boxes.Inherits numbers (boxOf (.builtin .int)) "item" (.typeVar 0) ∧
      boxes.Denotes [] ((TypeExpr.typeVar 0).instantiate (boxes.bindings (boxOf (.builtin .int))))
        integerSchema ∧
      ∃ q, Run.resolve boxes numbers {} = .ok (.refTo "app.Numbers") q ∧
        q.registry.models.get? "app.Numbers" = some (modelOf "app.Numbers"
          [{ name := "item", type := .typeVar 0, required := true }] [.opaqueObject])) ∧
    boxes.Inherits (stackOf (.builtin .int)) (boxOf (listOf (.builtin .int))) "item"
        (.typeVar 0) ∧
      boxes.Denotes [] ((TypeExpr.typeVar 0).instantiate
        (boxes.bindings (boxOf (listOf (.builtin .int))))) (.arrayOf integerSchema) ∧
      ∃ q, Run.resolve boxes (stackOf (.builtin .int)) {} = .ok (.refTo "app.Stack[int]") q ∧
        q.registry.models.get? "app.Stack[int]" =
          some (modelOf "app.Stack[int]" stackFields [integerSchema, integerSchema]) := by
  have number : boxes.Denotes [] (.builtin .int) integerSchema := .fixed rfl
  refine ⟨rfl, ⟨box_inherited numbers_extends, number, _, rfl, rfl⟩,
    box_inherited stack_extends, .items rfl number, _, rfl, rfl⟩

end World

end ApiCompiler
