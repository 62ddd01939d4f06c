import ApiCompiler.Proofs.FirstOccurrences
import ApiCompiler.Proofs.Loading
import ApiCompiler.Proofs.Rendering

/-!
# Looking up methods

What a name means on a class is decided by the nearest class that has a member of that name, be it a
function or not. Loading a service goes through the classes the other way round and collects
functions only. Both find the same methods unless a member that is no function hides a method of a
class further above: the method is listed although the name no longer means it.
-/

set_option autoImplicit false

namespace ApiCompiler

/-- What a name of a class stands for. -/
inductive Member where
  /-- A function that is declared in the class called `owner`. -/
  | function (owner : String) (m : MethodDecl)
  | other

namespace World

variable {w : World} {t u : TypeExpr} {name : String} {e : String × MethodDecl}

/-- The member that a class itself has under a name. Classes inside of it replace its methods, and
methods its other members. -/
def ownMember? (w : World) (t : TypeExpr) (name : String) : Option Member :=
  match t with
  | .builtin c =>
    if name ∈ c.functions then some (.function c.qualname { name })
    else if name ∈ c.fixtures then some .other else none
  | .declared i => (w.class? i).bind fun c =>
    if c.nested.has name then some .other
    else match Table.lastAt c.methods name with
      | some m => some (.function c.qualname m)
      | none => if name ∈ c.attributes then some .other else none
  | _ => none

/-- What a name means on a class: the member of the nearest class that has one. -/
def member? (w : World) (t : TypeExpr) (name : String) : Option Member :=
  (w.lineage t).findSome? fun u => w.ownMember? u name

/-- The function that a class itself has under a name. -/
def ownFunction? (w : World) (t : TypeExpr) (name : String) : Option (String × MethodDecl) :=
  match w.ownMember? t name with
  | some (.function owner m) => some (owner, m)
  | _ => none

/-- The function of the nearest class that has one, whatever else hides it. -/
def nearestFunction? (w : World) (t : TypeExpr) (name : String) : Option (String × MethodDecl) :=
  (w.lineage t).findSome? fun u => w.ownFunction? u name

/-- A member that is no function hides a public method with route metadata. -/
def Hides (w : World) (t : TypeExpr) (name : String) : Prop :=
  isHidden name = false ∧ w.member? t name = some .other ∧
    ∃ owner m, w.nearestFunction? t name = some (owner, m) ∧ m.marked = true

/-- The public names of the functions of a class and its ancestors in order of first appearance,
those furthest above first. -/
def functionNames (w : World) (t : TypeExpr) : List String :=
  ((w.lineage t).reverse.flatMap fun u =>
    (w.ownFunctions u).keys.filter fun n => !isHidden n).eraseDups

/-- The entries are the public names that mean functions with route metadata, each once and with
that function, in the order in which functions of these names first appear. -/
structure ListsRouted (w : World) (t : TypeExpr) (entries : Table (String × MethodDecl)) :
    Prop where
  distinct : entries.Distinct
  mem_iff : ∀ name owner m, (name, owner, m) ∈ entries ↔
    isHidden name = false ∧ m.marked = true ∧ w.member? t name = some (.function owner m)
  inOrder : entries.keys.Sublist (w.functionNames t)

/-- The methods that a service is loaded from, by their names. -/
def routed (w : World) (t : TypeExpr) : Table (String × MethodDecl) :=
  (w.publicMethods t).filter fun e => e.2.2.marked

theorem routedMethods_eq (w : World) (t : TypeExpr) :
    w.routedMethods t = (w.routed t).map Prod.snd := by
  unfold routedMethods routed Table.values
  rw [List.filter_map]
  rfl

/-! ### Members of one class -/

theorem lastAt_map_constant {names : List String} {f : String → String × MethodDecl} :
    Table.lastAt (names.map fun n => (n, f n)) name =
      if name ∈ names then some (f name) else none := by
  induction names with
  | nil => rfl
  | cons n names ih =>
    rw [List.map_cons, Table.lastAt_cons, ih]
    by_cases hn : n = name
    · subst hn
      by_cases hmem : n ∈ names <;> simp [hmem]
    · simp [hn, Ne.symm hn]

theorem lastAt_ownFunctions (w : World) (t : TypeExpr) (name : String) :
    Table.lastAt (w.ownFunctions t) name = w.ownFunction? t name := by
  cases t with
  | builtin c =>
    simp only [ownFunctions, ownFunction?, ownMember?, lastAt_map_constant]
    by_cases hf : name ∈ c.functions
    · simp only [if_pos hf]
    · by_cases ho : name ∈ c.fixtures <;>
        simp only [if_neg hf, if_pos, if_neg, ho, not_false_eq_true]
  | declared i =>
    simp only [ownFunctions, ownFunction?, ownMember?]
    cases w.class? i with
    | none => rfl
    | some c =>
      show Table.lastAt (Table.mapValues _ (c.methods.filter fun e => !c.nested.has e.1)) name = _
      rw [Table.lastAt_mapValues, Table.lastAt_filter fun n => !c.nested.has n]
      cases hn : c.nested.has name with
      | true => simp [hn]
      | false =>
        cases hm : Table.lastAt c.methods name with
        | some m => simp [hn, hm]
        | none => by_cases ha : name ∈ c.attributes <;> simp [hn, hm, ha]
  | _ => rfl

/-! ### Along the ancestors -/

/-- The public functions that a class itself has. -/
def publicFunctions (w : World) (t : TypeExpr) : Table (String × MethodDecl) :=
  (w.ownFunctions t).filter fun e => !isHidden e.1

theorem lastAt_publicFunctions (w : World) (t : TypeExpr) (name : String) :
    Table.lastAt (w.publicFunctions t) name =
      if isHidden name then none else w.ownFunction? t name := by
  unfold publicFunctions
  rw [Table.lastAt_filter fun n => !isHidden n, lastAt_ownFunctions]
  cases isHidden name <;> rfl

theorem publicMethods_eq (w : World) (t : TypeExpr) :
    w.publicMethods t =
      (w.lineage t).reverse.foldl (fun acc u => Table.merge acc (w.publicFunctions u)) [] :=
  rfl

theorem get?_publicMethods (w : World) (t : TypeExpr) (name : String) :
    (w.publicMethods t).get? name =
      if isHidden name then none else w.nearestFunction? t name := by
  rw [publicMethods_eq, Table.get?_foldl_merge, List.reverse_reverse, Table.get?_nil,
    Option.or_none]
  simp only [lastAt_publicFunctions]
  cases isHidden name with
  | true => simp
  | false => rfl

theorem distinct_publicMethods (w : World) (t : TypeExpr) : (w.publicMethods t).Distinct :=
  Table.distinct_nil.foldl_merge w.publicFunctions _

theorem keys_publicMethods (w : World) (t : TypeExpr) :
    (w.publicMethods t).keys = w.functionNames t := by
  rw [publicMethods_eq, Table.keys_foldl_merge, Table.keys_nil, Table.foldl_addKey_nil]
  simp only [publicFunctions, functionNames, Table.keys, List.filter_map]
  rfl

/-- The nearest function is what its name means, or it is hidden by another member. -/
theorem member?_of_nearestFunction {owner : String} {m : MethodDecl}
    (h : w.nearestFunction? t name = some (owner, m)) :
    w.member? t name = some (.function owner m) ∨ w.member? t name = some .other := by
  unfold nearestFunction? at h
  unfold member?
  generalize w.lineage t = us at h ⊢
  induction us with
  | nil => cases h
  | cons u us ih =>
    rw [List.findSome?_cons] at h ⊢
    cases hm : w.ownMember? u name with
    | none =>
      refine ih ?_
      simpa only [ownFunction?, hm] using h
    | some k =>
      cases k with
      | function owner' m' =>
        simp only [ownFunction?, hm, Option.some.injEq, Prod.mk.injEq] at h
        obtain ⟨rfl, rfl⟩ := h
        exact .inl rfl
      | other => exact .inr rfl

theorem nearestFunction_of_member? {owner : String} {m : MethodDecl}
    (h : w.member? t name = some (.function owner m)) :
    w.nearestFunction? t name = some (owner, m) := by
  unfold member? at h
  unfold nearestFunction?
  generalize w.lineage t = us at h ⊢
  induction us with
  | nil => cases h
  | cons u us ih =>
    rw [List.findSome?_cons] at h ⊢
    cases hm : w.ownMember? u name with
    | none =>
      simp only [hm] at h
      simpa only [ownFunction?, hm] using ih h
    | some k =>
      simp only [hm, Option.some.injEq] at h
      cases h
      simp only [ownFunction?, hm]

theorem mem_routed {owner : String} {m : MethodDecl} :
    (name, owner, m) ∈ w.routed t ↔
      isHidden name = false ∧ m.marked = true ∧ w.nearestFunction? t name = some (owner, m) := by
  unfold routed
  rw [List.mem_filter, (w.distinct_publicMethods t).mem_iff, get?_publicMethods]
  cases isHidden name <;> simp [and_comm]

theorem Hides.mem_functionNames (h : w.Hides t name) : name ∈ w.functionNames t := by
  obtain ⟨shown, _, owner, m, nearest, _⟩ := h
  rw [← keys_publicMethods, ← Table.has_iff_mem_keys, Table.has, get?_publicMethods, shown, nearest]
  rfl

theorem listsRouted_iff (w : World) (t : TypeExpr) :
    w.ListsRouted t (w.routed t) ↔ ∀ name, ¬ w.Hides t name := by
  constructor
  · rintro listed name ⟨shown, other, owner, m, nearest, marked⟩
    have entry := (listed.mem_iff name owner m).1 (mem_routed.2 ⟨shown, marked, nearest⟩)
    rw [other] at entry
    cases entry.2.2
  · intro clear
    refine ⟨?_, fun name owner m => ?_, ?_⟩
    · exact (w.distinct_publicMethods t).sublist (List.filter_sublist.map _)
    · rw [mem_routed]
      refine and_congr_right fun shown => and_congr_right fun marked => ⟨fun nearest => ?_,
        nearestFunction_of_member?⟩
      exact (member?_of_nearestFunction nearest).resolve_right fun other =>
        clear name ⟨shown, other, owner, m, nearest, marked⟩
    · refine (List.filter_sublist.map Prod.fst).trans ?_
      show (w.publicMethods t).keys.Sublist _
      rw [keys_publicMethods]

/-! ### Loading -/

theorem loadMethods_ok {es : List (String × MethodDecl)} {ms : List Method} :
    w.loadMethods t es = .ok ms ↔
      List.Forall₂ (fun e m => w.loadMethod t e.1 e.2 = .ok m) es ms := by
  induction es generalizing ms with
  | nil =>
    rw [List.forall₂_nil_left_iff]
    exact ⟨fun h => by cases h; rfl, fun h => by rw [h]; rfl⟩
  | cons e es ih =>
    rw [List.forall₂_cons_left_iff]
    constructor
    · intro h
      obtain ⟨m, hm, h⟩ := except_bind_ok.1 h
      obtain ⟨rest, hrest, h⟩ := except_bind_ok.1 h
      cases h
      exact ⟨m, rest, hm, ih.1 hrest, rfl⟩
    · rintro ⟨m, rest, hm, hrest, rfl⟩
      exact except_bind_ok.2 ⟨m, hm, except_bind_ok.2 ⟨rest, ih.2 hrest, rfl⟩⟩

theorem exists_forall₂ {α β : Type} {R : α → β → Prop} {xs : List α} (h : ∀ x ∈ xs, ∃ y, R x y) :
    ∃ ys, List.Forall₂ R xs ys := by
  induction xs with
  | nil => exact ⟨[], .nil⟩
  | cons x xs ih =>
    obtain ⟨y, hy⟩ := h x List.mem_cons_self
    obtain ⟨ys, hys⟩ := ih fun z hz => h z (List.mem_cons_of_mem _ hz)
    exact ⟨y :: ys, .cons hy hys⟩

/-- A service has one method for each public name that means a function with route metadata, loaded
from that function, in the order in which functions of these names first appear, unless a member
that is no function hides one of them. It is loaded whenever these functions are. -/
theorem loadService_listsRouted (hs : w.isService t = true) :
    (w.ListsRouted t (w.routed t) ↔ ∀ name, ¬ w.Hides t name) ∧
      (∀ s, w.loadService t = .ok s → List.Forall₂
        (fun e m => w.loadMethod t e.2.1 e.2.2 = .ok m) (w.routed t) s.methods) ∧
      ((∀ e ∈ w.routed t, ∃ m, w.loadMethod t e.2.1 e.2.2 = .ok m) →
        ∃ s, w.loadService t = .ok s) := by
  refine ⟨w.listsRouted_iff t, fun s h => ?_, fun loads => ?_⟩
  · have loaded := loadMethods_ok.1 (loadService_ok h).2.2.2
    rwa [routedMethods_eq, List.forall₂_map_left_iff] at loaded
  · obtain ⟨info, hinfo⟩ := Option.isSome_iff_exists.1 hs
    obtain ⟨i, rfl, _⟩ := serviceInfo_declared hinfo
    obtain ⟨ms, hms⟩ := exists_forall₂ loads
    have loaded : w.loadMethods (.declared i) (w.routedMethods (.declared i)) = .ok ms := by
      rw [loadMethods_ok, routedMethods_eq, List.forall₂_map_left_iff]
      exact hms
    unfold loadService
    rw [hinfo]
    exact ⟨_, except_bind_ok.2 ⟨ms, loaded, rfl⟩⟩

/-- A ferry is a barge and a tug, both of them vessels. Each class overrides methods of those above
it; the tug also overrides one that the barge has nearer to the ferry, and the ferry one that is not
to be routed any more. -/
def harbor : World where
  decls := [
    .cls { name := "Vessel", qualname := "Vessel", above := [.builtin .object]
           methods := [("crew", { name := "crew" }),
             ("load", { name := "load", marked := true, path := some (.text "/load") }),
             ("sail", { name := "sail", marked := true, path := some (.text "/sail") })] },
    .cls { name := "Barge", qualname := "Barge", above := [.declared 0, .builtin .object]
           methods := [
             ("load", { name := "load", marked := true, path := some (.text "/cargo") })] },
    .cls { name := "Tug", qualname := "Tug", above := [.declared 0, .builtin .object]
           methods := [("tow", { name := "tow", marked := true, path := some (.text "/tow") }),
             ("load", { name := "load" }),
             ("sail", { name := "sail", marked := true, path := some (.text "/pull") })] },
    .cls { name := "Ferry", qualname := "Ferry", service := some {}
           above := [.declared 1, .declared 2, .declared 0, .builtin .object]
           methods := [("dock", { name := "dock", marked := true, path := some (.text "/dock") }),
             ("tow", { name := "tow" })] }]

theorem harbor_clear (name : String) : ¬ harbor.Hides (.declared 3) name := by
  intro hidden
  have listed : name ∈ ["crew", "load", "sail", "tow", "dock"] := hidden.mem_functionNames
  obtain ⟨_, other, _⟩ := hidden
  simp only [List.mem_cons, List.not_mem_nil, or_false] at listed
  rcases listed with rfl | rfl | rfl | rfl | rfl <;> cases other

theorem loadService_listsRouted_harbor :
    harbor.isService (.declared 3) = true ∧
      harbor.ListsRouted (.declared 3) (harbor.routed (.declared 3)) ∧
      (harbor.routed (.declared 3)).map (fun e => (e.1, e.2.1)) =
        [("load", "Barge"), ("sail", "Tug"), ("dock", "Ferry")] ∧
      ∃ s, harbor.loadService (.declared 3) = .ok s := by
  have loads := loadService_listsRouted (w := harbor) (t := .declared 3) (by decide)
  refine ⟨by decide, loads.1.2 harbor_clear, by decide, loads.2.2 ?_⟩
  rintro e (_ | ⟨_, _ | ⟨_, _ | ⟨_, ⟨⟩⟩⟩⟩) <;> exact ⟨_, rfl⟩

/-- A scheduled service has a value where the service that it is below has a method. -/
def timetable : World where
  decls := [
    .cls { name := "Line", qualname := "Line", above := [.builtin .object]
           methods := [("stops", { name := "stops", marked := true }),
             ("limit", { name := "limit", marked := true })] },
    .cls { name := "Night", qualname := "Night", service := some {}
           above := [.declared 0, .builtin .object], attributes := ["limit"] }]

/-- The name means the value, and the service has the method all the same. -/
theorem timetable_hides :
    (timetable.loadService (.declared 1)).toOption.map
        (fun s => s.methods.map fun m => (m.name, m.decl.marked)) =
      some [("stops", true), ("limit", true)] ∧
    timetable.member? (.declared 1) "limit" = some .other ∧
    ¬ timetable.ListsRouted (.declared 1) (timetable.routed (.declared 1)) := by
  refine ⟨by decide, rfl, fun listed => ?_⟩
  exact (listsRouted_iff _ _).1 listed "limit" ⟨rfl, rfl, _, _, rfl, rfl⟩

end World

end ApiCompiler
