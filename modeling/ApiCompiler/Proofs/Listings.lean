import Mathlib.Data.List.Nodup
import ApiCompiler.Proofs.Rescanning

/-!
# Listing what a world contributes

Whether the names of contributors are apart can be found out by evaluation in a world whose types
are plain classes: the types that its methods lead to stay within a finite list, each type and each
method of the world contributes one name at most, and these names can be compared.
-/

set_option autoImplicit false

namespace ApiCompiler

/-- Declared classes and classes that are known, without arguments. -/
def TypeExpr.isFlat : TypeExpr → Bool
  | .builtin _ | .declared _ => true
  | _ => false

theorem TypeExpr.eq_of_same_flat {t u : TypeExpr} (hu : u.isFlat = true) (h : t.same u = true) :
    t = u := by
  cases u with
  | builtin c =>
    cases t with
    | builtin d => rw [eq_of_beq h]
    | _ => cases h
  | declared i => exact TypeExpr.same_declared_right.1 h
  | _ => cases hu

namespace World

variable (w : World) (o : Overrides) (types : List TypeExpr)

/-- The types that a type is made from: those of its parts and of its fields. -/
def below (t : TypeExpr) : List TypeExpr :=
  (w.shape o t).part?.toList ++ ((w.fieldsOf t.bare).toOption.getD []).map ModelField.type

/-- The methods of all services. -/
def allMethods : List Method :=
  (List.range w.decls.length).flatMap fun i =>
    match w.loadService (.declared i) with
    | .ok s => s.methods
    | .error _ => []

/-- The types are flat, those of all methods are among them, and so are those that they are made
from. -/
def covers : Bool :=
  (types.all fun t => t.isFlat && (w.below o t).all fun u => types.any u.same) &&
    w.allMethods.all fun m => (w.typesOf m).all fun t => types.any t.same

/-- No type is taken for a model for want of another shape: it has fields. -/
def modelsHaveFields : Bool :=
  types.all fun t =>
    match w.shape o t with
    | .model => (w.fieldsOf t.bare).isOk
    | _ => true

/-- The names of the object types. -/
def objects : List (Contributor × String) :=
  types.filterMap fun t =>
    match w.fieldsOf t.bare, w.modelName t.bare with
    | .ok _, .ok name => some (.model t.bare, name)
    | _, _ => none

end World

namespace Method

/-- The arguments are sent as form parameters: the schemas of their types are known and simple. -/
def sendsForm (w : World) (o : Overrides) (m : Method) : Bool :=
  m.request.1.all fun a =>
    match w.shape o a.annotation with
    | .fixed s => s.isSimple
    | _ => false

/-- The name of the body that a method sends, if it may send one. -/
def bodies (w : World) (o : Overrides) (m : Method) : List (Contributor × String) :=
  match m.requestElement, m.request.1 with
  | some _, _ => [(.method m, m.identifier)]
  | none, [] => []
  | none, first :: _ =>
    if first.param.isSome then if m.sendsForm w o then [] else [(m.requester, m.request.2.1)]
    else if m.decl.implicitParams.any fun p => p.typeName == "object" then [(.method m, m.place)]
    else []

end Method

/-- What the methods of a world may contribute. -/
def World.listing (w : World) (o : Overrides) (types : List TypeExpr) :
    List (Contributor × String) :=
  w.objects types ++ w.allMethods.flatMap (Method.bodies w o)

variable {w : World} {o : Overrides} {S : Method → Prop} {types : List TypeExpr} {t u : TypeExpr}
  {m : Method} {c c' : Contributor} {name : String}

namespace World

theorem Descends.mem_below (h : w.Descends o t u) : u ∈ w.below o t := by
  cases h with
  | part hp =>
    refine List.mem_append_left _ ?_
    rw [PartOf] at hp
    rw [hp]
    exact List.mem_singleton_self u
  | field hfields hf =>
    refine List.mem_append_right _ ?_
    rw [hfields.found]
    exact List.mem_map_of_mem hf

theorem mem_allMethods {s : Service} (hs : w.loadService t = .ok s) (hm : m ∈ s.methods) :
    m ∈ w.allMethods := by
  obtain ⟨i, hi, hlt⟩ := loadService_declared hs
  have hl := loadService_type hs
  refine List.mem_flatMap.2 ⟨i, List.mem_range.2 hlt, ?_⟩
  rw [← hi, hl]
  exact hm

theorem ComesUp.mem_allMethods {roots : TypeExpr → Prop} {includeHidden : Bool}
    (h : w.ComesUp roots includeHidden m) : m ∈ w.allMethods := by
  obtain ⟨_, _, _, _, _, _, _, _, hs, hm, _⟩ := h
  exact World.mem_allMethods hs hm

/-- The methods of a world without request types have none. -/
theorem requestBody_of_all (h : (w.allMethods.all fun m => m.requestBody.isNone) = true)
    (hm : m ∈ w.allMethods) : m.requestBody = none :=
  Option.isNone_iff_eq_none.1 (List.all_eq_true.1 h m hm)

section Covers

variable (hcovers : w.covers o types = true) (hS : ∀ m, S m → m ∈ w.allMethods)
include hcovers

theorem mem_of_any_same (h : types.any t.same = true) : t ∈ types := by
  obtain ⟨flat, _⟩ := Bool.and_eq_true_iff.1 hcovers
  obtain ⟨u, hu, hsame⟩ := List.any_eq_true.1 h
  obtain ⟨hflat, _⟩ := Bool.and_eq_true_iff.1 (List.all_eq_true.1 flat u hu)
  rwa [TypeExpr.eq_of_same_flat hflat hsame]

theorem mem_of_descends (ht : t ∈ types) (hd : w.Descends o t u) : u ∈ types := by
  obtain ⟨flat, _⟩ := Bool.and_eq_true_iff.1 hcovers
  obtain ⟨_, below⟩ := Bool.and_eq_true_iff.1 (List.all_eq_true.1 flat t ht)
  exact mem_of_any_same hcovers (List.all_eq_true.1 below u hd.mem_below)

include hS

theorem MetBy.mem (h : w.MetBy o S t) : t ∈ types := by
  obtain ⟨m, hm, root, hroot, hd⟩ := h
  have start : root ∈ types := by
    obtain ⟨_, methods⟩ := Bool.and_eq_true_iff.1 hcovers
    exact mem_of_any_same hcovers
      (List.all_eq_true.1 (List.all_eq_true.1 methods m (hS m hm)) root hroot)
  induction hd with
  | refl => exact start
  | tail _ hd ih => exact mem_of_descends hcovers ih hd

variable (types) in
theorem hasFields_of_models (hf : w.modelsHaveFields o types = true) (ht : w.MetBy o S t)
    (hd : Relation.ReflTransGen (w.Descends o) t u) (hu : w.shape o u = .model) :
    ∃ fields, w.HasFields o u fields := by
  obtain ⟨m, hm, hmet⟩ := ht
  have met : w.MetBy o S u := ⟨m, hm, hmet.trans hd⟩
  have found := List.all_eq_true.1 hf u (met.mem hcovers hS)
  rw [hu] at found
  obtain ⟨fields, hfields⟩ := except_isOk.1 found
  exact ⟨fields, hu, hfields⟩

end Covers

end World

/-- A form whose types have simple schemas has simple arguments. -/
theorem Method.all_isSimple {schemas : List Schema} (h : m.sendsForm w o = true)
    (hs : List.Forall₂ (fun a s => w.Denotes o a.annotation s) m.request.1 schemas) :
    (m.request.1.zip schemas).all (fun e => e.2.isSimple) = true := by
  unfold sendsForm at h
  generalize m.request.1 = arguments at h hs ⊢
  induction hs with
  | nil => rfl
  | @cons a s arguments schemas hs _ ih =>
    rw [List.all_cons, Bool.and_eq_true] at h
    rw [List.zip_cons_cons, List.all_cons, Bool.and_eq_true]
    refine ⟨?_, ih h.2⟩
    have shown := hs.by_shape
    have simple := h.1
    split at simple
    · rename_i r hr
      rw [hr] at shown
      rw [shown]
      exact simple
    · cases simple

theorem Method.HasBody.mem_bodies {s : Schema} (h : m.HasBody w o c name s) :
    (c, name) ∈ m.bodies w o := by
  unfold bodies
  cases h with
  | token he =>
    rw [he]
    exact List.mem_singleton_self _
  | folded he ha hp hs hn =>
    have folds : m.sendsForm w o = false := by
      refine Bool.eq_false_iff.2 fun h => ?_
      rw [m.all_isSimple h hs] at hn
      cases hn
    rw [he]
    simp only [ha, hp, folds]
    exact List.mem_singleton_self _
  | implicit he ha hp ho =>
    rw [he, ha]
    simp only [hp, ho]
    exact List.mem_singleton_self _

namespace World

variable (hcovers : w.covers o types = true) (hS : ∀ m, S m → m ∈ w.allMethods)
include hcovers hS

theorem Contributes.mem_listing (h : w.Contributes o S c name) : (c, name) ∈ w.listing o types := by
  cases h with
  | @model t fields name h =>
    refine List.mem_append_left _ (List.mem_filterMap.2 ⟨t, h.met.mem hcovers hS, ?_⟩)
    rw [h.object.found, h.named]
  | body hm hb => exact List.mem_append_right _ (List.mem_flatMap.2 ⟨_, hS _ hm, hb.mem_bodies⟩)

variable (types) in
/-- Where no name is listed twice, it is contributed once. -/
theorem Contributes.unique_of_nodup (hn : ((w.listing o types).map Prod.snd).Nodup)
    (h : w.Contributes o S c name) (h' : w.Contributes o S c' name) : c = c' :=
  (Prod.mk.inj (List.inj_on_of_nodup_map hn (h.mem_listing hcovers hS)
    (h'.mem_listing hcovers hS) rfl)).1

variable (types) in
theorem apart_of_nodup (hn : ((w.listing o types).map Prod.snd).Nodup)
    (hr : (w.allMethods.all fun m => m.requestBody.isNone) = true) : w.Apart o S where
  names _ _ _ h h' := Contributes.unique_of_nodup types hcovers hS hn h h'
  requests m body c hm hb _ := by cases (requestBody_of_all hr (hS m hm)).symm.trans hb

end World

end ApiCompiler
