import Mathlib.Data.List.Basic
import ApiCompiler.Proofs.Tables

/-!
# Slots of two-level tables

A table of tables is written slot by slot. A list of writes leaves the outer keys in order of first
occurrence and, below each of them, the inner keys in order of first occurrence among its own
writes; a slot holds what was written to it last.
-/

set_option autoImplicit false

namespace ApiCompiler

namespace Table

variable {α : Type}

/-- Appends a key unless it is there. -/
def addKey (keys : List String) (key : String) : List String :=
  if key ∈ keys then keys else keys ++ [key]

theorem mem_foldl_addKey {keys more : List String} {key : String} :
    key ∈ more.foldl addKey keys ↔ key ∈ keys ∨ key ∈ more := by
  induction more generalizing keys with
  | nil => simp
  | cons k more ih =>
    rw [List.foldl_cons, ih, addKey, List.mem_cons]
    split
    · rename_i h
      constructor
      · exact fun h => h.imp_right .inr
      · rintro (h' | rfl | h')
        · exact .inl h'
        · exact .inl h
        · exact .inr h'
    · rw [List.mem_append, List.mem_singleton, or_assoc]

theorem Distinct.merge {t : Table α} (h : t.Distinct) (u : Table α) : (t.merge u).Distinct := by
  unfold Table.merge
  induction u generalizing t with
  | nil => exact h
  | cons e u ih => exact ih (h.insert _ _)

theorem keys_merge (t u : Table α) : (t.merge u).keys = u.keys.foldl addKey t.keys := by
  unfold merge
  induction u generalizing t with
  | nil => rfl
  | cons e u ih => rw [List.foldl_cons, ih, keys_insert]; rfl

/-- The value that is written last at a key. -/
def lastAt (u : List (String × α)) (key : String) : Option α :=
  ((u.filter fun e => e.1 = key).getLast?).map Prod.snd

theorem lastAt_cons (e : String × α) (u : List (String × α)) (key : String) :
    lastAt (e :: u) key = (lastAt u key).or (if e.1 = key then some e.2 else none) := by
  unfold lastAt
  by_cases h : e.1 = key
  · rw [List.filter_cons_of_pos (by simpa using h), List.getLast?_cons, if_pos h]
    cases (u.filter fun e => e.1 = key).getLast? <;> rfl
  · rw [List.filter_cons_of_neg (by simpa using h), if_neg h, Option.or_none]

theorem lastAt_eq_none {u : List (String × α)} {key : String} (h : ∀ e ∈ u, e.1 ≠ key) :
    lastAt u key = none := by
  have none : u.filter (fun e => e.1 = key) = [] :=
    List.filter_eq_nil_iff.2 fun e he => by simpa using h e he
  rw [lastAt, none]
  rfl

theorem isSome_lastAt (u : List (String × α)) (key : String) :
    (lastAt u key).isSome = u.any (·.1 == key) := by
  induction u with
  | nil => rfl
  | cons e u ih =>
    rw [lastAt_cons, Option.isSome_or, ih, List.any_cons, Bool.or_comm]
    by_cases h : e.1 = key <;> simp [h]

theorem has_eq_isSome_lastAt (u : Table α) (x : String) :
    u.has x = (lastAt u x).isSome := by
  rw [isSome_lastAt]
  induction u with
  | nil => rfl
  | cons e u ih =>
    rw [List.any_cons, ← ih]
    unfold has
    obtain ⟨k, v⟩ := e
    rw [get?_cons]
    by_cases h : k = x <;> simp [h]

theorem lastAt_append (u v : List (String × α)) (key : String) :
    lastAt (u ++ v) key = (lastAt v key).or (lastAt u key) := by
  rw [lastAt, List.filter_append, List.getLast?_append, Option.map_or]
  rfl

theorem lastAt_filter (p : String → Bool) (t : Table α) (key : String) :
    lastAt (t.filter fun e => p e.1) key = if p key then lastAt t key else none := by
  unfold lastAt
  rw [List.filter_filter]
  split
  · rename_i hp
    congr 2
    refine List.filter_congr fun e _ => ?_
    by_cases he : e.1 = key <;> simp [he, hp]
  · rename_i hp
    rw [List.filter_eq_nil_iff.2 fun e _ => ?_]
    · rfl
    · by_cases he : e.1 = key <;> simp [he, hp]

theorem lastAt_mapValues {β : Type} (f : α → β) (t : Table α) (key : String) :
    lastAt (t.mapValues f) key = (lastAt t key).map f := by
  induction t with
  | nil => rfl
  | cons e t ih =>
    show lastAt ((e.1, f e.2) :: mapValues f t) key = _
    rw [lastAt_cons, lastAt_cons, ih]
    cases lastAt t key <;> simp [apply_ite]

/-- What the entries of several members hold at a key, the first member counting most. -/
theorem lastAt_flatMap_reverse {β : Type} (l : List β) (g : β → List (String × α)) (key : String) :
    lastAt (l.reverse.flatMap g) key = l.findSome? fun a => lastAt (g a) key := by
  unfold lastAt
  rw [List.filter_flatMap, List.getLast?_flatMap, List.reverse_reverse, List.map_findSome?]
  rfl

theorem get?_merge (t u : Table α) (key : String) :
    (t.merge u).get? key = (lastAt u key).or (t.get? key) := by
  unfold merge
  induction u generalizing t with
  | nil => rfl
  | cons e u ih =>
    rw [List.foldl_cons, ih, get?_insert, lastAt_cons, Option.or_assoc]
    split <;> simp

theorem distinct_ofList (u : List (String × α)) : (ofList u).Distinct := distinct_nil.merge u

theorem get?_ofList (u : List (String × α)) (key : String) : (ofList u).get? key = lastAt u key :=
  (get?_merge [] u key).trans Option.or_none

theorem foldl_addKey_of_subset {keys more : List String} (h : ∀ k ∈ more, k ∈ keys) :
    more.foldl addKey keys = keys := by
  induction more with
  | nil => rfl
  | cons k more ih =>
    rw [List.foldl_cons, addKey, if_pos (h k List.mem_cons_self)]
    exact ih fun m hm => h m (List.mem_cons_of_mem _ hm)

/-- Tables with the same distinct keys in the same order are told apart by their values. -/
theorem Distinct.ext {t u : Table α} (ht : t.Distinct) (hk : t.keys = u.keys)
    (h : ∀ key ∈ t.keys, t.get? key = u.get? key) : t = u := by
  induction t generalizing u with
  | nil => exact (List.map_eq_nil_iff.1 hk.symm).symm
  | cons e t ih =>
    obtain ⟨k, a⟩ := e
    cases u with
    | nil => cases hk
    | cons e' u =>
      obtain ⟨k', b⟩ := e'
      obtain ⟨rfl, hrest⟩ := List.cons.inj hk
      obtain ⟨hnew, ht⟩ := List.nodup_cons.1 ht
      have first := h k List.mem_cons_self
      rw [get?_cons, get?_cons, if_pos rfl, if_pos rfl] at first
      rw [Option.some.inj first, ih ht hrest fun key hkey => ?_]
      have hne : k ≠ key := fun he => hnew (he ▸ hkey)
      have later := h key (List.mem_cons_of_mem _ hkey)
      rwa [get?_cons, get?_cons, if_neg hne, if_neg hne] at later

/-- What has been written is written again in its place. -/
theorem Distinct.merge_again {t : Table α} (h : t.Distinct) (u : Table α) :
    (t.merge u).merge u = t.merge u := by
  have hkeys : ((t.merge u).merge u).keys = (t.merge u).keys := by
    rw [keys_merge]
    refine foldl_addKey_of_subset fun k hk => ?_
    rw [keys_merge]
    exact mem_foldl_addKey.2 (.inr hk)
  refine ((h.merge u).merge u).ext hkeys fun key _ => ?_
  rw [get?_merge, get?_merge]
  cases lastAt u key <;> simp

/-- With distinct keys, a table is read off its keys. -/
theorem Distinct.flatMap_eq {β : Type} {t : Table (Table α)} (h : t.Distinct)
    (f : String × Table α → List β) :
    t.flatMap f = t.keys.flatMap fun key => f (key, (t.get? key).getD []) := by
  induction t with
  | nil => rfl
  | cons e t ih =>
    obtain ⟨k, v⟩ := e
    have hk : k ∉ keys t := (List.nodup_cons.1 h).1
    rw [List.flatMap_cons, keys_cons, List.flatMap_cons, ih (List.nodup_cons.1 h).2, get?_cons,
      if_pos rfl]
    congr 1
    refine List.flatMap_congr fun key hkey => ?_
    rw [get?_cons, if_neg fun he : k = key => hk (he ▸ hkey)]

end Table

/-- A place in a table of tables: the outer and the inner key. -/
abbrev Slot := String × String

namespace Slot

variable {α : Type}

/-- Writes to a slot. -/
def write (t : Table (Table α)) (slot : Slot) (a : α) : Table (Table α) :=
  t.insert slot.1 (((t.get? slot.1).getD []).insert slot.2 a)

/-- Writes one after the other. -/
def writeAll (t : Table (Table α)) (writes : List (Slot × α)) : Table (Table α) :=
  writes.foldl (fun t e => write t e.1 e.2) t

/-- What a slot holds. -/
def at? (t : Table (Table α)) (slot : Slot) : Option α :=
  (t.get? slot.1).bind fun u => u.get? slot.2

/-- The slots of a table, in order. -/
def ofTable (t : Table (Table α)) : List Slot :=
  t.flatMap fun e => e.2.keys.map fun key => (e.1, key)

/-- Slots in order of first occurrence on both levels. -/
def order (slots : List Slot) : List Slot :=
  (distinctNames (slots.map Prod.fst)).flatMap fun outer =>
    (distinctNames ((slots.filter fun s => s.1 = outer).map Prod.snd)).map fun inner =>
      (outer, inner)

theorem writeAll_append (t : Table (Table α)) (writes more : List (Slot × α)) :
    writeAll t (writes ++ more) = writeAll (writeAll t writes) more :=
  List.foldl_append

theorem keys_writeAll (writes : List (Slot × α)) (t : Table (Table α)) :
    (writeAll t writes).keys = (writes.map fun e => e.1.1).foldl Table.addKey t.keys := by
  unfold writeAll
  induction writes generalizing t with
  | nil => rfl
  | cons e writes ih => rw [List.foldl_cons, ih, write, Table.keys_insert]; rfl

theorem distinct_writeAll (writes : List (Slot × α)) {t : Table (Table α)} (h : t.Distinct) :
    (writeAll t writes).Distinct := by
  unfold writeAll
  induction writes generalizing t with
  | nil => exact h
  | cons e writes ih => exact ih (h.insert _ _)

/-- Below an outer key stands what was written below it, in order. -/
theorem get?_writeAll (writes : List (Slot × α)) (t : Table (Table α)) (outer : String) :
    ((writeAll t writes).get? outer).getD [] = Table.merge ((t.get? outer).getD [])
      ((writes.filter fun e => e.1.1 = outer).map fun e => (e.1.2, e.2)) := by
  unfold writeAll
  induction writes generalizing t with
  | nil => rfl
  | cons e writes ih =>
    rw [List.foldl_cons, ih, write, Table.get?_insert]
    by_cases h : e.1.1 = outer
    · subst h
      rw [if_pos rfl, List.filter_cons_of_pos (by simp)]
      rfl
    · rw [if_neg h, List.filter_cons_of_neg (by simpa using h)]

theorem ofTable_writeAll (writes : List (Slot × α)) :
    ofTable (writeAll [] writes) = order (writes.map Prod.fst) := by
  unfold ofTable order
  rw [(distinct_writeAll writes Table.distinct_nil).flatMap_eq, keys_writeAll, List.map_map]
  refine List.flatMap_congr fun outer _ => ?_
  simp only
  rw [get?_writeAll, Table.keys_merge, List.filter_map, List.map_map]
  congr 2
  simp [Table.keys, Function.comp_def]

theorem at?_writeAll (writes : List (Slot × α)) (slot : Slot) :
    at? (writeAll [] writes) slot =
      ((writes.filter fun e => e.1 = slot).getLast?).map Prod.snd := by
  have hat : at? (writeAll [] writes) slot =
      (((writeAll [] writes).get? slot.1).getD []).get? slot.2 := by
    unfold at?
    cases (writeAll [] writes).get? slot.1 <;> rfl
  rw [hat, get?_writeAll, Table.get?_merge]
  have hfilter : ((writes.filter fun e => e.1.1 = slot.1).map fun e => (e.1.2, e.2)).filter
      (fun e => e.1 = slot.2) = (writes.filter fun e => e.1 = slot).map fun e => (e.1.2, e.2) := by
    rw [List.filter_map, List.filter_filter]
    congr 1
    refine List.filter_congr fun e _ => ?_
    simp [Prod.ext_iff, Bool.and_comm]
  unfold Table.lastAt
  rw [hfilter, List.getLast?_map, Option.map_map]
  simp [Function.comp_def]

end Slot

end ApiCompiler
