import Mathlib.Data.List.Nodup
import Mathlib.Data.List.Perm.Basic
import Mathlib.Data.String.Basic
import ApiCompiler.Proofs.Slots
import ApiCompiler.Swagger

/-!
# Rendered tables

A rendered table is sorted, so that it shows what is under its keys and not in which order they have
been written. Two documents whose slots hold the same operations have the same rendered paths, and
two with the same definitions the same rendered definitions.
-/

set_option autoImplicit false

namespace ApiCompiler

namespace Table

variable {α β : Type} {t u : Table α}

theorem Distinct.nodup (h : t.Distinct) : t.Nodup := List.Nodup.of_map Prod.fst h

theorem Distinct.get?_of_mem (h : t.Distinct) {e : String × α} (he : e ∈ t) :
    t.get? e.1 = some e.2 := by
  induction t with
  | nil => cases he
  | cons e' t ih =>
    obtain ⟨hnew, ht⟩ := List.nodup_cons.1 h
    rw [get?_cons]
    rcases List.mem_cons.1 he with rfl | he
    · rw [if_pos rfl]
    · have hkey : e.1 ∈ keys t := List.mem_map_of_mem he
      rw [if_neg fun hk : e'.1 = e.1 => hnew (hk ▸ hkey), ih ht he]

theorem Distinct.mem_iff (h : t.Distinct) {e : String × α} : e ∈ t ↔ t.get? e.1 = some e.2 :=
  ⟨h.get?_of_mem, fun he => mem_of_get? he⟩

theorem get?_mapValues (f : α → β) (t : Table α) (key : String) :
    (t.mapValues f).get? key = (t.get? key).map f := by
  induction t with
  | nil => rfl
  | cons e t ih =>
    obtain ⟨k, a⟩ := e
    show get? ((k, f a) :: mapValues f t) key = _
    rw [get?_cons, get?_cons, ih]
    split <;> rfl

theorem keys_mapValues (f : α → β) (t : Table α) : (t.mapValues f).keys = t.keys := by
  unfold keys mapValues
  rw [List.map_map]
  rfl

theorem Distinct.mapValues (h : t.Distinct) (f : α → β) : (t.mapValues f).Distinct := by
  unfold Distinct
  rwa [keys_mapValues]

theorem sorted_mapValues (f : α → β) (t : Table α) :
    t.sorted.mapValues f = (t.mapValues f).sorted :=
  List.map_mergeSort fun _ _ _ _ => rfl

theorem pairwise_sorted (t : Table α) : t.sorted.Pairwise fun a b => a.1 ≤ b.1 := by
  refine (List.pairwise_mergeSort (fun a b c hab hbc => ?_) (fun a b => ?_) t).imp of_decide_eq_true
  · exact decide_eq_true ((of_decide_eq_true hab).trans (of_decide_eq_true hbc))
  · rw [Bool.or_eq_true, decide_eq_true_iff, decide_eq_true_iff]
    exact String.le_total a.1 b.1

/-- Sorted tables with the same values under the same distinct keys are equal. -/
theorem Distinct.sorted_eq (ht : t.Distinct) (hu : u.Distinct)
    (h : ∀ key, t.get? key = u.get? key) : t.sorted = u.sorted := by
  have perm : t.Perm u := (List.perm_ext_iff_of_nodup ht.nodup hu.nodup).2 fun e => by
    rw [ht.mem_iff, hu.mem_iff, h]
  have sorted : t.sorted.Perm u.sorted :=
    (List.mergeSort_perm t _).trans (perm.trans (List.mergeSort_perm u _).symm)
  refine sorted.eq_of_pairwise (fun a b ha hb hab hba => ?_) (pairwise_sorted t) (pairwise_sorted u)
  have ha : t.get? a.1 = some a.2 := ht.get?_of_mem ((List.mergeSort_perm t _).mem_iff.1 ha)
  have hb : u.get? b.1 = some b.2 := hu.get?_of_mem ((List.mergeSort_perm u _).mem_iff.1 hb)
  have key : a.1 = b.1 := le_antisymm hab hba
  rw [← key, ← h, ha] at hb
  exact Prod.ext key (Option.some.inj hb)

end Table

namespace Slot

variable {α : Type} {writes writes' : List (Slot × α)}

theorem at?_of_get? {t : Table (Table α)} {outer : String} {u : Table α}
    (h : t.get? outer = some u) (inner : String) : at? t (outer, inner) = u.get? inner := by
  rw [at?, h, Option.bind_some]

/-- Below each outer key the inner ones are distinct. -/
theorem distinct_below {outer : String} {u : Table α}
    (h : (writeAll [] writes).get? outer = some u) :
    u.Distinct := by
  have inner := get?_writeAll writes [] outer
  rw [h, Option.getD_some] at inner
  rw [inner]
  exact Table.distinct_nil.merge _

/-- Permuted writes that leave each slot the same value leave tables that look the same sorted. -/
theorem sorted_writeAll {β : Type} {f : Table α → β}
    (hf : ∀ ⦃u u' : Table α⦄, u.Distinct → u'.Distinct → (∀ key, u.get? key = u'.get? key) →
      f u = f u') (hperm : writes.Perm writes')
    (h : ∀ slot, at? (writeAll [] writes) slot = at? (writeAll [] writes') slot) :
    (writeAll [] writes).sorted.mapValues f = (writeAll [] writes').sorted.mapValues f := by
  have distinct (writes : List (Slot × α)) : (writeAll [] writes).Distinct :=
    distinct_writeAll writes Table.distinct_nil
  have found {writes writes' : List (Slot × α)} (hperm : writes.Perm writes') {outer : String}
      (ho : (writeAll [] writes).has outer) : (writeAll [] writes').has outer := by
    rw [Table.has_iff_mem_keys, keys_writeAll, Table.mem_foldl_addKey] at ho ⊢
    exact ho.imp_right (hperm.map _).mem_iff.1
  rw [Table.sorted_mapValues, Table.sorted_mapValues]
  refine ((distinct writes).mapValues f).sorted_eq ((distinct writes').mapValues f) fun outer => ?_
  rw [Table.get?_mapValues, Table.get?_mapValues]
  cases hu : (writeAll [] writes).get? outer with
  | none =>
    cases hu' : (writeAll [] writes').get? outer with
    | none => rfl
    | some u' =>
      have ho := found hperm.symm (Option.isSome_iff_exists.2 ⟨u', hu'⟩)
      rw [Table.has, hu] at ho
      cases ho
  | some u =>
    obtain ⟨u', hu'⟩ := Option.isSome_iff_exists.1
      (found hperm (Option.isSome_iff_exists.2 ⟨u, hu⟩))
    rw [hu', Option.map_some, Option.map_some]
    refine congrArg some (hf (distinct_below hu) (distinct_below hu') fun inner => ?_)
    rw [← at?_of_get? hu, ← at?_of_get? hu']
    exact h (outer, inner)

end Slot

theorem Value.record_injective : Function.Injective Value.record := by
  intro t u h
  have texts : Function.Injective fun e : String × Value => (Scalar.text e.1, e.2) := by
    rintro ⟨k, v⟩ ⟨k', v'⟩ h
    obtain ⟨hk, hv⟩ := Prod.mk.inj h
    exact Prod.ext (Scalar.text.inj hk) hv
  exact texts.list_map (Value.map.inj h)

namespace Swagger

variable {d d' : Document}

/-- Rendered definitions are the same when the same names are defined as the same. -/
theorem definitions_eq (hd : d.definitions.Distinct) (hd' : d'.definitions.Distinct)
    (h : ∀ name, d.definitions.get? name = d'.definitions.get? name) :
    definitions d = definitions d' := by
  unfold definitions
  rw [hd.sorted_eq hd' h]

/-- What is rendered of a definition can be read off the rendered definitions. -/
theorem schema_of_definitions_eq (hd : d.definitions.Distinct) (hd' : d'.definitions.Distinct)
    (h : definitions d = definitions d') (name : String) :
    (d.definitions.get? name).map schema = (d'.definitions.get? name).map schema := by
  have sorted := Value.record_injective h
  rw [Table.sorted_mapValues, Table.sorted_mapValues] at sorted
  have perm := (List.mergeSort_perm (d.definitions.mapValues schema) _).symm.trans
    ((List.Perm.of_eq sorted).trans (List.mergeSort_perm (d'.definitions.mapValues schema) _))
  rw [← Table.get?_mapValues, ← Table.get?_mapValues]
  refine Option.ext fun a => ?_
  have hmem := perm.mem_iff (a := (name, a))
  rwa [(hd.mapValues schema).mem_iff, (hd'.mapValues schema).mem_iff] at hmem

/-- Rendered paths are the same when permuted writes have left each slot the same operation. -/
theorem paths_eq {writes writes' : List (Slot × Operation)}
    (hd : d.paths = Slot.writeAll [] writes) (hd' : d'.paths = Slot.writeAll [] writes')
    (hperm : writes.Perm writes')
    (h : ∀ slot, Slot.at? d.paths slot = Slot.at? d'.paths slot) : paths d = paths d' := by
  unfold paths
  rw [hd, hd'] at h ⊢
  refine congrArg Value.record (Slot.sorted_writeAll (fun u u' hu hu' hget => ?_) hperm h)
  rw [hu.sorted_eq hu' hget]

end Swagger

end ApiCompiler
