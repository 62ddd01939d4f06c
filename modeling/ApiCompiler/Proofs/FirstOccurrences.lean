import Mathlib.Data.List.Induction
import ApiCompiler.Operation
import ApiCompiler.Proofs.Slots

/-!
# First occurrences

Lists of keys and of names grow at the end, by what they do not have yet. However the growing is
spread over steps, it leaves the first occurrences in the list of all that was added. Tables that
are merged one after the other have their keys in that order, each with what the last table has for
it.
-/

set_option autoImplicit false

namespace ApiCompiler

namespace Table

theorem foldl_addKey_nil (more : List String) : more.foldl addKey [] = more.eraseDups := by
  induction more using List.reverseRecOn with
  | nil => rfl
  | append_singleton more k ih =>
    rw [List.foldl_concat, ih, List.eraseDups_append]
    by_cases hk : k ∈ more <;> simp [addKey, List.removeAll, hk, List.eraseDups_cons]

/-- What is added may have been brought together before. -/
theorem foldl_addKey_foldl_addKey (keys first more : List String) :
    (more.foldl addKey first).foldl addKey keys = (first ++ more).foldl addKey keys := by
  induction more generalizing first with
  | nil => rw [List.append_nil]; rfl
  | cons k more ih =>
    rw [List.foldl_cons, ih, addKey]
    split
    · rename_i hk
      have there : k ∈ first.foldl addKey keys := mem_foldl_addKey.2 (.inr hk)
      rw [List.foldl_append, List.foldl_append, List.foldl_cons, addKey, if_pos there]
    · rw [List.append_assoc, List.singleton_append]

theorem foldl_addKey_eraseDups (keys more : List String) :
    more.eraseDups.foldl addKey keys = more.foldl addKey keys := by
  rw [← foldl_addKey_nil, foldl_addKey_foldl_addKey, List.nil_append]

end Table

theorem eraseDups_append_eraseDups (names more : List String) :
    (names ++ more.eraseDups).eraseDups = (names ++ more).eraseDups := by
  rw [← Table.foldl_addKey_nil (names ++ _), List.foldl_append, Table.foldl_addKey_eraseDups,
    ← List.foldl_append, Table.foldl_addKey_nil]

theorem eraseDups_eraseDups_append (names more : List String) :
    (names.eraseDups ++ more).eraseDups = (names ++ more).eraseDups := by
  rw [← Table.foldl_addKey_nil (_ ++ more), List.foldl_append, Table.foldl_addKey_eraseDups,
    ← List.foldl_append, Table.foldl_addKey_nil]

theorem eraseDups_append_self (names : List String) :
    (names ++ names).eraseDups = names.eraseDups := by
  rw [← Table.foldl_addKey_nil (names ++ names), List.foldl_append,
    Table.foldl_addKey_of_subset fun n hn => Table.mem_foldl_addKey.2 (.inr hn),
    Table.foldl_addKey_nil]

theorem distinctNames_eq (names : List String) : distinctNames names = names.eraseDups :=
  Table.foldl_addKey_nil names

/-- A list of names takes over the names that are not empty. -/
theorem foldl_addName_eq (names more : List String) :
    more.foldl addName names = (more.filter (· ≠ "")).foldl Table.addKey names := by
  induction more generalizing names with
  | nil => rfl
  | cons n more ih =>
    rw [List.foldl_cons, ih, addName]
    by_cases hn : n = ""
    · simp [hn]
    · simp [hn, Table.addKey]

namespace Table

variable {α ι : Type}

/-- The keys of tables that are merged one after the other. -/
theorem keys_foldl_merge (t : Table α) (f : ι → Table α) (is : List ι) :
    (is.foldl (fun acc i => acc.merge (f i)) t).keys =
      (is.flatMap fun i => (f i).keys).foldl addKey t.keys := by
  induction is generalizing t with
  | nil => rfl
  | cons i is ih => rw [List.foldl_cons, ih, keys_merge, List.flatMap_cons, List.foldl_append]

theorem get?_foldl_merge (t : Table α) (f : ι → Table α) (is : List ι) (key : String) :
    (is.foldl (fun acc i => acc.merge (f i)) t).get? key =
      (is.reverse.findSome? fun i => lastAt (f i) key).or (t.get? key) := by
  induction is generalizing t with
  | nil => rfl
  | cons i is ih =>
    rw [List.foldl_cons, ih, get?_merge, List.reverse_cons, List.findSome?_append, Option.or_assoc]
    simp only [List.findSome?_cons, List.findSome?_nil]
    cases lastAt (f i) key <;> rfl

theorem Distinct.foldl_merge {t : Table α} (h : t.Distinct) (f : ι → Table α) (is : List ι) :
    (is.foldl (fun acc i => acc.merge (f i)) t).Distinct := by
  induction is generalizing t with
  | nil => exact h
  | cons i is ih => exact ih (h.merge _)

end Table

end ApiCompiler
