import Mathlib.Data.List.Infix
import Mathlib.Data.List.TakeWhile
import ApiCompiler.Route.Path

/-!
# Trimming

What dropping characters at the end of a text and trimming it leave, and when they leave it as it
is. A path, which starts with a slash, is trimmed at its end only.
-/

set_option autoImplicit false

namespace ApiCompiler.Path

open Text (trimChars dropEndWhile isBlank)

variable {cs front rest : List Char}

/-! ### Dropping at the end -/

/-- What is dropped at the end satisfies the predicate. -/
theorem exists_dropEndWhile (p : Char → Bool) (cs : List Char) :
    ∃ rest, cs = dropEndWhile p cs ++ rest ∧ ∀ c ∈ rest, p c = true := by
  refine ⟨(cs.reverse.takeWhile p).reverse, ?_, fun c hc => ?_⟩
  · rw [dropEndWhile, ← List.reverse_append, List.takeWhile_append_dropWhile, List.reverse_reverse]
  · exact List.all_eq_true.1 List.all_takeWhile c (List.mem_reverse.1 hc)

theorem dropWhile_eq_self_iff_head? {p : Char → Bool} :
    cs.dropWhile p = cs ↔ ∀ c, cs.head? = some c → p c = false := by
  cases cs with
  | nil => exact iff_of_true rfl nofun
  | cons c more => simp [List.dropWhile_eq_self_iff]

/-- Nothing is dropped exactly if the last character does not satisfy the predicate. -/
theorem dropEndWhile_eq_self_iff {p : Char → Bool} :
    dropEndWhile p cs = cs ↔ ∀ c, cs.getLast? = some c → p c = false := by
  rw [dropEndWhile, List.reverse_eq_iff, dropWhile_eq_self_iff_head?,
    List.getLast?_eq_head?_reverse]

/-- Nothing is dropped in front of a part that does not satisfy the predicate throughout. -/
theorem dropEndWhile_append {p : Char → Bool} (h : ∃ c ∈ rest, p c = false) (front : List Char) :
    dropEndWhile p (front ++ rest) = front ++ dropEndWhile p rest := by
  obtain ⟨c, hc, hp⟩ := h
  have stops : (rest.reverse.dropWhile p).isEmpty = false := by
    refine Bool.eq_false_iff.2 fun hempty => ?_
    have all := List.dropWhile_eq_nil_iff.1 (List.isEmpty_iff.1 hempty) c (List.mem_reverse.2 hc)
    rw [hp] at all
    cases all
  rw [dropEndWhile, List.reverse_append, List.dropWhile_append, stops]
  simp [dropEndWhile]

/-! ### Blanks -/

theorem ne_of_isBlank {c : Char} (h : isBlank c = true) : c ≠ '/' ∧ c ≠ '{' ∧ c ≠ '}' := by
  refine ⟨?_, ?_, ?_⟩ <;> rintro rfl <;> exact absurd h (by decide)

theorem mem_trimChars {c : Char} (h : c ∈ trimChars cs) : c ∈ cs := by
  obtain ⟨rest, hrest, -⟩ := exists_dropEndWhile isBlank (cs.dropWhile isBlank)
  refine (List.dropWhile_sublist isBlank).subset ?_
  rw [hrest]
  exact List.mem_append_left _ h

/-- What trimming takes away are blanks at both ends. -/
theorem exists_blanks_around (cs : List Char) : ∃ before after,
    cs = before ++ trimChars cs ++ after ∧
      (∀ c ∈ before, isBlank c = true) ∧ ∀ c ∈ after, isBlank c = true := by
  obtain ⟨after, hafter, blank⟩ := exists_dropEndWhile isBlank (cs.dropWhile isBlank)
  refine ⟨cs.takeWhile isBlank, after, ?_, fun c hc => ?_, blank⟩
  · rw [trimChars, List.append_assoc, ← hafter, List.takeWhile_append_dropWhile]
  · exact List.all_eq_true.1 List.all_takeWhile c hc

/-- There is no blank at either end. -/
def Tight (cs : List Char) : Prop :=
  (∀ c, cs.head? = some c → isBlank c = false) ∧ ∀ c, cs.getLast? = some c → isBlank c = false

theorem tight_iff : Tight cs ↔ trimChars cs = cs := by
  rw [Tight, ← dropWhile_eq_self_iff_head?, ← dropEndWhile_eq_self_iff]
  constructor
  · rintro ⟨hfirst, hlast⟩
    rw [trimChars, hfirst, hlast]
  · intro h
    have start : cs.dropWhile isBlank = cs := by
      refine (List.dropWhile_sublist isBlank).eq_of_length_le ?_
      obtain ⟨after, hafter, -⟩ := exists_dropEndWhile isBlank (cs.dropWhile isBlank)
      have long := congrArg List.length hafter
      have kept := congrArg List.length h
      rw [trimChars] at kept
      rw [List.length_append] at long
      omega
    rw [trimChars, start] at h
    exact ⟨start, h⟩

theorem Tight.append (h : Tight front) (hrest : Tight rest) (hne : front ≠ []) (hne' : rest ≠ []) :
    Tight (front ++ rest) := by
  obtain ⟨c, more, rfl⟩ := List.exists_cons_of_ne_nil hne
  refine ⟨h.1, ?_⟩
  rw [List.getLast?_append_of_ne_nil _ hne']
  exact hrest.2

theorem tight_slash : Tight ['/'] :=
  ⟨fun c hc => by cases hc; decide, fun c hc => by cases hc; decide⟩

/-! ### Paths -/

/-- The last character is blank. -/
def EndsBlank (cs : List Char) : Prop := ∃ c, cs.getLast? = some c ∧ isBlank c = true

instance (cs : List Char) : Decidable (EndsBlank cs) :=
  decidable_of_iff (cs.getLast?.any isBlank = true) (Option.any_eq_true _ _)

theorem endsBlank_append (hne : rest ≠ []) (front : List Char) :
    EndsBlank (front ++ rest) ↔ EndsBlank rest := by
  unfold EndsBlank
  rw [List.getLast?_append_of_ne_nil _ hne]

theorem trimChars_slash (cs : List Char) :
    trimChars ('/' :: cs) = dropEndWhile isBlank ('/' :: cs) := by
  rw [trimChars, List.dropWhile_cons_of_neg (by decide)]

theorem trimChars_eq_self_iff :
    trimChars ('/' :: cs) = '/' :: cs ↔ ¬ EndsBlank ('/' :: cs) := by
  rw [trimChars_slash, dropEndWhile_eq_self_iff, EndsBlank, not_exists]
  exact forall_congr' fun c => by simp

/-- A path is trimmed at its end only. -/
theorem exists_blanks_behind (cs : List Char) : ∃ rest, '/' :: cs = trimChars ('/' :: cs) ++ rest ∧
    (∀ c ∈ rest, isBlank c = true) ∧ (EndsBlank ('/' :: cs) ↔ rest ≠ []) := by
  obtain ⟨rest, hrest, blank⟩ := exists_dropEndWhile isBlank ('/' :: cs)
  rw [← trimChars_slash] at hrest
  refine ⟨rest, hrest, blank, iff_not_comm.1 ?_⟩
  rw [← trimChars_eq_self_iff]
  constructor
  · intro h
    rw [h, List.append_nil] at hrest
    exact hrest.symm
  · intro h
    rw [h] at hrest
    exact List.self_eq_append_right.1 hrest

theorem exists_trimmed (cs : List Char) : ∃ more, trimChars ('/' :: cs) = '/' :: more := by
  obtain ⟨rest, hrest, blank, -⟩ := exists_blanks_behind cs
  cases htrimmed : trimChars ('/' :: cs) with
  | nil =>
    rw [htrimmed, List.nil_append] at hrest
    exact absurd (blank '/' (hrest ▸ List.mem_cons_self)) (by decide)
  | cons c more =>
    rw [htrimmed, List.cons_append] at hrest
    exact ⟨more, by rw [(List.cons.inj hrest).1]⟩

end ApiCompiler.Path
