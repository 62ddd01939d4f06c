import Mathlib.Data.List.Infix
import ApiCompiler.Types.Text

/-!
# Reading texts back

What a text has been put together from can be read off it where the parts hold no mark that stands
between them. Removing a word from a text removes it from the parts, when no mark is in the word.
-/

set_option autoImplicit false

namespace ApiCompiler

namespace Text

/-- A text is cut in one way only in front of its first mark. -/
theorem append_inj_of_mark {α : Type} {mark : α → Bool} {front front' rest rest' : List α}
    (h : ∀ c ∈ front, mark c = false) (h' : ∀ c ∈ front', mark c = false)
    (hr : ∀ c ∈ rest.head?, mark c = true) (hr' : ∀ c ∈ rest'.head?, mark c = true)
    (he : front ++ rest = front' ++ rest') : front = front' ∧ rest = rest' := by
  induction front generalizing front' with
  | nil =>
    cases front' with
    | nil => exact ⟨rfl, he⟩
    | cons c front' =>
      have hc : mark c = true := by
        apply hr
        rw [show rest = c :: (front' ++ rest') from he]
        rfl
      rw [h' c List.mem_cons_self] at hc
      cases hc
  | cons c front ih =>
    cases front' with
    | nil =>
      have hc : mark c = true := by
        apply hr'
        rw [← show c :: (front ++ rest) = rest' from he]
        rfl
      rw [h c List.mem_cons_self] at hc
      cases hc
    | cons c' front' =>
      obtain ⟨rfl, hrests⟩ := List.cons.inj he
      obtain ⟨hfront, hrest⟩ := ih (fun c hc => h c (List.mem_cons_of_mem _ hc))
        (fun c hc => h' c (List.mem_cons_of_mem _ hc)) hrests
      exact ⟨by rw [hfront], hrest⟩

end Text

namespace World

/-- A text without a word. -/
def without (word cs : List Char) : List Char := removeWord word cs.length cs

section

variable {word : List Char} (hw : word ≠ [])
include hw

/-- As many steps as there are characters are enough. -/
theorem removeWord_stable {n m : Nat} {cs : List Char} (hn : cs.length ≤ n) (hm : cs.length ≤ m) :
    removeWord word n cs = removeWord word m cs := by
  induction n generalizing m cs with
  | zero =>
    have hcs : cs = [] := List.length_eq_zero_iff.1 (Nat.le_zero.1 hn)
    subst hcs
    cases m <;> rfl
  | succ n ih =>
    cases cs with
    | nil => cases m <;> rfl
    | cons c cs =>
      cases m with
      | zero => simp at hm
      | succ m =>
        have hlen : cs.length ≤ n ∧ cs.length ≤ m := by
          simp only [List.length_cons] at hn hm
          omega
        unfold removeWord
        split
        · have hword : 0 < word.length := List.length_pos_iff.2 hw
          apply ih
          · simp only [List.length_drop, List.length_cons]
            omega
          · simp only [List.length_drop, List.length_cons]
            omega
        · rw [ih hlen.1 hlen.2]

theorem without_word (cs : List Char) : without word (word ++ cs) = without word cs := by
  cases word with
  | nil => exact absurd rfl hw
  | cons d ds =>
    have hprefix : (d :: ds).isPrefixOf (d :: (ds ++ cs)) = true :=
      List.isPrefixOf_iff_prefix.2 (List.prefix_append (d :: ds) cs)
    show removeWord (d :: ds) ((d :: ds) ++ cs).length (d :: (ds ++ cs)) = _
    rw [List.length_append, List.length_cons, Nat.add_right_comm]
    unfold removeWord
    rw [if_pos hprefix]
    have hdrop : (d :: (ds ++ cs)).drop (d :: ds).length = cs := List.drop_left
    rw [hdrop]
    exact removeWord_stable hw (by omega) le_rfl

omit hw in
theorem without_cons {c : Char} {cs : List Char} (h : ¬ word <+: c :: cs) :
    without word (c :: cs) = c :: without word cs := by
  show removeWord word (cs.length + 1) (c :: cs) = _
  unfold removeWord
  rw [if_neg fun hp => h (List.isPrefixOf_iff_prefix.1 hp)]
  rfl

omit hw in
/-- A word that begins in front of a mark ends there. -/
theorem prefix_of_prefix_append_mark {c : Char} (hc : c ∉ word) {front rest : List Char}
    (h : word <+: front ++ c :: rest) : word <+: front := by
  obtain ⟨after, hafter⟩ := h
  rcases List.append_eq_append_iff.1 hafter with ⟨more, hfront, _⟩ | ⟨more, hword, hmore⟩
  · exact ⟨more, hfront.symm⟩
  · cases more with
    | nil =>
      rw [List.append_nil] at hword
      rw [hword]
    | cons d more =>
      rw [List.cons_append] at hmore
      rw [hword, (List.cons.inj hmore).1] at hc
      exact absurd (List.mem_append_right _ List.mem_cons_self) hc

theorem without_append_mark {c : Char} (hc : c ∉ word) (front rest : List Char) :
    without word (front ++ c :: rest) = without word front ++ c :: without word rest := by
  induction hn : front.length using Nat.strong_induction_on generalizing front with
  | h n ih =>
    cases front with
    | nil =>
      have hprefix : ¬ word <+: c :: rest := by
        intro hp
        cases word with
        | nil => exact hw rfl
        | cons d ds =>
          rw [(List.cons_prefix_cons.1 hp).1] at hc
          exact hc List.mem_cons_self
      exact without_cons hprefix
    | cons d front =>
      by_cases hp : word <+: d :: front
      · obtain ⟨after, hafter⟩ := hp
        have hlen : after.length < n := by
          have hword : 0 < word.length := List.length_pos_iff.2 hw
          have := congrArg List.length hafter
          rw [List.length_append] at this
          omega
        rw [← hafter, List.append_assoc, without_word hw, without_word hw, ih _ hlen _ rfl]
      · have hp' : ¬ word <+: d :: (front ++ c :: rest) := by
          intro h
          exact hp (prefix_of_prefix_append_mark hc h)
        have hlen : front.length < n := by
          rw [← hn]
          exact Nat.lt_succ_self _
        show without word (d :: (front ++ c :: rest)) = _
        rw [without_cons hp', without_cons hp, ih _ hlen _ rfl]
        rfl

end

end World

end ApiCompiler
