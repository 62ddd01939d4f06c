import ApiCompiler.Route.Verb

/-!
# Lower case of lower case

Lower case is idempotent: no character that it produces has a lower case of its own, whatever stands
around it. For the letters of the table this is checked run against run: where a run moves to, no
character is moved by the table or has a rule of its own.
-/

set_option autoImplicit false

namespace ApiCompiler.Text

/-- The code point belongs to the run. -/
def Covers (run : CaseRun) (n : Nat) : Prop :=
  run.1 ≤ n ∧ n ≤ run.2.1 ∧ (n - run.1) % run.2.2.1 = 0

/-- Where a shift moves a code point to. -/
def image (n : Nat) (shift : Int) : Nat := (n + shift : Int).toNat

/-- The code points with a lower case of their own. -/
def unlowered : List CaseRun :=
  (0x41, 0x5A, 1, 0) :: (0x130, 0x130, 1, 0) :: (0x3A3, 0x3A3, 1, 0) :: lowerRuns

/-- The runs of the table, and what the characters with rules of their own become. -/
def lowering : List CaseRun :=
  (0, 0x40, 1, 0) :: (0x5B, 0x7F, 1, 0) :: (0x307, 0x307, 1, 0) :: (0x3C2, 0x3C3, 1, 0) :: lowerRuns

/-- No code point of the first run moves into the second: the intervals are apart, or their code
points alternate. -/
def apart (run other : CaseRun) : Bool :=
  Nat.blt (image run.2.1 run.2.2.2) other.1 || Nat.blt other.2.1 (image run.1 run.2.2.2) ||
    ((Nat.beq run.2.2.1 2 || Nat.beq run.1 run.2.1) && Nat.beq other.2.2.1 2 &&
      Nat.beq ((image run.1 run.2.2.2 + other.1) % 2) 1)

/-- A run moves to characters, not to surrogates or below zero. -/
def movesToChars (run : CaseRun) : Bool :=
  decide (0 ≤ run.1 + run.2.2.2) && (Nat.blt (image run.2.1 run.2.2.2) 0xD800 ||
    Nat.blt 0xDFFF (image run.1 run.2.2.2) && Nat.blt (image run.2.1 run.2.2.2) 0x110000)

theorem lowering_apart :
    lowering.all (fun run => movesToChars run && unlowered.all (apart run)) = true := by
  decide +kernel

/-- A run that moves to characters moves all of its code points by its shift. -/
theorem image_of_movesToChars {run : CaseRun} (h : movesToChars run = true) {n : Nat}
    (hn : Covers run n) :
    (image n run.2.2.2 : Int) = n + run.2.2.2 ∧ (image n run.2.2.2).isValidChar := by
  obtain ⟨hf, hl, _⟩ := hn
  simp only [movesToChars, Bool.and_eq_true, Bool.or_eq_true, Nat.blt_eq, decide_eq_true_eq,
    image] at h
  refine ⟨Int.toNat_of_nonneg (by omega), ?_⟩
  simp only [image, Nat.isValidChar]
  omega

theorem not_covers_of_apart {run other : CaseRun} (hrun : movesToChars run = true)
    (h : apart run other = true) {n : Nat} (hn : Covers run n) :
    ¬ Covers other (image n run.2.2.2) := by
  obtain ⟨hi, _⟩ := image_of_movesToChars hrun hn
  obtain ⟨hf, hl, hs⟩ := hn
  have hfirst : (image run.1 run.2.2.2 : Int) = run.1 + run.2.2.2 := by
    have := (Bool.and_eq_true_iff.1 hrun).1
    exact Int.toNat_of_nonneg (of_decide_eq_true this)
  have hlast : (image run.2.1 run.2.2.2 : Int) = run.2.1 + run.2.2.2 :=
    Int.toNat_of_nonneg (by omega)
  simp only [apart, Bool.and_eq_true, Bool.or_eq_true, Nat.blt_eq, Nat.beq_eq] at h
  rintro ⟨hf', hl', hs'⟩
  rcases h with (h | h) | ⟨⟨h | h, hstep⟩, hp⟩
  · omega
  · omega
  · rw [h] at hs
    rw [hstep] at hs'
    omega
  · rw [hstep] at hs'
    omega

theorem toNat_ofNat {n : Nat} (h : n.isValidChar) : (Char.ofNat n).toNat = n := by
  rw [Char.ofNat, dif_pos h]
  rfl

/-- The character is its own lower case in every context. -/
def isLowered (c : Char) : Prop := ∀ run ∈ unlowered, ¬ Covers run c.toNat

theorem shiftByRuns_of_not_covered {runs : List CaseRun} {n : Nat}
    (h : ∀ run ∈ runs, ¬ Covers run n) : shiftByRuns runs n = n := by
  induction runs with
  | nil => rfl
  | cons run runs ih =>
    obtain ⟨first, last, step, shift⟩ := run
    have hrun := h _ List.mem_cons_self
    rw [shiftByRuns, if_neg, ih fun run hr => h run (List.mem_cons_of_mem _ hr)]
    simp only [Bool.and_eq_true, decide_eq_true_eq, beq_iff_eq]
    exact fun hc => hrun ⟨hc.1.1, hc.1.2, hc.2⟩

/-- A code point that no run covers is left alone; any other is moved by a run that covers it. -/
theorem shiftByRuns_cases (runs : List CaseRun) (n : Nat) :
    (∀ run ∈ runs, ¬ Covers run n) ∨
      ∃ run ∈ runs, Covers run n ∧ shiftByRuns runs n = image n run.2.2.2 := by
  induction runs with
  | nil => exact .inl nofun
  | cons run runs ih =>
    obtain ⟨first, last, step, shift⟩ := run
    by_cases h : (decide (first ≤ n) && decide (n ≤ last) && (n - first) % step == 0) = true
    · refine .inr ⟨_, List.mem_cons_self, ?_, if_pos h⟩
      simp only [Bool.and_eq_true, decide_eq_true_eq, beq_iff_eq] at h
      exact ⟨h.1.1, h.1.2, h.2⟩
    · have hs : shiftByRuns ((first, last, step, shift) :: runs) n = shiftByRuns runs n :=
        if_neg h
      simp only [Bool.and_eq_true, decide_eq_true_eq, beq_iff_eq] at h
      rw [hs]
      rcases ih with ih | ⟨run, hm, hrun⟩
      · refine .inl fun run hr => ?_
        rcases List.mem_cons.1 hr with rfl | hr
        · exact fun hc => h ⟨⟨hc.1, hc.2.1⟩, hc.2.2⟩
        · exact ih run hr
      · exact .inr ⟨run, List.mem_cons_of_mem _ hm, hrun⟩

theorem isLowered_image {run : CaseRun} (hm : run ∈ lowering) {n : Nat} (hn : Covers run n) :
    isLowered (Char.ofNat (image n run.2.2.2)) := by
  obtain ⟨hmoves, hapart⟩ := Bool.and_eq_true_iff.1 (List.all_eq_true.1 lowering_apart run hm)
  intro other ho
  rw [toNat_ofNat (image_of_movesToChars hmoves hn).2]
  exact not_covers_of_apart hmoves (List.all_eq_true.1 hapart other ho) hn

/-- A character of a run that does not move is lowered. -/
theorem isLowered_of_covers (first last : Nat) (hm : (first, last, 1, 0) ∈ lowering) {c : Char}
    (hf : first ≤ c.toNat) (hl : c.toNat ≤ last) : isLowered c := by
  have h := isLowered_image hm (n := c.toNat) ⟨hf, hl, Nat.mod_one _⟩
  simpa [image, Char.ofNat_toNat] using h

theorem ascii_toLower : ∀ n < 128, (Char.ofNat n).toLower.toNat ≤ 0x40 ∨
    (0x5B ≤ (Char.ofNat n).toLower.toNat ∧ (Char.ofNat n).toLower.toNat ≤ 0x7F) := by
  decide +kernel

theorem ascii_toLower_self :
    ∀ n < 128, (0x41 ≤ n ∧ n ≤ 0x5A) ∨ (Char.ofNat n).toLower = Char.ofNat n := by decide +kernel

theorem lowerChar_of_isLowered {c : Char} (h : isLowered c) (before after : List Char) :
    lowerChar before c after = [c] := by
  have hrun : ∀ {run}, run ∈ lowerRuns → ¬ Covers run c.toNat := fun hr =>
    h _ (List.mem_cons_of_mem _ (List.mem_cons_of_mem _ (List.mem_cons_of_mem _ hr)))
  have h₁ := h (0x41, 0x5A, 1, 0) List.mem_cons_self
  have h₂ := h (0x130, 0x130, 1, 0) (List.mem_cons_of_mem _ List.mem_cons_self)
  have h₃ := h (0x3A3, 0x3A3, 1, 0)
    (List.mem_cons_of_mem _ (List.mem_cons_of_mem _ List.mem_cons_self))
  simp only [Covers, Nat.mod_one, and_true] at h₁ h₂ h₃
  unfold lowerChar
  split
  · rename_i hc
    have := (ascii_toLower_self c.toNat hc).resolve_left h₁
    rw [Char.ofNat_toNat] at this
    rw [this]
  · rw [if_neg (by omega), if_neg (by omega), shiftByRuns_of_not_covered fun _ => hrun,
      Char.ofNat_toNat]

theorem isLowered_shift {c : Char} (hc : ¬ c.toNat < 128) (hs : c.toNat ≠ 0x3A3)
    (hi : c.toNat ≠ 0x130) : isLowered (Char.ofNat (shiftByRuns lowerRuns c.toNat)) := by
  rcases shiftByRuns_cases lowerRuns c.toNat with h | ⟨run, hm, hrun, h⟩
  · rw [shiftByRuns_of_not_covered h, Char.ofNat_toNat]
    intro run hr
    rcases List.mem_cons.1 hr with rfl | hr
    · exact fun h => hc (by have := h.2.1; simp only at this; omega)
    rcases List.mem_cons.1 hr with rfl | hr
    · exact fun h => hi (Nat.le_antisymm h.2.1 h.1)
    rcases List.mem_cons.1 hr with rfl | hr
    · exact fun h => hs (Nat.le_antisymm h.2.1 h.1)
    · exact h run hr
  · rw [h]
    exact isLowered_image (List.mem_append_right [(0, 0x40, 1, 0), (0x5B, 0x7F, 1, 0),
      (0x307, 0x307, 1, 0), (0x3C2, 0x3C3, 1, 0)] hm) hrun

/-- Every character of a lower case is lowered. -/
theorem isLowered_of_mem_lowerChar {before after : List Char} {c d : Char}
    (h : d ∈ lowerChar before c after) : isLowered d := by
  have low : ∀ {d : Char}, d.toNat ≤ 0x40 → isLowered d := fun hd =>
    isLowered_of_covers 0 0x40 (by simp [lowering]) (Nat.zero_le _) hd
  have high : ∀ {d : Char}, 0x5B ≤ d.toNat → d.toNat ≤ 0x7F → isLowered d := fun hd hd' =>
    isLowered_of_covers 0x5B 0x7F (by simp [lowering]) hd hd'
  unfold lowerChar at h
  split at h
  · rename_i hc
    rw [List.mem_singleton.1 h]
    have hd := ascii_toLower c.toNat hc
    rw [Char.ofNat_toNat] at hd
    exact hd.elim low fun hd => high hd.1 hd.2
  · rename_i hc
    split at h
    · rw [List.mem_singleton.1 h]
      refine isLowered_of_covers 0x3C2 0x3C3 (by simp [lowering]) ?_ ?_
      all_goals split <;> decide
    · rename_i hs
      split at h
      · rcases List.mem_cons.1 h with rfl | h
        · exact high (by decide) (by decide)
        · rw [List.mem_singleton.1 h]
          exact isLowered_of_covers 0x307 0x307 (by simp [lowering])
            (by decide) (by decide)
      · rename_i hi
        rw [List.mem_singleton.1 h]
        exact isLowered_shift hc hs hi

theorem isLowered_of_mem_lowerFrom {before cs : List Char} {d : Char}
    (h : d ∈ lowerFrom before cs) : isLowered d := by
  induction cs generalizing before with
  | nil => cases h
  | cons c cs ih =>
    rcases List.mem_append.1 h with h | h
    · exact isLowered_of_mem_lowerChar h
    · exact ih h

theorem lowerFrom_of_isLowered {before cs : List Char} (h : ∀ c ∈ cs, isLowered c) :
    lowerFrom before cs = cs := by
  induction cs generalizing before with
  | nil => rfl
  | cons c cs ih =>
    rw [lowerFrom, lowerChar_of_isLowered (h c List.mem_cons_self),
      ih fun d hd => h d (List.mem_cons_of_mem _ hd)]
    rfl

theorem lower_lower (s : String) : lower (lower s) = lower s := by
  unfold lower
  rw [String.toList_ofList, lowerFrom_of_isLowered fun _ => isLowered_of_mem_lowerFrom]

end ApiCompiler.Text

namespace ApiCompiler.Route

/-- A verb is in lower case. -/
theorem lower_verb (named marker custom : Option String) :
    Text.lower (verb named marker custom) = verb named marker custom := by
  unfold verb
  split
  · exact Text.lower_lower _
  · unfold markerVerb
    extract_lets upper
    split <;> exact Text.lower_lower _
  · exact Text.lower_lower _
  · decide +kernel

end ApiCompiler.Route
