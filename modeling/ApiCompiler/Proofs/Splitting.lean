import Mathlib.Data.List.Infix
import ApiCompiler.Proofs.Trimming

/-!
# Splitting at separators

Which texts the splitter leaves whole, how it goes over a text behind another one, and that it reads
back what has been joined. The parts that it gives are whole, and all but the last close their
braces; joined they are the text again. Inside of balanced braces nothing separates.
-/

set_option autoImplicit false

namespace ApiCompiler.Path

open Text (isBlank)

variable {cs front rest : List Char} {depth : Nat}

/-! ### Open braces -/

/-- How many braces are open behind a character. -/
def opened (depth : Nat) (c : Char) : Nat :=
  if c = '{' then depth + 1 else if c = '}' then depth - 1 else depth

/-- How many braces are open behind a text. -/
def openedBy (depth : Nat) (cs : List Char) : Nat := cs.foldl opened depth

/-- Behind the text no brace is open. -/
def Closed (cs : List Char) : Prop := openedBy 0 cs = 0

instance (cs : List Char) : Decidable (Closed cs) := inferInstanceAs (Decidable (openedBy 0 cs = 0))

/-- No slash of the text separates when `depth` braces are open in front of it. -/
def Whole : Nat → List Char → Prop
  | _, [] => True
  | depth, c :: cs => ¬ (c = '/' ∧ opened depth c = 0) ∧ Whole (opened depth c) cs

theorem openedBy_cons (depth : Nat) (c : Char) (cs : List Char) :
    openedBy depth (c :: cs) = openedBy (opened depth c) cs := rfl

theorem openedBy_append (depth : Nat) (front rest : List Char) :
    openedBy depth (front ++ rest) = openedBy (openedBy depth front) rest :=
  List.foldl_append

theorem opened_mono {d d' : Nat} (h : d ≤ d') (c : Char) : opened d c ≤ opened d' c := by
  unfold opened
  split
  · omega
  · split <;> omega

theorem whole_append : Whole depth (front ++ rest) ↔
    Whole depth front ∧ Whole (openedBy depth front) rest := by
  induction front generalizing depth with
  | nil => exact (iff_of_eq (true_and _)).symm
  | cons c front ih => rw [List.cons_append, Whole, Whole, ih, openedBy_cons, and_assoc]

/-- More open braces leave more texts whole. -/
theorem Whole.mono {d d' : Nat} (h : Whole d cs) (hd : d ≤ d') : Whole d' cs := by
  induction cs generalizing d d' with
  | nil => trivial
  | cons c cs ih =>
    obtain ⟨hc, hcs⟩ := h
    have hmore := opened_mono hd c
    exact ⟨fun hslash => hc ⟨hslash.1, by omega⟩, ih hcs hmore⟩

theorem Closed.append (h : Closed front) (hrest : Closed rest) : Closed (front ++ rest) := by
  unfold Closed at *
  rw [openedBy_append, h, hrest]

theorem closed_slash : Closed ['/'] := rfl

/-- Braces apart, no character opens or closes anything. -/
theorem openedBy_of_plain (h : ∀ c ∈ cs, c ≠ '{' ∧ c ≠ '}') (depth : Nat) :
    openedBy depth cs = depth := by
  induction cs with
  | nil => rfl
  | cons c cs ih =>
    obtain ⟨⟨hopen, hclose⟩, hcs⟩ := List.forall_mem_cons.1 h
    rw [openedBy_cons, opened, if_neg hopen, if_neg hclose]
    exact ih hcs

theorem openedBy_of_blank (h : ∀ c ∈ cs, isBlank c = true) (depth : Nat) :
    openedBy depth cs = depth :=
  openedBy_of_plain (fun c hc => (ne_of_isBlank (h c hc)).2) depth

theorem whole_of_plain (h : ∀ c ∈ cs, c ≠ '{' ∧ c ≠ '}') (hdepth : depth ≠ 0 ∨ '/' ∉ cs) :
    Whole depth cs := by
  induction cs with
  | nil => trivial
  | cons c cs ih =>
    obtain ⟨⟨hopen, hclose⟩, hcs⟩ := List.forall_mem_cons.1 h
    have same : opened depth c = depth := by rw [opened, if_neg hopen, if_neg hclose]
    rw [Whole, same]
    refine ⟨?_, ih hcs (hdepth.imp_right fun hslash hmem => hslash (List.mem_cons_of_mem _ hmem))⟩
    rintro ⟨rfl, hzero⟩
    exact hdepth.elim (· hzero) (· List.mem_cons_self)

/-! ### A text behind another one -/

/-- The segments of a path that are not empty. -/
def solid (cs : List Char) : List (List Char) := (segments 0 cs).filter (· ≠ [])

theorem segments_cons (depth : Nat) (c : Char) (cs : List Char) :
    segments depth (c :: cs) =
      if c = '/' ∧ opened depth c = 0 then [] :: segments (opened depth c) cs
      else match segments (opened depth c) cs with
        | [] => [[c]]
        | segment :: rest => (c :: segment) :: rest := rfl

theorem segments_ne_nil (depth : Nat) (cs : List Char) : segments depth cs ≠ [] := by
  cases cs with
  | nil => exact List.cons_ne_nil _ _
  | cons c cs =>
    rw [segments_cons]
    split
    · exact List.cons_ne_nil _ _
    · split <;> exact List.cons_ne_nil _ _

theorem segments_of_whole (h : Whole depth cs) : segments depth cs = [cs] := by
  induction cs generalizing depth with
  | nil => rfl
  | cons c cs ih =>
    rw [segments_cons, if_neg h.1, ih h.2]

/-- A text that follows is split as the braces require that are open in front of it, and its first
part belongs to the last part of what it follows. -/
theorem exists_segments_append (depth : Nat) (front : List Char) :
    ∃ init last, segments depth front = init ++ [last] ∧
      ∀ rest first others, segments (openedBy depth front) rest = first :: others →
        segments depth (front ++ rest) = init ++ (last ++ first) :: others := by
  -- of the parts of `front` only the last can still grow
  induction front generalizing depth with
  | nil => exact ⟨[], [], rfl, fun _ _ _ h => h⟩
  | cons c front ih =>
    obtain ⟨init, last, hfront, hall⟩ := ih (opened depth c)
    by_cases hslash : c = '/' ∧ opened depth c = 0
    · refine ⟨[] :: init, last, ?_, fun rest first others h => ?_⟩
      · rw [segments_cons, if_pos hslash, hfront]
        rfl
      · rw [List.cons_append, segments_cons, if_pos hslash, hall rest first others h]
        rfl
    · cases init with
      | nil =>
        refine ⟨[], c :: last, ?_, fun rest first others h => ?_⟩
        · rw [segments_cons, if_neg hslash, hfront]
          rfl
        · rw [List.cons_append, segments_cons, if_neg hslash, hall rest first others h]
          rfl
      | cons s init =>
        refine ⟨(c :: s) :: init, last, ?_, fun rest first others h => ?_⟩
        · rw [segments_cons, if_neg hslash, hfront]
          rfl
        · rw [List.cons_append, segments_cons, if_neg hslash, hall rest first others h]
          rfl

/-- A slash behind closed braces separates. -/
theorem segments_append (h : openedBy depth front = 0) (rest : List Char) :
    segments depth (front ++ '/' :: rest) = segments depth front ++ segments 0 rest := by
  obtain ⟨init, last, hfront, hall⟩ := exists_segments_append depth front
  have behind : segments (openedBy depth front) ('/' :: rest) = [] :: segments 0 rest := by
    rw [h]
    rfl
  rw [hall _ _ _ behind, hfront, List.append_nil, List.append_assoc]
  rfl

/-- Characters that neither separate nor open or close braces belong to the last segment. -/
theorem segments_append_of_plain (h : ∀ c ∈ rest, c ≠ '/' ∧ c ≠ '{' ∧ c ≠ '}') (depth : Nat)
    (front : List Char) : ∃ ss last, segments depth front = ss ++ [last] ∧
      segments depth (front ++ rest) = ss ++ [last ++ rest] := by
  obtain ⟨ss, last, hfront, hall⟩ := exists_segments_append depth front
  have plain : Whole (openedBy depth front) rest :=
    whole_of_plain (fun c hc => (h c hc).2) (.inr fun hslash => (h _ hslash).1 rfl)
  exact ⟨ss, last, hfront, hall rest rest [] (segments_of_whole plain)⟩

/-- What follows a whole text belongs to it up to the first slash that separates. -/
theorem segments_whole_append {first : List Char} {others : List (List Char)}
    (h : Whole depth front) (hrest : segments (openedBy depth front) rest = first :: others) :
    segments depth (front ++ rest) = (front ++ first) :: others := by
  obtain ⟨init, last, hfront, hall⟩ := exists_segments_append depth front
  obtain ⟨rfl, rfl⟩ : init = [] ∧ last = front := by
    rw [segments_of_whole h, List.singleton_eq_append_iff] at hfront
    simpa using hfront.symm
  exact hall rest first others hrest

theorem solid_slash (cs : List Char) : solid ('/' :: cs) = solid cs := rfl

theorem solid_append (h : Closed front) (rest : List Char) :
    solid (front ++ '/' :: rest) = solid front ++ solid rest := by
  rw [solid, segments_append h, List.filter_append]
  rfl

/-- A segment that is not split and leaves no brace open. -/
structure Sealed (cs : List Char) : Prop where
  ne_nil : cs ≠ []
  whole : Whole 0 cs
  closed : Closed cs

theorem Sealed.segments_eq (h : Sealed cs) : segments 0 cs = [cs] := segments_of_whole h.whole

theorem Sealed.getLast?_ne (h : Sealed cs) : cs.getLast? ≠ some '/' := by
  intro hlast
  obtain ⟨front, rfl⟩ := List.getLast?_eq_some_iff.1 hlast
  have closed : openedBy 0 front = 0 := by
    have all := h.closed
    rwa [Closed, openedBy_append] at all
  obtain ⟨-, separates, -⟩ := whole_append.1 h.whole
  exact separates ⟨rfl, closed⟩

/-! ### What the splitter gives -/

/-- The parts of a text in front of which `depth` braces are open: each is whole, and all but the
last close their braces. -/
def Cut : Nat → List (List Char) → Prop
  | _, [] => False
  | depth, [s] => Whole depth s
  | depth, s :: s' :: ss => Whole depth s ∧ openedBy depth s = 0 ∧ Cut 0 (s' :: ss)

theorem cut_segments (depth : Nat) (cs : List Char) : Cut depth (segments depth cs) := by
  induction cs generalizing depth with
  | nil => trivial
  | cons c cs ih =>
    have below := ih (opened depth c)
    rw [segments_cons]
    obtain ⟨s, ss, hs⟩ := List.exists_cons_of_ne_nil (segments_ne_nil (opened depth c) cs)
    rw [hs] at below ⊢
    split
    · rename_i hslash
      obtain ⟨rfl, hzero⟩ := hslash
      rw [hzero] at below
      exact ⟨trivial, hzero, below⟩
    · rename_i hslash
      cases ss with
      | nil => exact ⟨hslash, below⟩
      | cons s' ss => exact ⟨⟨hslash, below.1⟩, below.2.1, below.2.2⟩

/-- Joined, the parts are the text again. -/
theorem intercalate_segments (depth : Nat) (cs : List Char) :
    List.intercalate ['/'] (segments depth cs) = cs := by
  induction cs generalizing depth with
  | nil => rfl
  | cons c cs ih =>
    have below := ih (opened depth c)
    rw [segments_cons]
    obtain ⟨s, ss, hs⟩ := List.exists_cons_of_ne_nil (segments_ne_nil (opened depth c) cs)
    rw [hs] at below ⊢
    split
    · rename_i hslash
      rw [List.intercalate_cons_cons, below, hslash.1]
      rfl
    · rw [← below]
      cases ss with
      | nil => simp
      | cons s' ss => simp [List.intercalate_cons_cons]

/-- Parts that could have come from the splitter are what it reads back. -/
theorem Cut.segments_intercalate {ss : List (List Char)} (h : Cut depth ss) :
    segments depth (List.intercalate ['/'] ss) = ss := by
  induction ss generalizing depth with
  | nil => exact h.elim
  | cons s ss ih =>
    cases ss with
    | nil => simpa using segments_of_whole h
    | cons s' ss =>
      obtain ⟨hwhole, hclosed, hrest⟩ := h
      have joined : List.intercalate ['/'] (s :: s' :: ss) =
          s ++ '/' :: List.intercalate ['/'] (s' :: ss) := by
        simp [List.intercalate_cons_cons]
      rw [joined, segments_append hclosed, segments_of_whole hwhole, ih hrest]
      rfl

theorem cut_of_forall {ss : List (List Char)} (hne : ss ≠ []) (h : ∀ s ∈ ss, Whole 0 s)
    (hclosed : ∀ s ∈ ss.dropLast, Closed s) : Cut 0 ss := by
  induction ss with
  | nil => exact absurd rfl hne
  | cons s ss ih =>
    obtain ⟨hs, hss⟩ := List.forall_mem_cons.1 h
    cases ss with
    | nil => exact hs
    | cons s' ss =>
      rw [List.dropLast_cons_of_ne_nil (List.cons_ne_nil _ _)] at hclosed
      obtain ⟨hs', hclosed⟩ := List.forall_mem_cons.1 hclosed
      exact ⟨hs, hs', ih (List.cons_ne_nil _ _) hss hclosed⟩

theorem Cut.forall_whole {ss : List (List Char)} (h : Cut 0 ss) : ∀ s ∈ ss, Whole 0 s := by
  induction ss with
  | nil => exact h.elim
  | cons s ss ih =>
    cases ss with
    | nil => exact List.forall_mem_singleton.2 h
    | cons s' ss => exact List.forall_mem_cons.2 ⟨h.1, ih h.2.2⟩

theorem Cut.closed_dropLast {ss : List (List Char)} (h : Cut 0 ss) :
    ∀ s ∈ ss.dropLast, Closed s := by
  induction ss with
  | nil => exact h.elim
  | cons s ss ih =>
    cases ss with
    | nil => exact nofun
    | cons s' ss =>
      rw [List.dropLast_cons_of_ne_nil (List.cons_ne_nil _ _)]
      exact List.forall_mem_cons.2 ⟨h.2.1, ih h.2.2⟩

/-! ### Balanced braces -/

/-- Every brace that is opened is closed, and no prefix closes more braces than it opens. -/
def Balanced (cs : List Char) : Prop :=
  cs.count '{' = cs.count '}' ∧ ∀ front ∈ cs.inits, front.count '}' ≤ front.count '{'

instance (cs : List Char) : Decidable (Balanced cs) := inferInstanceAs (Decidable (_ ∧ _))

/-- As long as no prefix closes more braces than are open, the open ones are counted, and one more
brace around the text keeps its slashes from separating. -/
theorem openedBy_of_inits (h : ∀ front ∈ cs.inits, front.count '}' ≤ depth + front.count '{') :
    openedBy depth cs + cs.count '}' = depth + cs.count '{' ∧ Whole (depth + 1) cs := by
  -- both at once: one level further in, the text never comes down to the outside
  induction cs generalizing depth with
  | nil => exact ⟨rfl, trivial⟩
  | cons c cs ih =>
    have more : ∀ front ∈ cs.inits,
        (c :: front).count '}' ≤ depth + (c :: front).count '{' := fun front hfront =>
      h _ ((List.mem_inits _ _).2 (List.cons_prefix_cons.2 ⟨rfl, (List.mem_inits _ _).1 hfront⟩))
    have first := more [] ((List.mem_inits _ _).2 List.nil_prefix)
    rw [openedBy_cons, Whole]
    by_cases hopen : c = '{'
    · subst hopen
      have here : opened depth '{' = depth + 1 := rfl
      have above : opened (depth + 1) '{' = depth + 1 + 1 := rfl
      have inside : ∀ front ∈ cs.inits, front.count '}' ≤ depth + 1 + front.count '{' := by
        intro front hfront
        have := more front hfront
        simp at this
        omega
      obtain ⟨hcount, hwhole⟩ := ih inside
      rw [here, above]
      refine ⟨?_, fun hslash => absurd hslash.1 (by decide), hwhole⟩
      simp
      omega
    · by_cases hclose : c = '}'
      · subst hclose
        have here : opened depth '}' = depth - 1 := rfl
        have above : opened (depth + 1) '}' = depth := rfl
        have positive : 1 ≤ depth := by simpa using first
        have outside : ∀ front ∈ cs.inits, front.count '}' ≤ depth - 1 + front.count '{' := by
          intro front hfront
          have := more front hfront
          simp at this
          omega
        obtain ⟨hcount, hwhole⟩ := ih outside
        rw [Nat.sub_add_cancel positive] at hwhole
        rw [here, above]
        refine ⟨?_, fun hslash => absurd hslash.1 (by decide), hwhole⟩
        simp
        omega
      · have here (d : Nat) : opened d c = d := by rw [opened, if_neg hopen, if_neg hclose]
        have behind : ∀ front ∈ cs.inits, front.count '}' ≤ depth + front.count '{' := by
          intro front hfront
          simpa [List.count_cons, hopen, hclose] using more front hfront
        obtain ⟨hcount, hwhole⟩ := ih behind
        rw [here, here]
        refine ⟨?_, fun hslash => Nat.succ_ne_zero _ hslash.2, hwhole⟩
        simpa [List.count_cons, hopen, hclose] using hcount

theorem Balanced.openedBy_eq (h : Balanced cs) (depth : Nat) : openedBy depth cs = depth := by
  obtain ⟨hequal, hinits⟩ := h
  have more : ∀ front ∈ cs.inits, front.count '}' ≤ depth + front.count '{' :=
    fun front hfront => Nat.le_add_left_of_le (hinits front hfront)
  have counted := (openedBy_of_inits more).1
  omega

theorem Balanced.whole (h : Balanced cs) (hdepth : depth ≠ 0) : Whole depth cs := by
  have inside : Whole (0 + 1) cs :=
    (openedBy_of_inits fun front hfront => by simpa using h.2 front hfront).2
  exact inside.mono (by omega)

theorem Balanced.closed (h : Balanced cs) : Closed cs := h.openedBy_eq 0

end ApiCompiler.Path
