import ApiCompiler.Proofs.Slots
import ApiCompiler.Proofs.Splitting

/-!
# Segments of composed paths

A path whose segments are literal or single placeholders is read segment by segment, wherever it is
composed of: what stands in front of a fragment is a visible template, which captures nothing, so
that the patterns of a path are those of its last fragment, and the template of the path shows every
name that is captured.
-/

set_option autoImplicit false

namespace ApiCompiler

namespace Path

open Text (trimChars dropEndWhile isBlank)

variable {cs front rest : List Char}

/-! ### Kinds of segments -/

/-- A segment without separators and braces. -/
def Literal (cs : List Char) : Prop := ∀ c ∈ cs, c ≠ '/' ∧ c ≠ '{' ∧ c ≠ '}'

/-- What a placeholder may be called. -/
def Naming (name : List Char) : Prop := ∀ c ∈ name, c ≠ '{' ∧ c ≠ '}' ∧ c ≠ ':'

instance (cs : List Char) : Decidable (Literal cs) :=
  List.decidableBAll (fun c => c ≠ '/' ∧ c ≠ '{' ∧ c ≠ '}') cs

instance (name : List Char) : Decidable (Naming name) :=
  List.decidableBAll (fun c => c ≠ '{' ∧ c ≠ '}' ∧ c ≠ ':') name

/-- A placeholder that captures nothing. -/
def bare (name : List Char) : List Char := '{' :: name ++ ['}']

/-- A placeholder that captures a pattern. -/
def capturing (name pattern : List Char) : List Char := bare (name ++ ':' :: pattern)

/-- A segment of a visible template. -/
inductive Shown : List Char → Prop
  | literal {cs : List Char} (h : Literal cs) (hne : cs ≠ []) : Shown cs
  | bare {name : List Char} (h : Naming name) (hne : name ≠ []) : Shown (bare name)

/-- A segment that is literal or a single placeholder, blanks around its name apart. -/
inductive Simple : List Char → Prop
  | literal {cs : List Char} (h : Literal cs) : Simple cs
  | bare {name : List Char} (h : Naming name) (hne : name ≠ []) : Simple (bare name)
  | capturing {name pattern : List Char} (h : Naming name) (hne : trimChars name ≠ []) :
      Simple (capturing name pattern)

variable {name pattern : List Char}

theorem Naming.plain (h : Naming name) : ∀ c ∈ name, c ≠ '{' ∧ c ≠ '}' :=
  fun c hc => ⟨(h c hc).1, (h c hc).2.1⟩

theorem whole_bare : Whole 0 (bare name) ↔ Whole 1 name := by
  have text : bare name = ('{' :: name) ++ ['}'] := rfl
  have last : Whole (openedBy 0 ('{' :: name)) ['}'] :=
    ⟨fun hc => absurd hc.1 (by decide), trivial⟩
  rw [text, whole_append, and_iff_left last]
  exact and_iff_right (by decide)

theorem openedBy_bare (name : List Char) : openedBy 0 (bare name) = openedBy 1 name - 1 := by
  have text : bare name = ('{' :: name) ++ ['}'] := rfl
  rw [text, openedBy_append]
  rfl

/-- Braces around a text that is whole inside of them and closes what it opens. -/
theorem sealed_bare (h : Whole 1 name) (hclosed : openedBy 1 name = 1) : Sealed (bare name) := by
  refine ⟨List.cons_ne_nil _ _, whole_bare.2 h, ?_⟩
  rw [Closed, openedBy_bare, hclosed]

theorem Shown.sealed {cs : List Char} (h : Shown cs) : Sealed cs := by
  cases h with
  | literal h hne =>
    have plain : ∀ c ∈ cs, c ≠ '{' ∧ c ≠ '}' := fun c hc => (h c hc).2
    exact ⟨hne, whole_of_plain plain (.inr fun hslash => (h _ hslash).1 rfl),
      openedBy_of_plain plain 0⟩
  | bare h hne =>
    exact sealed_bare (whole_of_plain h.plain (.inl Nat.one_ne_zero)) (openedBy_of_plain h.plain 1)

theorem sealed_of_shown {ss : List (List Char)} (h : ∀ s ∈ ss, Shown s) : ∀ s ∈ ss, Sealed s :=
  fun s hs => (h s hs).sealed

theorem Shown.simple {cs : List Char} (h : Shown cs) : Simple cs := by
  cases h with
  | literal h => exact .literal h
  | bare h hne => exact .bare h hne

theorem Shown.name_ne_nil (h : Shown (Path.bare name)) : name ≠ [] := by
  generalize hcs : Path.bare name = cs at h
  cases h with
  | literal h => exact absurd rfl (h '{' (hcs ▸ List.mem_cons_self)).2.1
  | @bare name' _ hne =>
    obtain rfl : name = name' := by simpa [Path.bare] using hcs
    exact hne

/-! ### Visible templates -/

/-- A path of segments, each behind a slash. -/
def under (ss : List (List Char)) : List Char := ss.flatMap fun s => '/' :: s

variable {ss : List (List Char)}

theorem openedBy_under (h : ∀ s ∈ ss, Sealed s) : openedBy 0 (under ss) = 0 := by
  induction ss with
  | nil => rfl
  | cons s ss ih =>
    obtain ⟨hs, hss⟩ := List.forall_mem_cons.1 h
    have here : openedBy 0 ('/' :: s) = 0 := hs.closed
    rw [under, List.flatMap_cons, openedBy_append, here]
    exact ih hss

/-- The segments of a path below a template come after those of the template. -/
theorem segments_under (h : ∀ s ∈ ss, Sealed s) (rest : List Char) :
    segments 0 (under ss ++ '/' :: rest) = [] :: (ss ++ segments 0 rest) := by
  have split : ∀ ss : List (List Char), (∀ s ∈ ss, Sealed s) →
      ∃ all, under ss ++ '/' :: rest = '/' :: all ∧ segments 0 all = ss ++ segments 0 rest := by
    intro ss
    induction ss with
    | nil => exact fun _ => ⟨rest, rfl, rfl⟩
    | cons s ss ih =>
      intro h
      obtain ⟨hs, hss⟩ := List.forall_mem_cons.1 h
      obtain ⟨all, hall, hsegments⟩ := ih hss
      refine ⟨s ++ '/' :: all, ?_, ?_⟩
      · rw [under, List.flatMap_cons, List.cons_append, List.cons_append, List.append_assoc]
        exact congrArg (fun t => '/' :: (s ++ t)) hall
      · rw [segments_append hs.closed, hs.segments_eq, hsegments]
        rfl
  obtain ⟨all, hall, hsegments⟩ := split ss h
  rw [hall, segments_cons, if_pos ⟨rfl, rfl⟩, ← hsegments]
  rfl

theorem solid_under (h : ∀ s ∈ ss, Sealed s) (rest : List Char) :
    solid (under ss ++ '/' :: rest) = ss ++ solid rest := by
  have all : ss.filter (· ≠ []) = ss :=
    List.filter_eq_self.2 fun s hs => by simpa using (h s hs).ne_nil
  rw [solid, segments_under h, List.filter_cons_of_neg (by simp), List.filter_append, all]
  rfl

theorem getLast?_under_ne (h : ∀ s ∈ ss, Sealed s) : (under ss).getLast? ≠ some '/' := by
  induction ss with
  | nil => simp [under]
  | cons s ss ih =>
    obtain ⟨hs, hss⟩ := List.forall_mem_cons.1 h
    rw [under, List.flatMap_cons, List.getLast?_append]
    cases hlast : (List.flatMap (fun s => '/' :: s) ss).getLast? with
    | some c =>
      rw [Option.some_or, ← hlast]
      exact ih hss
    | none =>
      obtain ⟨c, s, rfl⟩ := List.exists_cons_of_ne_nil hs.ne_nil
      rw [Option.none_or, List.getLast?_cons_cons]
      exact hs.getLast?_ne

/-- The text of a template that shows the segments. -/
def shownAs (ss : List (List Char)) : List Char := '/' :: List.intercalate ['/'] ss

theorem shownAs_eq (hne : ss ≠ []) : shownAs ss = under ss := by
  induction ss with
  | nil => exact absurd rfl hne
  | cons s ss ih =>
    cases ss with
    | nil => simp [shownAs, under]
    | cons s' ss =>
      have ih := ih (List.cons_ne_nil _ _)
      rw [shownAs] at ih
      rw [shownAs, under, List.flatMap_cons, ← under, ← ih, List.intercalate_cons_cons]
      simp

theorem dropFinalSlashes_of_ne (h : cs.getLast? ≠ some '/') : dropFinalSlashes cs = cs :=
  dropEndWhile_eq_self_iff.2 fun _ hlast => beq_eq_false_iff_ne.2 fun hc => h (hc ▸ hlast)

theorem head?_under (hne : ss ≠ []) : (under ss).head? = some '/' := by
  obtain ⟨s, ss, rfl⟩ := List.exists_cons_of_ne_nil hne
  rfl

/-- What stands in front of a path below a template. -/
theorem frontPart_shownAs (h : ∀ s ∈ ss, Sealed s) : frontPart (shownAs ss) = under ss := by
  by_cases hne : ss = []
  · rw [hne]
    rfl
  · have hslash := head?_under hne
    have hlast := getLast?_under_ne h
    have hroot : ¬ (under ss = [] ∨ under ss = ['/']) := by
      rintro (hroot | hroot)
      · rw [hroot] at hslash
        cases hslash
      · rw [hroot] at hlast
        exact hlast rfl
    rw [shownAs_eq hne, frontPart, if_neg hroot, if_pos hslash, dropFinalSlashes_of_ne hlast]

/-! ### Composed paths -/

/-- The fragments of a service and a method one behind the other. -/
def fragments (cls method : Option (List Char)) : List Char :=
  match method with
  | none => cls.getD []
  | some fragment => appendFragment (cls.getD []) fragment

theorem appendFragment_append (h : front.getLast? ≠ some '/') (cs fragment : List Char) :
    appendFragment (front ++ cs) fragment = front ++ appendFragment cs fragment := by
  have last : (front ++ cs).getLast? ≠ some '/' ↔ cs.getLast? ≠ some '/' := by
    cases cs with
    | nil => simp [h]
    | cons c cs => simp [List.getLast?_append]
  unfold appendFragment
  simp only [last]
  split
  · rfl
  · split <;> simp

theorem joinChars_eq {cls method : Option (List Char)} {parent path : List Char}
    (hfront : (frontPart parent).getLast? ≠ some '/')
    (h : joinChars cls method parent = some path) :
    path = close (frontPart parent ++ fragments cls method) ∧
      joinChars cls method [] = some (close (fragments cls method)) := by
  cases method with
  | none =>
    cases cls with
    | none => cases h
    | some cls => exact ⟨(Option.some.inj h).symm, rfl⟩
  | some fragment =>
    have hpath : joinChars cls (some fragment) parent =
        some (close (appendFragment (frontPart parent ++ cls.getD []) fragment)) := by
      cases cls <;> rfl
    rw [hpath, appendFragment_append hfront] at h
    refine ⟨(Option.some.inj h).symm, ?_⟩
    cases cls <;> rfl

/-- What a service and a method declare together starts with a slash, if it is not empty. -/
theorem head?_fragments {cls method : Option (List Char)}
    (hcls : ∀ c, cls = some c → c.head? = some '/') (hne : fragments cls method ≠ []) :
    (fragments cls method).head? = some '/' := by
  have front {c rest : List Char} (hc : c.head? = some '/') : (c ++ rest).head? = some '/' := by
    rw [List.head?_append, hc, Option.some_or]
  cases method with
  | none =>
    cases cls with
    | none => exact absurd rfl hne
    | some c => exact hcls c rfl
  | some fragment =>
    rw [fragments, appendFragment] at hne ⊢
    cases cls with
    | some c =>
      have hc := hcls c rfl
      rw [Option.getD_some]
      split
      · exact hc
      · split
        · exact front (front hc)
        · exact front hc
    | none =>
      rw [Option.getD_none] at hne ⊢
      split at hne <;> rename_i hroot
      · exact absurd rfl hne
      · rw [if_neg hroot]
        split
        · rfl
        · rename_i hslash
          have hslash : fragment.head? = some '/' := by simpa using hslash
          obtain ⟨rest, hrest, -⟩ := exists_dropEndWhile (· == '/') fragment
          rw [if_neg (by simp [hslash]), List.nil_append] at hne
          rw [List.nil_append]
          rw [hrest] at hslash
          obtain ⟨c, more, hmore⟩ := List.exists_cons_of_ne_nil hne
          rw [dropFinalSlashes] at hmore ⊢
          rw [hmore] at hslash ⊢
          exact hslash

theorem solid_under_nil (h : ∀ s ∈ ss, Sealed s) : solid (under ss) = ss := by
  have closed := segments_append (openedBy_under h) []
  have whole := solid_under h []
  rw [solid, closed, List.filter_append] at whole
  simpa [solid, segments] using whole

theorem close_of_slash (h : cs.head? = some '/') :
    close cs = if cs ≠ ['/'] ∧ cs.getLast? = some '/' then cs.dropLast else cs := by
  rw [close, if_pos h]

/-- Closing a path below a template comes to closing what is below it, the root excepted. -/
theorem close_under (h : cs = [] ∨ cs.head? = some '/') (hss : ∀ s ∈ ss, Sealed s) :
    close (under ss ++ cs) = under ss ++ close cs ∨
      close cs = ['/'] ∧ close (under ss ++ cs) = under ss := by
  by_cases hnil : ss = []
  · rw [hnil]
    exact .inl rfl
  have hslash := head?_under hnil
  have hlast := getLast?_under_ne hss
  rcases h with rfl | h
  · refine .inr ⟨rfl, ?_⟩
    rw [List.append_nil, close_of_slash hslash, if_neg fun h => hlast h.2]
  · obtain ⟨rest, rfl⟩ : ∃ rest, cs = '/' :: rest := by
      obtain ⟨c, rest, rfl⟩ := List.exists_cons_of_ne_nil (l := cs) (by rintro rfl; cases h)
      exact ⟨rest, by rw [Option.some.inj h]⟩
    have hall : (under ss ++ '/' :: rest).head? = some '/' := by
      rw [List.head?_append, hslash, Option.some_or]
    rw [close_of_slash hall, close_of_slash h]
    by_cases hrest : rest = []
    · have hroot : under ss ++ ['/'] ≠ ['/'] := by
        intro hroot
        have none : under ss = [] := by simpa using hroot
        rw [none] at hslash
        cases hslash
      rw [hrest, if_pos ⟨hroot, List.getLast?_concat⟩, if_neg fun h => h.1 rfl,
        List.dropLast_concat]
      exact .inr ⟨rfl, rfl⟩
    · have hroot : '/' :: rest ≠ ['/'] := fun h => hrest (List.cons.inj h).2
      have hroots : under ss ++ '/' :: rest ≠ ['/'] := by
        intro hroot
        have short := congrArg List.length hroot
        have more := List.length_pos_iff.2 hrest
        simp only [List.length_append, List.length_cons, List.length_nil] at short
        omega
      have same : (under ss ++ '/' :: rest).getLast? = ('/' :: rest).getLast? := by
        rw [List.getLast?_append, List.getLast?_cons, Option.some_or]
      simp only [same, ne_eq, hroot, hroots, not_false_eq_true, true_and]
      left
      split
      · exact List.dropLast_append_of_ne_nil (List.cons_ne_nil _ _)
      · rfl

/-- A path below a template is that of the template with what a service and a method declare
together behind it, the root excepted. -/
theorem join_under {cls method : Option (List Char)} {parent path : List Char}
    (hcls : ∀ c, cls = some c → c.head? = some '/') (hss : ∀ s ∈ ss, Sealed s)
    (hparent : frontPart parent = under ss) (h : joinChars cls method parent = some path) :
    ∃ own, joinChars cls method [] = some own ∧
      (path = under ss ++ own ∨ own = ['/'] ∧ path = under ss) := by
  obtain ⟨rfl, hown⟩ := joinChars_eq (hparent ▸ getLast?_under_ne hss) h
  refine ⟨_, hown, ?_⟩
  rw [hparent]
  refine close_under ?_ hss
  by_cases hne : fragments cls method = []
  · exact .inl hne
  · exact .inr (head?_fragments hcls hne)

/-- A composed path starts with a slash. -/
theorem exists_join {cls method : Option (List Char)} {parent path : List Char}
    (h : joinChars cls method parent = some path) : ∃ rest, path = '/' :: rest := by
  have closed (cs : List Char) : ∃ rest, close cs = '/' :: rest := by
    obtain ⟨rest, hrest⟩ : ∃ rest,
        (if cs.head? = some '/' then cs else '/' :: cs) = '/' :: rest := by
      cases cs with
      | nil => exact ⟨[], rfl⟩
      | cons c cs =>
        split
        · rename_i hc
          exact ⟨cs, by rw [Option.some.inj hc]⟩
        · exact ⟨c :: cs, rfl⟩
    rw [close, hrest]
    split
    · rename_i hlast
      have hne : rest ≠ [] := fun hnil => hlast.1 (hnil ▸ rfl)
      exact ⟨rest.dropLast, List.dropLast_cons_of_ne_nil hne⟩
    · exact ⟨rest, rfl⟩
  cases method with
  | none =>
    cases cls with
    | none => cases h
    | some cls => exact Option.some.inj h ▸ closed _
  | some fragment => cases cls <;> exact Option.some.inj h ▸ closed _

/-! ### Reading segments -/

/-- A segment between braces with a colon inside. -/
def Enclosed (cs : List Char) : Prop :=
  cs.head? = some '{' ∧ cs.getLast? = some '}' ∧ ':' ∈ cs

instance (cs : List Char) : Decidable (Enclosed cs) :=
  inferInstanceAs (Decidable (_ ∧ _ ∧ _))

theorem readSegment_of_not_enclosed {cs : List Char} (h : ¬ Enclosed cs) :
    readSegment cs = ⟨cs, none⟩ := by
  have noPattern : ¬ (cs.head? = some '{' ∧ cs.getLast? = some '}' ∧
      cs.findIdx (· == ':') < cs.length) := by
    rintro ⟨hfirst, hlast, hcolon⟩
    obtain ⟨c, hc, heq⟩ := List.findIdx_lt_length.1 hcolon
    obtain rfl := beq_iff_eq.1 heq
    exact h ⟨hfirst, hlast, hc⟩
  rw [readSegment, if_neg noPattern]

theorem Shown.not_enclosed {cs : List Char} (h : Shown cs) : ¬ Enclosed cs := by
  rintro ⟨hfirst, -, hcolon⟩
  cases h with
  | literal h => exact (h _ (List.mem_of_head? hfirst)).2.1 rfl
  | bare h =>
    have inside := List.mem_append.1 (List.mem_cons.1 hcolon |>.resolve_left (by decide))
    rcases inside with hc | hc
    · exact (h _ hc).2.2 rfl
    · exact absurd (List.mem_singleton.1 hc) (by decide)

theorem readSegment_of_shown {cs : List Char} (h : Shown cs) : readSegment cs = ⟨cs, none⟩ :=
  readSegment_of_not_enclosed h.not_enclosed

theorem Naming.colon_not_mem (h : Naming name) : ':' ∉ name := fun hc => (h _ hc).2.2 rfl

theorem readSegment_capturing (h : ':' ∉ name) (pattern : List Char) :
    readSegment (capturing name pattern) =
      ⟨bare (trimChars name), some (trimChars name, trimChars pattern)⟩ := by
  have parts : capturing name pattern = ('{' :: name) ++ ':' :: (pattern ++ ['}']) := by
    simp [capturing, bare]
  have before : ('{' :: name).findIdx (· == ':') = ('{' :: name).length := by
    refine List.findIdx_eq_length.2 fun c hc => beq_eq_false_iff_ne.2 ?_
    rcases List.mem_cons.1 hc with rfl | hc
    · decide
    · exact fun hcolon => h (hcolon ▸ hc)
  have colon : (capturing name pattern).findIdx (· == ':') = ('{' :: name).length := by
    rw [parts, List.findIdx_append, if_neg (by rw [before]; exact Nat.lt_irrefl _)]
    simp [List.findIdx_cons]
  have reads : (capturing name pattern).head? = some '{' ∧
      (capturing name pattern).getLast? = some '}' ∧
      (capturing name pattern).findIdx (· == ':') < (capturing name pattern).length := by
    refine ⟨rfl, List.getLast?_concat, ?_⟩
    rw [colon, parts, List.length_append]
    simp
  rw [readSegment, if_pos reads, colon, parts]
  simp [bare]

theorem readSegment_of_literal {cs : List Char} (h : Literal cs) : readSegment cs = ⟨cs, none⟩ := by
  by_cases hne : cs = []
  · rw [hne]
    rfl
  · exact readSegment_of_shown (.literal h hne)

theorem Simple.shown {cs : List Char} (h : Simple cs) (hne : cs ≠ []) :
    Shown (readSegment cs).shown := by
  cases h with
  | literal h =>
    rw [readSegment_of_literal h]
    exact .literal h hne
  | bare h hname =>
    rw [readSegment_of_shown (.bare h hname)]
    exact .bare h hname
  | capturing h hname =>
    rw [readSegment_capturing h.colon_not_mem]
    exact .bare (fun c hc => h c (mem_trimChars hc)) hname

/-- A segment captures a pattern for a name, blanks around both apart. -/
def Captures (cs : List Char) (name pattern : String) : Prop :=
  ∃ n r, Naming n ∧ cs = capturing n r ∧ String.ofList (trimChars n) = name ∧
    String.ofList (trimChars r) = pattern

theorem Simple.captured_iff {cs : List Char} {name pattern : String} (h : Simple cs) :
    (readSegment cs).captured.map (fun c => (String.ofList c.1, String.ofList c.2)) =
      some (name, pattern) ↔ Captures cs name pattern := by
  constructor
  · intro hc
    cases h with
    | literal h => rw [readSegment_of_literal h] at hc; cases hc
    | bare h hne => rw [readSegment_of_shown (.bare h hne)] at hc; cases hc
    | @capturing n r h hne =>
      rw [readSegment_capturing h.colon_not_mem] at hc
      obtain ⟨hname, hpattern⟩ := Prod.mk.inj (Option.some.inj hc)
      exact ⟨n, r, h, rfl, hname, hpattern⟩
  · rintro ⟨n, r, hn, rfl, rfl, rfl⟩
    rw [readSegment_capturing hn.colon_not_mem]
    rfl

/-- What is captured for a name is shown by a placeholder of that name. -/
theorem Simple.shown_of_captures {cs : List Char} {name pattern : String} (h : Simple cs)
    (hc : Captures cs name pattern) :
    (readSegment cs).shown = Path.bare name.toList ∧ Naming name.toList ∧ name.toList ≠ [] := by
  obtain ⟨n, r, hn, rfl, rfl, rfl⟩ := hc
  rw [String.toList_ofList]
  have shown : (readSegment (Path.capturing n r)).shown = Path.bare (trimChars n) := by
    rw [readSegment_capturing hn.colon_not_mem]
  refine ⟨shown, fun c hc => hn c (mem_trimChars hc), fun hnil => ?_⟩
  have empty := h.shown (List.cons_ne_nil _ _)
  rw [shown] at empty
  exact empty.name_ne_nil hnil

/-- The names with the patterns that segments capture, in order. -/
def capturedBy (ss : List (List Char)) : Table String :=
  ss.filterMap fun s => (readSegment s).captured.map fun c => (String.ofList c.1, String.ofList c.2)

theorem mem_capturedBy {ss : List (List Char)} {name pattern : String} (h : ∀ s ∈ ss, Simple s) :
    (name, pattern) ∈ capturedBy ss ↔ ∃ s ∈ ss, Captures s name pattern := by
  rw [capturedBy, List.mem_filterMap]
  exact exists_congr fun s => and_congr_right fun hs => (h s hs).captured_iff

/-- The last segment that captures a pattern for a name decides. -/
theorem get?_capturedBy {before after : List (List Char)} {cs : List Char} {name pattern : String}
    (h : ∀ s ∈ before ++ cs :: after, Simple s) (hc : Captures cs name pattern)
    (hafter : ∀ s ∈ after, ∀ r, ¬ Captures s name r) :
    (Table.ofList (capturedBy (before ++ cs :: after))).get? name = some pattern := by
  have simple : ∀ s ∈ after, Simple s := fun s hs =>
    h s (List.mem_append_right _ (List.mem_cons_of_mem _ hs))
  have later : Table.lastAt (capturedBy after) name = none := by
    refine Table.lastAt_eq_none fun e he hname => ?_
    obtain ⟨s, hs, hcaptures⟩ := (mem_capturedBy simple).1 he
    exact hafter s hs e.2 (hname ▸ hcaptures)
  have here : capturedBy (before ++ cs :: after) =
      capturedBy before ++ (name, pattern) :: capturedBy after := by
    have reads := (h cs (by simp)).captured_iff.2 hc
    simp only [capturedBy, List.filterMap_append, List.filterMap_cons, reads]
  rw [Table.ofList, Table.get?_merge, here, Table.lastAt_append, Table.lastAt_cons, later]
  simp

/-- A path whose segments are simple. -/
def SimplePath (cs : List Char) : Prop := ∀ s ∈ solid cs, Simple s

/-! ### Blanks at the end -/

/-- A simple segment with blanks at the end is literal. -/
theorem Simple.literal_of_blank (h : Simple (cs ++ rest)) (hrest : ∀ c ∈ rest, isBlank c = true)
    (hne : rest ≠ []) : Literal (cs ++ rest) := by
  have last : (cs ++ rest).getLast? ≠ some '}' := by
    intro hlast
    rw [List.getLast?_append_of_ne_nil _ hne] at hlast
    exact (ne_of_isBlank (hrest _ (List.mem_of_getLast? hlast))).2.2 rfl
  generalize cs ++ rest = all at h last
  cases h with
  | literal h => exact h
  | bare => exact absurd List.getLast?_concat last
  | capturing => exact absurd List.getLast?_concat last

/-- Blanks behind a simple path belong to a literal segment. -/
theorem SimplePath.trim (h : SimplePath ('/' :: cs)) :
    SimplePath (trimChars ('/' :: cs)) ∧
      capturedBy (solid (trimChars ('/' :: cs))) = capturedBy (solid ('/' :: cs)) := by
  obtain ⟨rest, hrest, blank, -⟩ := exists_blanks_behind cs
  generalize trimChars ('/' :: cs) = trimmed at hrest
  rw [hrest] at h ⊢
  obtain ⟨ss, last, hshort, hlong⟩ :=
    segments_append_of_plain (fun c hc => ne_of_isBlank (blank c hc)) 0 trimmed
  by_cases hnil : rest = []
  · rw [hnil, List.append_nil] at h ⊢
    exact ⟨h, rfl⟩
  have literal : Literal (last ++ rest) := by
    refine Simple.literal_of_blank (h _ ?_) blank hnil
    rw [solid, hlong]
    simp [hnil]
  have shorter : Literal last := fun c hc => literal c (List.mem_append_left _ hc)
  constructor
  · intro s hs
    rw [solid, hshort, List.filter_append] at hs
    rcases List.mem_append.1 hs with hs | hs
    · refine h s ?_
      rw [solid, hlong, List.filter_append]
      exact List.mem_append_left _ hs
    · rw [List.mem_singleton.1 (List.mem_of_mem_filter hs)]
      exact .literal shorter
  · unfold capturedBy solid
    rw [hshort, hlong, List.filter_append, List.filter_append, List.filterMap_append,
      List.filterMap_append]
    refine congrArg _ ?_
    have none (s : List Char) (hs : Literal s) :
        capturedBy ([s].filter (· ≠ [])) = [] := by
      refine List.filterMap_eq_nil_iff.2 fun t ht => ?_
      rw [List.mem_singleton.1 (List.mem_of_mem_filter ht), readSegment_of_literal hs]
      rfl
    exact (none _ shorter).trans (none _ literal).symm

/-! ### Templates -/

/-- The template of a simple path has the patterns that its segments capture, and shows their names
as placeholders. -/
theorem normalize_of_simple {path : String} (hpath : path.toList = '/' :: cs)
    (h : SimplePath ('/' :: cs)) :
    (normalize path).patterns = Table.ofList (capturedBy (solid ('/' :: cs))) ∧
      ∃ ss, (normalize path).text.toList = shownAs ss ∧ (∀ s ∈ ss, Shown s) ∧
        ∀ e ∈ capturedBy (solid ('/' :: cs)), bare e.1.toList ∈ ss := by
  obtain ⟨simple, same⟩ := h.trim
  rw [← same]
  have reads : readSegments path.toList = (solid (trimChars ('/' :: cs))).map readSegment := by
    rw [hpath]
    rfl
  refine ⟨?_, (readSegments path.toList).map Segment.shown, String.toList_ofList, ?_, ?_⟩
  · rw [normalize, reads, capturedBy, List.filterMap_map]
    rfl
  · intro s hs
    rw [reads, List.map_map] at hs
    obtain ⟨t, ht, rfl⟩ := List.mem_map.1 hs
    exact (simple t ht).shown (by simpa using (List.mem_filter.1 ht).2)
  · rintro ⟨name, pattern⟩ he
    obtain ⟨t, ht, hc⟩ := (mem_capturedBy simple).1 he
    obtain ⟨hshown, -⟩ := (simple t ht).shown_of_captures hc
    rw [reads, List.map_map]
    exact List.mem_map.2 ⟨t, ht, hshown⟩

/-- A service and a method that have a path below another one have one of their own. -/
theorem exists_own {cls method : Option String} {parent path : String}
    (h : join cls method parent = some path) : ∃ own, join cls method "" = some own := by
  cases cls <;> cases method
  · cases h
  all_goals exact ⟨_, rfl⟩

/-- A text in front of which there is nothing but segments that are shown. -/
def Visible (text : String) (ss : List (List Char)) : Prop :=
  frontPart text.toList = under ss ∧ ∀ s ∈ ss, Shown s

theorem visible_empty : Visible "" [] := ⟨rfl, nofun⟩

theorem capturedBy_append (ss ss' : List (List Char)) :
    capturedBy (ss ++ ss') = capturedBy ss ++ capturedBy ss' := List.filterMap_append

theorem capturedBy_of_shown (h : ∀ s ∈ ss, Shown s) : capturedBy ss = [] :=
  List.filterMap_eq_nil_iff.2 fun s hs => by rw [readSegment_of_shown (h s hs)]; rfl

theorem patterns_normalize (path : String) :
    (normalize path).patterns = Table.ofList (capturedBy (solid (trimChars path.toList))) := by
  rw [normalize, readSegments, capturedBy, solid, List.filterMap_map]
  rfl

theorem exists_slash {cls method : Option String} {parent path : String}
    (h : join cls method parent = some path) : ∃ rest, path.toList = '/' :: rest := by
  obtain ⟨cs, hcs, rfl⟩ := Option.map_eq_some_iff.1 h
  rw [String.toList_ofList]
  exact exists_join hcs

theorem trimChars_under (cs : List Char) :
    trimChars (under ss ++ '/' :: cs) = under ss ++ trimChars ('/' :: cs) := by
  have dropped : dropEndWhile isBlank (under ss ++ '/' :: cs) =
      under ss ++ dropEndWhile isBlank ('/' :: cs) :=
    dropEndWhile_append ⟨'/', List.mem_cons_self, by decide⟩ (under ss)
  rw [trimChars_slash cs, ← dropped]
  cases ss with
  | nil => exact trimChars_slash cs
  | cons s ss => exact trimChars_slash _

/-- A path below a visible template, beside what a service and a method declare together. -/
theorem join_below {cls method : Option String} {parent path own : String}
    (hcls : ∀ c, cls = some c → c.toList.head? = some '/') (hparent : Visible parent ss)
    (hpath : join cls method parent = some path) (hown : join cls method "" = some own) :
    ∃ rest, own.toList = '/' :: rest ∧
      (path.toList = under ss ++ '/' :: rest ∨ rest = [] ∧ path.toList = under ss) := by
  obtain ⟨hfront, hss⟩ := hparent
  obtain ⟨cs, hcs, rfl⟩ := Option.map_eq_some_iff.1 hpath
  obtain ⟨own, howned, rfl⟩ := Option.map_eq_some_iff.1 hown
  have slash (c : List Char) (hc : cls.map String.toList = some c) : c.head? = some '/' := by
    obtain ⟨c', hc', rfl⟩ := Option.map_eq_some_iff.1 hc
    exact hcls c' hc'
  obtain ⟨own', howned', heq⟩ := join_under slash (sealed_of_shown hss) hfront hcs
  obtain rfl : own' = own := Option.some.inj (howned'.symm.trans howned)
  obtain ⟨rest, rfl⟩ := exists_join howned
  rw [String.toList_ofList, String.toList_ofList]
  refine ⟨rest, rfl, heq.imp_right ?_⟩
  rintro ⟨hroot, hcs⟩
  exact ⟨(List.cons.inj hroot).2, hcs⟩

/-- Below a visible template, a path captures what its own fragment captures. -/
theorem patterns_join {cls method : Option String} {parent path own : String}
    (hcls : ∀ c, cls = some c → c.toList.head? = some '/') (hparent : Visible parent ss)
    (hpath : join cls method parent = some path) (hown : join cls method "" = some own) :
    (normalize path).patterns = (normalize own).patterns := by
  obtain ⟨rest, howned, heq⟩ := join_below hcls hparent hpath hown
  obtain ⟨-, hss⟩ := hparent
  rw [patterns_normalize, patterns_normalize, howned]
  congr 1
  rcases heq with heq | ⟨rfl, heq⟩
  · obtain ⟨more, hmore⟩ := exists_trimmed rest
    rw [heq, trimChars_under, hmore, solid_under (sealed_of_shown hss), solid_slash,
      capturedBy_append, capturedBy_of_shown hss]
    rfl
  · have none : capturedBy (solid (trimChars (under ss))) = [] := by
      cases ss with
      | nil => rfl
      | cons s ss =>
        have simple : SimplePath (under (s :: ss)) := by
          intro t ht
          rw [solid_under_nil (sealed_of_shown hss)] at ht
          exact (hss t ht).simple
        have found := congrArg capturedBy (solid_under_nil (sealed_of_shown hss))
        exact (simple.trim.2.trans found).trans (capturedBy_of_shown hss)
    rw [heq, none]
    decide

/-- Below a visible template, the template of a path with a simple fragment is visible again, with
a placeholder for every name that the fragment captures. -/
theorem visible_join {cls method : Option String} {parent path own : String}
    (hcls : ∀ c, cls = some c → c.toList.head? = some '/') (hparent : Visible parent ss)
    (hpath : join cls method parent = some path) (hown : join cls method "" = some own)
    (h : SimplePath own.toList) :
    ∃ ss', Visible (normalize path).text ss' ∧ (normalize path).text.toList = shownAs ss' ∧
      ∀ e ∈ capturedBy (solid own.toList), bare e.1.toList ∈ ss' := by
  obtain ⟨rest, howned, heq⟩ := join_below hcls hparent hpath hown
  obtain ⟨-, hss⟩ := hparent
  have hsolid : solid path.toList = ss ++ solid own.toList := by
    rw [howned]
    rcases heq with heq | ⟨rfl, heq⟩
    · rw [heq, solid_under (sealed_of_shown hss), solid_slash]
    · rw [heq, solid_under_nil (sealed_of_shown hss)]
      exact (List.append_nil ss).symm
  have simple : SimplePath path.toList := by
    intro s hs
    rw [hsolid] at hs
    rcases List.mem_append.1 hs with hs | hs
    · exact (hss s hs).simple
    · exact h s hs
  obtain ⟨cs, hcs⟩ := exists_slash hpath
  rw [hcs] at simple
  obtain ⟨-, ss', htext, hss', hshown⟩ := normalize_of_simple hcs simple
  have front := frontPart_shownAs (sealed_of_shown hss')
  refine ⟨ss', ⟨htext ▸ front, hss'⟩, htext, fun e he => hshown e ?_⟩
  rw [← hcs, hsolid, capturedBy_append]
  exact List.mem_append_right _ he

/-! ### Placeholders -/

/-- Inside of braces a name is read up to the one that closes. -/
theorem placeholdersFrom_naming (h : Naming name) (rest : List Char) :
    ∀ acc : List Char, acc.reverse ++ name ≠ [] →
      placeholdersFrom (some acc) (name ++ '}' :: rest) =
        (acc.reverse ++ name) :: placeholdersFrom none rest := by
  induction name with
  | nil =>
    intro acc hne
    have hacc : acc ≠ [] := by simpa using hne
    simp [placeholdersFrom, hacc]
  | cons c name ih =>
    intro acc hne
    obtain ⟨⟨hopen, hclose, hcolon⟩, hname⟩ := List.forall_mem_cons.1 h
    rw [List.cons_append, placeholdersFrom, if_neg hopen, if_neg hcolon, if_neg hclose,
      ih hname (c :: acc) (by simp)]
    simp

/-- Wherever a placeholder stands, its name is read. -/
theorem mem_placeholdersFrom (h : Naming name) (hne : name ≠ []) (rest : List Char) :
    ∀ (front : List Char) (candidate : Option (List Char)),
      name ∈ placeholdersFrom candidate (front ++ (bare name ++ rest)) := by
  intro front
  induction front with
  | nil =>
    intro candidate
    have read := placeholdersFrom_naming h rest [] hne
    have text : bare name ++ rest = '{' :: (name ++ '}' :: rest) := by simp [bare]
    have opens (cs : List Char) :
        placeholdersFrom candidate ('{' :: cs) = placeholdersFrom (some []) cs := by
      cases candidate <;> rfl
    rw [List.nil_append, text, opens, read]
    exact List.mem_cons_self
  | cons c front ih =>
    intro candidate
    rw [List.cons_append, placeholdersFrom.eq_def]
    dsimp only
    split
    · exact ih _
    · split
      · exact ih _
      · split
        · exact ih _
        · split
          · split
            · exact ih _
            · exact List.mem_cons_of_mem _ (ih _)
          · exact ih _

/-- A placeholder of a shown template is one of its names. -/
theorem mem_placeholders {text name : String} (h : Naming name.toList) (hne : name.toList ≠ [])
    (htext : text.toList = shownAs ss) (hmem : bare name.toList ∈ ss) :
    name ∈ placeholders text := by
  obtain ⟨before, after, rfl⟩ := List.append_of_mem hmem
  rw [shownAs_eq (by simp)] at htext
  have around (rest : List Char) : under before ++ ('/' :: bare name.toList ++ rest) =
      (under before ++ ['/']) ++ (bare name.toList ++ rest) := by
    simp
  refine List.mem_map.2 ⟨name.toList, ?_, String.ofList_toList⟩
  rw [htext, under, List.flatMap_append, List.flatMap_cons, ← under, around]
  exact mem_placeholdersFrom h hne _ _ _

end Path

end ApiCompiler
