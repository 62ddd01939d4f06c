import ApiCompiler.Proofs.ClassFields
import ApiCompiler.Proofs.Declaring
import Mathlib.Data.Finset.Card

/-!
# Lines of classes

The classes above a class are merged from the lines of its bases. The merged line has the classes of
those lines and no others, and where every base with such a class above it is one itself, the first
of a kind in the merged line is the first among the bases. Classes that are filled in are told apart
only as far as sameness of types goes, so that all of this is said of properties that types of one
class share: `TypeExpr.Shared`.

In a world that is declared, the line of each class is the merged one (`World.Linearized`), and a
class above another one has fewer classes in its line (`World.Linearized.card_ranks_lt`).
-/

set_option autoImplicit false

namespace ApiCompiler

namespace TypeExpr

/-- A property that types have in common with the types that are the same. -/
def Shared (Q : TypeExpr → Bool) : Prop := ∀ t u : TypeExpr, t.same u = true → Q t = Q u

variable {Q : TypeExpr → Bool} {t u : TypeExpr}

/-- Types that are the same are of one class, if they are of a class at all. -/
theorem shared_of_class (filled : ∀ i xs ys, Q (.filled i xs) = Q (.filled i ys))
    (other : ∀ t : TypeExpr, t.isClass = false → Q t = false) : Shared Q := by
  intro t u h
  unfold same at h
  split at h
  any_goals exact (other _ rfl).trans (other _ rfl).symm
  · rw [eq_of_beq h]
  · rw [eq_of_beq h]
  · obtain rfl := eq_of_beq (Bool.and_eq_true_iff.1 h).1
    exact filled _ _ _
  · cases h

theorem find?_distinct (hQ : Shared Q) (ts : List TypeExpr) :
    (distinct ts).find? Q = ts.find? Q := by
  have grow (acc : List TypeExpr) : (ts.foldl
      (fun acc t => if acc.any (same t) then acc else acc ++ [t]) acc).find? Q =
        (acc ++ ts).find? Q := by
    induction ts generalizing acc with
    | nil => rw [List.append_nil]; rfl
    | cons t ts ih =>
      rw [List.foldl_cons, ih]
      split
      · rename_i known
        obtain ⟨u, hu, hsame⟩ := List.any_eq_true.1 known
        rw [List.find?_append, List.find?_append, List.find?_cons]
        cases hacc : acc.find? Q with
        | some v => rfl
        | none =>
          have unlike : Q t = false := by
            rw [hQ t u hsame]
            exact Bool.eq_false_iff.2 (List.find?_eq_none.1 hacc u hu)
          rw [unlike]
      · rw [List.append_assoc]
        rfl
  exact grow []

end TypeExpr

namespace World

open TypeExpr

/-- A line without a class at its head. -/
def dropFrom (c : TypeExpr) : List TypeExpr → List TypeExpr
  | [] => []
  | d :: ds => if d.same c then ds else d :: ds

section Merging

variable {Q : TypeExpr → Bool} {t b c : TypeExpr} {lines : List (List TypeExpr)}

theorem dropHead_eq (c : TypeExpr) (lines : List (List TypeExpr)) :
    dropHead c lines = lines.map (dropFrom c) :=
  List.map_congr_left fun line _ => by cases line <;> rfl

theorem dropFrom_cons (c d : TypeExpr) (ds : List TypeExpr) :
    dropFrom c (d :: ds) = if d.same c then ds else d :: ds := rfl

/-- No class of the lines is lost when they are merged. -/
theorem exists_mem_mergeLines (hQ : Shared Q) (bound : Nat) (h : ∃ t ∈ lines.flatten, Q t = true) :
    ∃ t ∈ mergeLines bound lines, Q t = true := by
  have rest {lines : List (List TypeExpr)} (h : ∃ t ∈ lines.flatten, Q t = true) :
      ∃ t ∈ distinct lines.flatten, Q t = true := by
    rwa [← List.find?_isSome, find?_distinct hQ, List.find?_isSome]
  induction bound generalizing lines with
  | zero => exact rest h
  | succ bound ih =>
    rw [← List.flatten_filter_not_isEmpty] at h
    unfold mergeLines
    dsimp only
    split
    · rename_i c hc
      obtain ⟨t, ht, hQt⟩ := h
      by_cases hQc : Q c = true
      · exact ⟨c, List.mem_cons_self, hQc⟩
      · obtain ⟨line, hline, ht⟩ := List.mem_flatten.1 ht
        have kept : t ∈ dropFrom c line := by
          cases line with
          | nil => cases ht
          | cons d ds =>
            rw [dropFrom_cons]
            split
            · rename_i hsame
              refine (List.mem_cons.1 ht).resolve_left ?_
              rintro rfl
              exact hQc (hQ t c hsame ▸ hQt)
            · exact ht
        have left : t ∈ (dropHead c (lines.filter (!·.isEmpty))).flatten := by
          rw [dropHead_eq]
          exact List.mem_flatten.2 ⟨_, List.mem_map_of_mem hline, kept⟩
        obtain ⟨u, hu, hQu⟩ := ih ⟨t, left, hQt⟩
        exact ⟨u, List.mem_cons_of_mem _ hu, hQu⟩
    · exact rest h

/-- A class is the first of its kind in all lines together, and each line whose first one is another
class has to wait: some line has that class behind the first one. -/
structure LedBy (Q : TypeExpr → Bool) (b : TypeExpr) (lines : List (List TypeExpr)) : Prop where
  first : lines.flatten.find? Q = some b
  waits : ∀ line ∈ lines, ∀ t, line.find? Q = some t →
    t = b ∨ ∃ before behind, before ++ b :: behind ∈ lines ∧ t ∈ behind

namespace LedBy

theorem holds (h : LedBy Q b lines) : Q b = true := List.find?_some h.first

theorem nonempty (h : LedBy Q b lines) : LedBy Q b (lines.filter (!·.isEmpty)) where
  first := by rw [List.flatten_filter_not_isEmpty, h.first]
  waits line hline t ht := by
    refine (h.waits line (List.mem_filter.1 hline).1 t ht).imp_right ?_
    rintro ⟨before, behind, hmem, hbehind⟩
    exact ⟨before, behind, List.mem_filter.2 ⟨hmem, by simp⟩, hbehind⟩

/-- The first of the kind that is merged is the leading one. -/
theorem eq_of_head (h : LedBy Q b lines) {line : List TypeExpr} (hline : line ∈ lines)
    (hhead : line.head? = some c) (hc : Q c = true)
    (free : ∀ l ∈ lines, l.tail.any (same c) = false) : c = b := by
  have found : line.find? Q = some c := by
    obtain ⟨ds, rfl⟩ := List.head?_eq_some_iff.1 hhead
    exact List.find?_cons_of_pos hc
  refine (h.waits line hline c found).resolve_right ?_
  rintro ⟨before, behind, hmem, hbehind⟩
  have later : c ∈ (before ++ b :: behind).tail := by
    cases before with
    | nil => exact hbehind
    | cons d before => exact List.mem_append_right _ (List.mem_cons_of_mem _ hbehind)
  exact Bool.false_ne_true ((free _ hmem).symm.trans (List.any_eq_true.2 ⟨c, later, same_refl c⟩))

/-- Merging a class of another kind leaves the leading one in front. -/
theorem dropHead (hQ : Shared Q) (h : LedBy Q b lines) (hc : Q c = false) :
    LedBy Q b (World.dropHead c lines) := by
  have other {d : TypeExpr} (hsame : d.same c = true) : Q d = false := (hQ d c hsame).trans hc
  have found (line : List TypeExpr) : (dropFrom c line).find? Q = line.find? Q := by
    cases line with
    | nil => rfl
    | cons d ds =>
      rw [dropFrom_cons]
      split
      · rename_i hsame
        rw [List.find?_cons, other hsame]
      · rfl
  have ordered (before behind : List TypeExpr) : ∃ before',
      dropFrom c (before ++ b :: behind) = before' ++ b :: behind := by
    cases before with
    | nil =>
      refine ⟨[], if_neg fun hsame => ?_⟩
      exact Bool.false_ne_true ((other hsame).symm.trans h.holds)
    | cons d before =>
      rw [List.cons_append, dropFrom_cons]
      split
      · exact ⟨before, rfl⟩
      · exact ⟨d :: before, rfl⟩
  rw [dropHead_eq]
  refine ⟨?_, fun line hline t ht => ?_⟩
  · rw [List.find?_flatten, List.findSome?_map, ← h.first, List.find?_flatten]
    exact congrArg (List.findSome? · lines) (funext found)
  · obtain ⟨whole, hwhole, rfl⟩ := List.mem_map.1 hline
    rw [found] at ht
    refine (h.waits whole hwhole t ht).imp_right ?_
    rintro ⟨before, behind, hmem, hbehind⟩
    obtain ⟨before', hdrop⟩ := ordered before behind
    exact ⟨before', behind, hdrop ▸ List.mem_map_of_mem hmem, hbehind⟩

end LedBy

/-- What leads the lines comes first of its kind in the merged line. -/
theorem find?_mergeLines (hQ : Shared Q) (bound : Nat) (h : LedBy Q b lines) :
    (mergeLines bound lines).find? Q = some b := by
  have rest {lines : List (List TypeExpr)} (h : LedBy Q b lines) :
      (distinct lines.flatten).find? Q = some b := by
    rw [find?_distinct hQ, h.first]
  induction bound generalizing lines with
  | zero => exact rest h
  | succ bound ih =>
    replace h := h.nonempty
    unfold mergeLines
    dsimp only
    split
    · rename_i c hc
      obtain ⟨line, hline, hhead⟩ := List.mem_filterMap.1 (List.mem_of_find?_eq_some hc)
      have unblocked := List.find?_some hc
      rw [Bool.not_eq_true'] at unblocked
      have free := List.any_eq_false.1 unblocked
      by_cases hQc : Q c = true
      · obtain rfl := h.eq_of_head hline hhead hQc fun l hl => Bool.eq_false_iff.2 (free l hl)
        exact List.find?_cons_of_pos hQc
      · rw [List.find?_cons_of_neg hQc]
        exact ih (h.dropHead hQ (Bool.eq_false_iff.2 hQc))
    · exact rest h

end Merging

section Lines

variable {w w' : World} {Q : TypeExpr → Bool} {t u b cls : TypeExpr} {bases : List TypeExpr}

/-- A base stands for the class that a type gets its fields from. -/
theorem baseClass_eq (t : TypeExpr) : baseClass? t = fieldClass? t := by
  cases t <;> rfl

theorem isClass_of_baseClass (h : baseClass? b = some cls) : cls.isClass = true :=
  isClass_of_fieldClass ((baseClass_eq b).symm.trans h)

/-- A class comes first in its line. -/
theorem exists_lineage_cons (h : cls.isClass = true) : ∃ above, w.lineage cls = cls :: above := by
  cases cls with
  | builtin c => exact ⟨_, rfl⟩
  | declared i => exact ⟨_, rfl⟩
  | filled i args => exact ⟨_, rfl⟩
  | _ => cases h

theorem mem_lineage_self (h : cls.isClass = true) : cls ∈ w.lineage cls := by
  obtain ⟨above, hline⟩ := exists_lineage_cons (w := w) h
  rw [hline]
  exact List.mem_cons_self

/-- What is above a class with some bases is in the line of one of them. -/
theorem mem_linearize (h : t ∈ w.linearize bases) :
    t = .builtin .object ∨ ∃ b ∈ bases, ∃ cls, baseClass? b = some cls ∧ t ∈ w.lineage cls := by
  obtain ⟨line, hline, ht⟩ := List.mem_flatten.1 (Layered.mergeLines_subset _ _ h)
  have classes (hcs : t ∈ bases.filterMap baseClass?) :
      ∃ b ∈ bases, ∃ cls, baseClass? b = some cls ∧ t ∈ w.lineage cls := by
    obtain ⟨b, hb, hcls⟩ := List.mem_filterMap.1 hcs
    exact ⟨b, hb, t, hcls, mem_lineage_self (isClass_of_baseClass hcls)⟩
  split at hline
  · rename_i hnone
    left
    rcases List.mem_append.1 hline with hline | hline
    · obtain rfl := List.mem_singleton.1 hline
      exact List.mem_singleton.1 ht
    · obtain rfl := List.mem_singleton.1 hline
      exact List.mem_singleton.1 ht
  · right
    rcases List.mem_append.1 hline with hline | hline
    · obtain ⟨cls, hcls, rfl⟩ := List.mem_map.1 hline
      obtain ⟨b, hb, hbase⟩ := List.mem_filterMap.1 hcls
      exact ⟨b, hb, cls, hbase, ht⟩
    · obtain rfl := List.mem_singleton.1 hline
      exact classes ht

theorem linearize_of_base (hb : b ∈ bases) (hcls : baseClass? b = some cls) :
    w.linearize bases = mergeLines
      (((bases.filterMap baseClass?).map w.lineage ++ [bases.filterMap baseClass?]).foldl
        (fun n line => n + line.length) 0)
      ((bases.filterMap baseClass?).map w.lineage ++ [bases.filterMap baseClass?]) := by
  have some_class : (bases.filterMap baseClass?).isEmpty = false :=
    List.isEmpty_eq_false_iff.2 (List.ne_nil_of_mem (List.mem_filterMap.2 ⟨b, hb, hcls⟩))
  unfold linearize
  dsimp only
  rw [some_class, if_neg Bool.false_ne_true]

/-- The classes in the line of a base are above a class. -/
theorem exists_mem_linearize (hQ : Shared Q) (hb : b ∈ bases) (hcls : baseClass? b = some cls)
    (h : ∃ t ∈ w.lineage cls, Q t = true) : ∃ t ∈ w.linearize bases, Q t = true := by
  obtain ⟨t, ht, hQt⟩ := h
  rw [linearize_of_base hb hcls]
  refine exists_mem_mergeLines hQ _ ⟨t, List.mem_flatten.2 ⟨w.lineage cls, ?_, ht⟩, hQt⟩
  exact List.mem_append_left _
    (List.mem_map_of_mem (List.mem_filterMap.2 ⟨b, hb, hcls⟩))

/-- If every class with one of some kind above it is one itself, the first of the classes that is of
the kind leads their lines. -/
theorem ledBy_lines {classes : List TypeExpr} (isClass : ∀ b ∈ classes, b.isClass = true)
    (hfirst : classes.find? Q = some cls)
    (top : ∀ b ∈ classes, ∀ t ∈ w.lineage b, Q t = true → Q b = true) :
    LedBy Q cls (classes.map w.lineage ++ [classes]) := by
  obtain ⟨hcls, before, behind, rfl, earlier⟩ := List.find?_eq_some_iff_append.1 hfirst
  have head {b : TypeExpr} (hmem : b ∈ before ++ cls :: behind) (hQb : Q b = true) :
      (w.lineage b).find? Q = some b := by
    obtain ⟨above, hline⟩ := exists_lineage_cons (w := w) (isClass b hmem)
    rw [hline]
    exact List.find?_cons_of_pos hQb
  have unlike : ∀ b ∈ before, Q b = false := fun b hb => by
    have other := earlier b hb
    rwa [Bool.not_eq_true'] at other
  refine ⟨?_, fun line hline t ht => ?_⟩
  · have skipped : (before.map w.lineage).flatten.find? Q = none := by
      refine List.find?_eq_none.2 fun t ht hQt => ?_
      obtain ⟨line, hline, ht⟩ := List.mem_flatten.1 ht
      obtain ⟨b, hb, rfl⟩ := List.mem_map.1 hline
      have alike := top b (List.mem_append_left _ hb) t ht hQt
      exact Bool.false_ne_true ((unlike b hb).symm.trans alike)
    have leads := head (List.mem_append_right before List.mem_cons_self) hcls
    rw [List.map_append, List.map_cons, List.append_assoc, List.flatten_append, List.find?_append,
      skipped, Option.none_or, List.cons_append, List.flatten_cons, List.find?_append, leads,
      Option.some_or]
  · rcases List.mem_append.1 hline with hline | hline
    · obtain ⟨b, hb, rfl⟩ := List.mem_map.1 hline
      have hQb := top b hb t (List.mem_of_find?_eq_some ht) (List.find?_some ht)
      obtain rfl := Option.some.inj ((head hb hQb).symm.trans ht)
      rcases List.mem_append.1 hb with hb | hb
      · exact absurd ((unlike b hb).symm.trans hQb) Bool.false_ne_true
      · refine (List.mem_cons.1 hb).imp_right fun hb => ⟨before, behind, ?_, hb⟩
        exact List.mem_append_right _ List.mem_cons_self
    · obtain rfl := List.mem_singleton.1 hline
      exact .inl (Option.some.inj (ht.symm.trans hfirst))

/-- If every base with a class of some kind above it is one itself, the first base of the kind comes
first of its kind in the line. -/
theorem find?_linearize (hQ : Shared Q) (hfirst : (bases.filterMap baseClass?).find? Q = some cls)
    (top : ∀ b ∈ bases.filterMap baseClass?, ∀ t ∈ w.lineage b, Q t = true → Q b = true) :
    (w.linearize bases).find? Q = some cls := by
  obtain ⟨b, hb, hbase⟩ := List.mem_filterMap.1 (List.mem_of_find?_eq_some hfirst)
  rw [linearize_of_base hb hbase]
  refine find?_mergeLines hQ _ (ledBy_lines (fun b hb => ?_) hfirst top)
  obtain ⟨b', _, hb'⟩ := List.mem_filterMap.1 hb
  exact isClass_of_baseClass hb'

theorem linearize_congr (h : ∀ b ∈ bases, ∀ cls, baseClass? b = some cls →
    w.lineage cls = w'.lineage cls) : w.linearize bases = w'.linearize bases := by
  have lines : (bases.filterMap baseClass?).map w.lineage =
      (bases.filterMap baseClass?).map w'.lineage := by
    refine List.map_congr_left fun cls hcls => ?_
    obtain ⟨b, hb, hbase⟩ := List.mem_filterMap.1 hcls
    exact h b hb cls hbase
  unfold linearize
  dsimp only
  split
  · rfl
  · rw [lines]

end Lines

/-- What the line of a class is merged from: its bases, or the known class of its kind. -/
def parents (c : ClassDecl) : List TypeExpr :=
  if c.kind.standsAlone then (ClassSpec.standardBase? c.kind).toList.map .builtin else c.bases

theorem above_declare (spec : ClassSpec) (w : World) :
    (spec.declare w).above = w.linearize (parents (spec.declare w)) := by
  show spec.above w =
    w.linearize (if spec.kind.standsAlone then
      (ClassSpec.standardBase? spec.kind).toList.map .builtin else spec.bases)
  unfold ClassSpec.above
  cases spec.kind with
  | plain | dataclass | model | typedDict | namedTuple => rfl
  | enumeration base => cases base <;> rfl

/-- The classes above each class are merged from the lines of its parents. -/
structure Linearized (w : World) : Prop where
  layered : w.Layered
  above : ∀ i c, w.class? i = some c → c.above = w.linearize (parents c)

section Linearized

variable {w w' : World} {n i : Nat} {t u b cls : TypeExpr} {c : ClassDecl}

theorem parents_below (h : BelowAll n c.bases) : BelowAll n (parents c) := by
  unfold parents
  split
  · refine belowAll_iff.2 fun t ht => ?_
    obtain ⟨d, _, rfl⟩ := List.mem_map.1 ht
    trivial
  · exact h

/-- The line of an early class is a matter of what is above the early classes. -/
theorem lineage_congr (h : ∀ i < n, (w.class? i).map ClassDecl.above =
    (w'.class? i).map ClassDecl.above) (ht : t.Below n) : w.lineage t = w'.lineage t := by
  cases t with
  | declared i =>
    show TypeExpr.declared i :: ((w.class? i).map ClassDecl.above).getD [] = _
    rw [h i ht]
    rfl
  | filled i args =>
    show TypeExpr.filled i args :: .declared i :: ((w.class? i).map ClassDecl.above).getD [] = _
    rw [h i ht.1]
    rfl
  | _ => rfl

namespace Linearized

/-- A class is merged from the same lines wherever the classes before it have the same above. -/
theorem above_congr (hbases : BelowAll n c.bases) (h : ∀ i < n, (w.class? i).map ClassDecl.above =
    (w'.class? i).map ClassDecl.above) (hc : c.above = w.linearize (parents c)) :
    c.above = w'.linearize (parents c) := by
  rw [hc]
  refine linearize_congr fun b hb cls hcls => lineage_congr h ?_
  exact baseClass?_below (belowAll_iff.1 (parents_below hbases) b hb) hcls

theorem extend (hw : w.Linearized) {d : TypeDecl} {names : Table TypeExpr}
    (layered : Layered { decls := w.decls ++ [d], names })
    (hd : ∀ c, d = .cls c → c.above = w.linearize (parents c)) :
    Linearized { decls := w.decls ++ [d], names } := by
  refine ⟨layered, fun i c hc => ?_⟩
  have earlier (j : Nat) (hj : j < w.decls.length) : (w.class? j).map ClassDecl.above =
      (World.class? { decls := w.decls ++ [d], names } j).map ClassDecl.above := by
    unfold World.class?
    rw [List.getElem?_append_left hj]
  have bases := layered.bases i c hc
  rcases class?_append.1 hc with h | ⟨rfl, rfl⟩
  · have hlt : i < w.decls.length := (List.getElem?_eq_some_iff.1 (class?_iff.1 h)).1
    exact above_congr bases (fun j hj => earlier j (Nat.lt_trans hj hlt)) (hw.above i c h)
  · exact above_congr bases earlier (hd c rfl)

theorem nestIn (hw : w.Linearized) (outer name : String) (j : Nat) :
    (World.nestIn outer name j w).Linearized := by
  refine ⟨hw.layered.nestIn _ _ _, fun i c hc => ?_⟩
  have unmoved (k : Nat) : (w.class? k).map ClassDecl.above =
      ((World.nestIn outer name j w).class? k).map ClassDecl.above := by
    unfold World.nestIn
    split
    · rename_i m _
      unfold World.class?
      rw [List.getElem?_modify]
      by_cases hm : m = k
      · simp only [if_pos hm]
        rcases w.decls[k]? with _ | _ | _ | _ <;> rfl
      · simp only [if_neg hm]
        cases w.decls[k]? <;> rfl
    · rfl
  obtain ⟨c', hc', hcc'⟩ := class?_nestIn hc
  have merged := above_congr (hw.layered.bases i c' hc') (fun k _ => unmoved k) (hw.above i c' hc')
  rw [hcc']
  exact merged

theorem addClass (hw : w.Linearized) {spec : ClassSpec}
    (h : BelowAll w.decls.length spec.bases) : (w.addClass spec).Linearized := by
  have added : Linearized { decls := w.decls ++ [.cls (spec.declare w)]
                            names := w.names.insert spec.id (.declared w.decls.length) } := by
    refine hw.extend (hw.layered.addClassDecl h) fun c hc => ?_
    obtain rfl := TypeDecl.cls.inj hc
    exact above_declare spec w
  unfold World.addClass
  dsimp only
  split
  · exact added.nestIn _ _ _
  · exact added

/-- Lines are merged in every world that is declared. -/
theorem ofDeclarations {decls : List Value} (h : World.ofDeclarations decls = .ok w) :
    w.Linearized := by
  refine ofDeclarations_induction h ⟨Layered.layered_empty, fun i c h => by cases h⟩
    ?typeVar ?newType ?name ?cls
  case typeVar =>
    intro w id name hw
    exact hw.extend (hw.layered.addDecl (fun _ h => TypeDecl.noConfusion h) trivial)
      fun _ h => TypeDecl.noConfusion h
  case newType =>
    intro w id name hw
    exact hw.extend (hw.layered.addDecl (fun _ h => TypeDecl.noConfusion h) trivial)
      fun _ h => TypeDecl.noConfusion h
  case name =>
    exact fun w id v t hw ht =>
      ⟨hw.layered.addName ((readType_below hw.layered.names).1 _ t ht), hw.above⟩
  case cls => exact fun w v _ kind spec hw _ hspec => hw.addClass (hw.layered.readClass hspec)

end Linearized

/-- A number for every declared class; what is filled in comes right after the class itself. -/
def rank? : TypeExpr → Option Nat
  | .declared i => some (2 * i)
  | .filled i _ => some (2 * i + 1)
  | _ => none

/-- The numbers of the classes in the line of a class. -/
def ranks (w : World) (t : TypeExpr) : Finset Nat := ((w.lineage t).filterMap rank?).toFinset

theorem mem_ranks {k : Nat} : k ∈ w.ranks t ↔ ∃ u ∈ w.lineage t, rank? u = some k := by
  rw [ranks, List.mem_toFinset, List.mem_filterMap]

theorem card_ranks_le : (w.ranks t).card ≤ (w.lineage t).length :=
  (List.toFinset_card_le _).trans (List.length_filterMap_le _ _)

theorem shared_rank (k : Nat) : Shared fun t => rank? t == some k := by
  refine shared_of_class (fun i xs ys => rfl) fun t ht => ?_
  cases t with
  | declared | filled => cases ht
  | _ => rfl

theorem rank_lt (ht : t.Below n) {k : Nat} (h : rank? t = some k) : k < 2 * n := by
  cases t with
  | declared i =>
    have hi : i < n := ht
    obtain rfl := Option.some.inj h
    omega
  | filled i args =>
    have hi : i < n := ht.1
    obtain rfl := Option.some.inj h
    omega
  | _ => cases h

theorem mem_lineage_builtin {c : Builtin} (h : t ∈ w.lineage (.builtin c)) :
    ∃ d, t = .builtin d := by
  rcases List.mem_append.1 h with h | h
  · rcases List.mem_cons.1 h with rfl | h
    · exact ⟨c, rfl⟩
    · obtain ⟨d, _, rfl⟩ := List.mem_map.1 h
      exact ⟨d, rfl⟩
  · split at h
    · cases h
    · exact ⟨.object, List.mem_singleton.1 h⟩

/-- Of the known classes only the token class has itself above. -/
theorem eq_typeToken_of_mem {c : Builtin} (h : .builtin .typeToken ∈ w.lineage (.builtin c)) :
    c = .typeToken := by
  cases c with
  | typeToken => rfl
  | _ => simp [lineage, Builtin.above] at h

namespace Linearized

/-- What is above a class is in the line of one of its parents, except for the topmost class. -/
theorem mem_above (hw : w.Linearized) (hc : w.class? i = some c) (ht : t ∈ c.above) :
    t = .builtin .object ∨
      ∃ b ∈ parents c, ∃ cls, baseClass? b = some cls ∧ cls.Below i ∧ t ∈ w.lineage cls := by
  rw [hw.above i c hc] at ht
  refine (mem_linearize ht).imp_right ?_
  rintro ⟨b, hb, cls, hcls, ht⟩
  have below := belowAll_iff.1 (parents_below (hw.layered.bases i c hc)) b hb
  exact ⟨b, hb, cls, hcls, baseClass?_below below hcls, ht⟩

/-- The classes above a class that is above another one are above that one, too. The induction is on
the position that the lower class is declared before. -/
theorem exists_mem_lineage (hw : w.Linearized) {Q : TypeExpr → Bool} (hQ : Shared Q)
    (known : ∀ c, Q (.builtin c) = true → c = .typeToken) (ht : t ∈ w.lineage u)
    (h : ∃ v ∈ w.lineage t, Q v = true) : ∃ v ∈ w.lineage u, Q v = true := by
  have token {c : Builtin} (h : ∃ v ∈ w.lineage (.builtin c), Q v = true) :
      c = .typeToken ∧ Q (.builtin c) = true := by
    obtain ⟨v, hv, hQv⟩ := h
    obtain ⟨d, rfl⟩ := mem_lineage_builtin hv
    obtain rfl := known d hQv
    obtain rfl := eq_typeToken_of_mem hv
    exact ⟨rfl, hQv⟩
  obtain ⟨n, hn⟩ := Below.exists u
  induction n using Nat.strongRecOn generalizing u with
  | ind n ih =>
    have inherited {i : Nat} (hi : i < n)
        (ht : t ∈ ((w.class? i).map ClassDecl.above).getD []) :
        ∃ v ∈ ((w.class? i).map ClassDecl.above).getD [], Q v = true := by
      cases hc : w.class? i with
      | none =>
        rw [hc] at ht
        cases ht
      | some c =>
        rw [hc] at ht
        show ∃ v ∈ c.above, Q v = true
        rcases hw.mem_above hc ht with rfl | ⟨b, hb, cls, hcls, below, ht⟩
        · exact absurd (token h).1 nofun
        · rw [hw.above i c hc]
          exact exists_mem_linearize hQ hb hcls (ih i hi ht below)
    cases u with
    | builtin c =>
      obtain ⟨d, rfl⟩ := mem_lineage_builtin ht
      exact ⟨_, ht, (token h).2⟩
    | declared i =>
      rcases List.mem_cons.1 ht with rfl | ht
      · exact h
      · obtain ⟨v, hv, hQv⟩ := inherited hn ht
        exact ⟨v, List.mem_cons_of_mem _ hv, hQv⟩
    | filled i args =>
      rcases List.mem_cons.1 ht with rfl | ht
      · exact h
      · rcases List.mem_cons.1 ht with rfl | ht
        · obtain ⟨v, hv, hQv⟩ := h
          exact ⟨v, List.mem_cons_of_mem _ hv, hQv⟩
        · obtain ⟨v, hv, hQv⟩ := inherited hn.1 ht
          exact ⟨v, List.mem_cons_of_mem _ (List.mem_cons_of_mem _ hv), hQv⟩
    | _ => cases ht

/-- Numbers get smaller on the way up. -/
theorem rank_lt_above (hw : w.Linearized) {k m : Nat} (ht : rank? t = some k)
    (hu : u ∈ (w.lineage t).drop 1) {v : TypeExpr} (hv : v ∈ w.lineage u)
    (hm : rank? v = some m) : m < k := by
  have above (i : Nat) : BelowAll i (((w.class? i).map ClassDecl.above).getD []) := by
    cases hc : w.class? i with
    | none => trivial
    | some c => exact hw.layered.above i c hc
  have early {i : Nat} (hu : u ∈ ((w.class? i).map ClassDecl.above).getD []) : m < 2 * i :=
    rank_lt (belowAll_iff.1 (hw.layered.lineage (belowAll_iff.1 (above i) u hu)) v hv) hm
  cases t with
  | declared i =>
    obtain rfl := Option.some.inj ht
    exact early hu
  | filled i args =>
    obtain rfl := Option.some.inj ht
    rcases List.mem_cons.1 hu with rfl | hu
    · rcases List.mem_cons.1 hv with rfl | hv
      · obtain rfl := Option.some.inj hm
        exact Nat.lt_succ_self _
      · have early := rank_lt (belowAll_iff.1 (above i) v hv) hm
        omega
    · exact Nat.lt_succ_of_lt (early hu)
  | _ => cases ht

/-- A class above another one has fewer classes in its line. -/
theorem card_ranks_lt (hw : w.Linearized) {k : Nat} (ht : rank? t = some k)
    (hu : u ∈ (w.lineage t).drop 1) : (w.ranks u).card < (w.ranks t).card := by
  have fewer : w.ranks u ⊆ w.ranks t := by
    intro m hm
    obtain ⟨v, hv, hrank⟩ := mem_ranks.1 hm
    obtain ⟨v', hv', hrank'⟩ := hw.exists_mem_lineage (shared_rank m) nofun
      (List.mem_of_mem_drop hu) ⟨v, hv, beq_iff_eq.2 hrank⟩
    exact mem_ranks.2 ⟨v', hv', beq_iff_eq.1 hrank'⟩
  have own : k ∈ w.ranks t := by
    refine mem_ranks.2 ⟨t, mem_lineage_self ?_, ht⟩
    cases t with
    | declared | filled => rfl
    | _ => cases ht
  have missing : k ∉ w.ranks u := by
    intro hk
    obtain ⟨v, hv, hrank⟩ := mem_ranks.1 hk
    exact Nat.lt_irrefl k (hw.rank_lt_above ht hu hv hrank)
  exact Finset.card_lt_card ⟨fewer, fun h => missing (h own)⟩

end Linearized

end Linearized

end World

end ApiCompiler
