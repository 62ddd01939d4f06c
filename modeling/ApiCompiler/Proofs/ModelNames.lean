import Mathlib.Data.List.Nodup
import ApiCompiler.Proofs.Texts

/-!
# Names of models

The name of a model shows each class and generic name that its type is built from in a way that
depends on where it stands: the class of the model by its qualified name, an argument by its simple
name, what is inside of an argument by its text without `typing.`. As long as no two of them that
stand at the same place are shown in the same way, the type can be read off the name, however deep
it is nested.
-/

set_option autoImplicit false

namespace ApiCompiler

namespace World

/-- The characters that stand between the parts of a type in its text. -/
def isMark (c : Char) : Bool := c == '[' || c == ']' || c == ','

/-- A text as a label has it. -/
def cleaned (cs : List Char) : List Char := without "typing.".toList cs

/-- A class or generic name with arguments. -/
def form (w : World) (t : TypeExpr) (args : List TypeExpr) : TypeExpr :=
  match t with
  | .builtin c => .applied (.builtin c) args
  | .generic g => .applied (.generic g) args
  | .declared i =>
    if w.holdsItems t then .applied (.container i) args
    else if w.isModel t then .filled i args
    else .applied (.declared i) args
  | t => t

/-- How a type is written. -/
inductive Style where
  /-- As the name of a model. -/
  | name
  /-- As an argument in the name of a model. -/
  | label
  /-- As an argument in a label. -/
  | text
  /-- As an argument in the name of a model class that is filled in, which may itself be a part of
  the text of a label. -/
  | filled (inText : Bool)

/-- A text that is a part of a label, or one that is not. -/
def partOf : Bool → List Char → List Char
  | true, cs => cleaned cs
  | false, cs => cs

def written (w : World) (t : TypeExpr) : Style → List Char
  | .name => ((w.modelName t).toOption.getD "").toList
  | .label => (w.label t).toList
  | .text => cleaned (w.text t).toList
  | .filled inText => partOf inText (w.filledName t).toList

def headText (w : World) : Head → String
  | .builtin c => c.text
  | .generic g => "typing." ++ g.name
  | .declared i | .container i => global (w.declaredQualname i)

def headName (w : World) : Head → String
  | .builtin c => c.qualname
  | .generic g => g.name
  | .declared i | .container i => w.declaredName i

/-- What is written in front of the brackets when a class or generic name has arguments: a model
class that is filled in shows its simple name. -/
def front (w : World) (a : TypeExpr) (style : Style) : List Char :=
  match w.form a [], style with
  | .applied head _, .name => (w.headText head).toList
  | .applied head _, .label | .applied head _, .text => cleaned (w.headText head).toList
  | .applied head _, .filled inText => partOf inText (w.headName head).toList
  | .filled i _, .name => (global (w.declaredName i)).toList
  | .filled i _, .label => (w.declaredName i).toList
  | .filled i _, .text => cleaned (global (w.declaredName i)).toList
  | .filled i _, .filled inText => partOf inText (w.declaredName i).toList
  | _, _ => []

/-- How the arguments of a class or generic name are written. -/
def inner (w : World) (a : TypeExpr) (style : Style) : Style :=
  match w.form a [], style with
  | _, .filled inText => .filled inText
  | .filled .., .text => .filled true
  | .filled .., _ => .filled false
  | _, .name => .label
  | _, _ => .text

/-- Where a class or generic name stands in a name: by itself, or in front of its arguments. -/
inductive Place where
  | alone (style : Style)
  | front (style : Style)

/-- What is written for a class or generic name at a place. -/
def spelling (w : World) (a : TypeExpr) : Place → List Char
  | .alone style => w.written a style
  | .front style => w.front a style

/-- The classes and generic names that stand at each place of a name: models are of declared
classes, no name of a declared class has brackets or commas, and no two different ones are written
in the same way at one place. -/
structure Distinguished (w : World) (P : Place → TypeExpr → Prop) : Prop where
  known : ∀ p a, P p a →
    (∃ c, a = .builtin c) ∨ (∃ g, a = .generic g) ∨ ∃ i, a = .declared i
  models : ∀ a, P (.alone .name) a ∨ P (.front .name) a → ∃ i, a = .declared i
  unmarked : ∀ p i, P p (.declared i) → (∀ c ∈ (w.declaredName i).toList, isMark c = false) ∧
    ∀ c ∈ (w.declaredQualname i).toList, isMark c = false
  apart : ∀ p a b, P p a → P p b → w.spelling a p = w.spelling b p → a = b

/-- A class or generic name, or one with arguments in brackets, to any depth, that is written in the
given style: each has to stand where it may. -/
inductive BuiltFrom (w : World) (P : Place → TypeExpr → Prop) : Style → TypeExpr → Prop
  | base {style : Style} {a : TypeExpr} (h : P (.alone style) a) : BuiltFrom w P style a
  | subscript {style : Style} {a u : TypeExpr} {args : List TypeExpr} (h : P (.front style) a)
      (hne : args ≠ []) (hargs : ∀ b ∈ args, BuiltFrom w P (w.inner a style) b)
      (hu : w.subscript a args = some u) : BuiltFrom w P style u

/-! ### Types with arguments -/

section

variable {w : World}

/-- The class alone decides what a declared class with arguments is. -/
theorem form_declared (w : World) (i : Nat) :
    (∀ args, w.form (.declared i) args = .applied (.container i) args) ∨
      (∀ args, w.form (.declared i) args = .filled i args) ∨
        ∀ args, w.form (.declared i) args = .applied (.declared i) args := by
  unfold form
  by_cases hitems : w.holdsItems (.declared i) = true
  · left
    intro args
    simp [hitems]
  · by_cases hmodel : w.isModel (.declared i) = true
    · right; left
      intro args
      simp [hitems, hmodel]
    · right; right
      intro args
      simp [hitems, hmodel]

theorem map_asType {args : List TypeExpr} (h : ∀ a ∈ args, a ≠ .null) :
    args.map TypeExpr.asType = args := by
  have same : args.map TypeExpr.asType = args.map id := by
    apply List.map_congr_left
    intro a ha
    cases a with
    | null => exact absurd rfl (h _ ha)
    | _ => rfl
  rw [same, List.map_id]

theorem makeApplied_eq {args : List TypeExpr} (h : ∀ a ∈ args, a ≠ .null) (head : Head) :
    TypeExpr.makeApplied head args = .applied head args := by
  unfold TypeExpr.makeApplied
  rw [map_asType h, ite_self]

/-- Arguments that are no type variables differ from the parameters of the class. -/
theorem sameList_typeVars {args : List TypeExpr} (hne : args ≠ [])
    (hvar : ∀ a ∈ args, ∀ i, a ≠ .typeVar i) {vars : List Nat} :
    ¬ TypeExpr.sameList args (vars.map .typeVar) = true := by
  cases args with
  | nil => exact absurd rfl hne
  | cons a args =>
    cases vars with
    | nil => exact nofun
    | cons i vars =>
      intro h
      have ha : a.same (.typeVar i) = true := (Bool.and_eq_true_iff.1 h).1
      cases a with
      | typeVar j => exact hvar _ List.mem_cons_self j rfl
      | _ => cases ha

/-- A class or a generic name with arguments is an application or a class that is filled in; it
alone decides which. -/
theorem form_cases (w : World) {a : TypeExpr}
    (ha : (∃ c, a = .builtin c) ∨ (∃ g, a = .generic g) ∨ ∃ i, a = .declared i) :
    (∃ head, ∀ args, w.form a args = .applied head args) ∨
      ∃ i, a = .declared i ∧ ∀ args, w.form a args = .filled i args := by
  rcases ha with ⟨c, rfl⟩ | ⟨g, rfl⟩ | ⟨i, rfl⟩
  · exact .inl ⟨.builtin c, fun _ => rfl⟩
  · exact .inl ⟨.generic g, fun _ => rfl⟩
  · rcases form_declared w i with h | h | h
    · exact .inl ⟨_, h⟩
    · exact .inr ⟨i, rfl, h⟩
    · exact .inl ⟨_, h⟩

theorem head_declared {i : Nat} {head : Head}
    (h : ∀ args, w.form (.declared i) args = .applied head args) :
    head = .declared i ∨ head = .container i := by
  rcases form_declared w i with h' | h' | h'
  · exact .inr (TypeExpr.applied.inj ((h []).symm.trans (h' []))).1
  · cases (h []).symm.trans (h' [])
  · exact .inl (TypeExpr.applied.inj ((h []).symm.trans (h' []))).1

theorem subscript_eq_form {a u : TypeExpr}
    (ha : (∃ c, a = .builtin c) ∨ (∃ g, a = .generic g) ∨ ∃ i, a = .declared i)
    {args : List TypeExpr} (hne : args ≠ []) (hnull : ∀ b ∈ args, b ≠ .null)
    (hvar : ∀ b ∈ args, ∀ i, b ≠ .typeVar i) (hu : w.subscript a args = some u) :
    u = w.form a args := by
  rcases ha with ⟨c, rfl⟩ | ⟨g, rfl⟩ | ⟨i, rfl⟩
  · obtain ⟨_, hu⟩ := Option.ite_none_right_eq_some.1 hu
    rw [makeApplied_eq hnull] at hu
    exact (Option.some.inj hu).symm
  · obtain ⟨_, hu⟩ := Option.ite_none_right_eq_some.1 hu
    rw [makeApplied_eq hnull] at hu
    exact (Option.some.inj hu).symm
  · simp only [World.subscript] at hu
    simp only [form]
    by_cases hitems : w.holdsItems (.declared i) = true
    · rw [if_pos hitems, makeApplied_eq hnull] at hu
      rw [if_pos hitems]
      exact (Option.some.inj hu).symm
    · rw [if_neg hitems] at hu
      rw [if_neg hitems]
      obtain ⟨_, hu⟩ := Option.ite_none_left_eq_some.1 hu
      by_cases hmodel : w.isModel (.declared i) = true
      · rw [if_pos hmodel, map_asType hnull, if_neg (sameList_typeVars hne hvar)] at hu
        rw [if_pos hmodel]
        exact (Option.some.inj hu).symm
      · rw [if_neg hmodel, makeApplied_eq hnull] at hu
        rw [if_neg hmodel]
        exact (Option.some.inj hu).symm

variable {P : Place → TypeExpr → Prop} {style : Style}

/-- Neither the null value nor a type variable is built. -/
theorem BuiltFrom.ne (hP : w.Distinguished P) {t : TypeExpr} (h : w.BuiltFrom P style t) :
    t ≠ .null ∧ ∀ i, t ≠ .typeVar i := by
  induction h with
  | base h =>
    rcases hP.known _ _ h with ⟨c, rfl⟩ | ⟨g, rfl⟩ | ⟨i, rfl⟩
    all_goals exact ⟨nofun, fun _ => nofun⟩
  | subscript h hne hargs hu ih =>
    have known := hP.known _ _ h
    rw [subscript_eq_form known hne (fun b hb => (ih b hb).1) (fun b hb => (ih b hb).2) hu]
    rcases form_cases w known with ⟨head, hform⟩ | ⟨i, _, hform⟩
    · rw [hform]
      exact ⟨nofun, fun _ => nofun⟩
    · rw [hform]
      exact ⟨nofun, fun _ => nofun⟩

/-- A class or generic name in brackets becomes its form with the arguments. -/
theorem BuiltFrom.subscript_eq (hP : w.Distinguished P) {a u : TypeExpr} {args : List TypeExpr}
    (h : P (.front style) a) (hne : args ≠ [])
    (hargs : ∀ b ∈ args, w.BuiltFrom P (w.inner a style) b) (hu : w.subscript a args = some u) :
    u = w.form a args :=
  subscript_eq_form (hP.known _ _ h) hne (fun b hb => ((hargs b hb).ne hP).1)
    (fun b hb => ((hargs b hb).ne hP).2) hu

/-! ### What is written -/

def commas (parts : List (List Char)) : List Char := [',', ' '].intercalate parts

theorem commas_cons_cons (x y : List Char) (more : List (List Char)) :
    commas (x :: y :: more) = x ++ ',' :: ' ' :: commas (y :: more) := by
  unfold commas
  rw [List.intercalate_cons_cons, List.append_assoc]
  rfl

theorem commas_singleton (x : List Char) : commas [x] = x := by simp [commas]

theorem toList_commaList (texts : List String) :
    (commaList texts).toList = commas (texts.map String.toList) :=
  String.toList_intercalate

theorem toList_inBrackets {args : List String} (h : args ≠ []) (head : String) :
    (inBrackets head args).toList =
      head.toList ++ '[' :: (commas (args.map String.toList) ++ [']']) := by
  have hne : args.isEmpty = false := by simpa using h
  unfold inBrackets
  rw [hne, if_neg Bool.false_ne_true]
  simp [String.toList_append, toList_commaList]

theorem toList_bracketed (head : String) (args : List String) :
    (head ++ "[" ++ commaList args ++ "]").toList =
      head.toList ++ '[' :: (commas (args.map String.toList) ++ [']']) := by
  simp [String.toList_append, toList_commaList]

theorem not_mem_typing {c : Char} (h : isMark c = true) : c ∉ "typing.".toList := by
  simp only [isMark, Bool.or_eq_true, beq_iff_eq] at h
  rcases h with (rfl | rfl) | rfl <;> decide

theorem cleaned_append_mark {c : Char} (h : isMark c = true) (front rest : List Char) :
    cleaned (front ++ c :: rest) = cleaned front ++ c :: cleaned rest :=
  without_append_mark (by decide) (not_mem_typing h) front rest

theorem cleaned_commas (parts : List (List Char)) :
    cleaned (commas parts) = commas (parts.map cleaned) := by
  induction parts with
  | nil => rfl
  | cons x parts ih =>
    cases parts with
    | nil => rw [List.map_singleton, commas_singleton, commas_singleton]
    | cons y parts =>
      have blank : ∀ cs, cleaned (' ' :: cs) = ' ' :: cleaned cs :=
        without_append_mark (by decide) (by decide) []
      rw [commas_cons_cons, cleaned_append_mark rfl, blank, ih]
      simp only [List.map_cons, commas_cons_cons]

/-- Removing `typing.` from a text removes it from what stands in front of the brackets and from
the arguments. -/
theorem cleaned_bracketed (head : List Char) (parts : List (List Char)) :
    cleaned (head ++ '[' :: (commas parts ++ [']'])) =
      cleaned head ++ '[' :: (commas (parts.map cleaned) ++ [']']) := by
  rw [cleaned_append_mark rfl, cleaned_append_mark rfl, cleaned_commas]
  rfl

theorem partOf_bracketed (inText : Bool) (head : List Char) (parts : List (List Char)) :
    partOf inText (head ++ '[' :: (commas parts ++ [']'])) =
      partOf inText head ++ '[' :: (commas (parts.map (partOf inText)) ++ [']']) := by
  cases inText with
  | false =>
    have same : parts.map (partOf false) = parts := List.map_id parts
    rw [same]
    rfl
  | true => exact cleaned_bracketed head parts

theorem texts_eq_map (ts : List TypeExpr) : w.texts ts = ts.map w.text := by
  induction ts with
  | nil => rfl
  | cons t ts ih => rw [texts, ih, List.map_cons]

theorem filledNames_eq_map (ts : List TypeExpr) : w.filledNames ts = ts.map w.filledName := by
  induction ts with
  | nil => rfl
  | cons t ts ih => rw [filledNames, ih, List.map_cons]

theorem toList_filledNames (head : String) (args : List TypeExpr) :
    (head ++ "[" ++ commaList (w.filledNames args) ++ "]").toList =
      head.toList ++ '[' :: (commas (args.map (w.written · (.filled false))) ++ [']']) := by
  rw [toList_bracketed, filledNames_eq_map, List.map_map]
  rfl

theorem text_applied (w : World) (head : Head) (args : List TypeExpr) :
    w.text (.applied head args) = inBrackets (w.headText head) (w.texts args) := by
  cases head <;> rfl

theorem filledName_applied (w : World) (head : Head) (args : List TypeExpr) :
    w.filledName (.applied head args) =
      w.headName head ++ "[" ++ commaList (w.filledNames args) ++ "]" := by
  cases head <;> rfl

theorem text_filled (w : World) (i : Nat) (args : List TypeExpr) :
    w.text (.filled i args) = global (w.declaredName i) ++ "[" ++
      commaList (w.filledNames args) ++ "]" := by
  show global (w.declaredName i ++ "[" ++ commaList (w.filledNames args) ++ "]") = _
  unfold global
  rw [← String.append_assoc, ← String.append_assoc, ← String.append_assoc]

/-- The text of an application in a label. -/
theorem cleaned_text_applied (head : Head) {args : List TypeExpr} (hne : args ≠ []) :
    cleaned (w.text (.applied head args)).toList = cleaned (w.headText head).toList ++
      '[' :: (commas (args.map (w.written · .text)) ++ [']']) := by
  have hne' : w.texts args ≠ [] := by
    rw [texts_eq_map]
    simpa using hne
  rw [text_applied, toList_inBrackets hne', cleaned_bracketed, texts_eq_map, List.map_map,
    List.map_map]
  rfl

theorem filledName_part (inText : Bool) (head : String) (args : List TypeExpr) :
    partOf inText (head ++ "[" ++ commaList (w.filledNames args) ++ "]").toList =
      partOf inText head.toList ++
        '[' :: (commas (args.map (w.written · (.filled inText))) ++ [']']) := by
  have each : ∀ t, partOf inText (w.written t (.filled false)) = w.written t (.filled inText) := by
    intro t
    cases inText <;> rfl
  rw [toList_filledNames, partOf_bracketed, List.map_map]
  simp only [Function.comp_def, each]

theorem written_label_applied (head : Head) (args : List TypeExpr) :
    w.written (.applied head args) .label = cleaned (w.text (.applied head args)).toList :=
  String.toList_ofList

theorem modelName_applied {head : Head} {i : Nat} (hhead : head = .declared i ∨ head = .container i)
    {args : List TypeExpr} (hne : args ≠ []) : w.modelName (.applied head args) =
      .ok (inBrackets (w.headText head) (args.map w.label)) := by
  cases args with
  | nil => exact absurd rfl hne
  | cons a args => rcases hhead with rfl | rfl <;> rfl

theorem written_name {t : TypeExpr} {name : String} (h : w.modelName t = .ok name) :
    w.written t .name = name.toList := by
  show ((w.modelName t).toOption.getD "").toList = _
  rw [h]
  rfl

/-- What is written for a class or generic name with arguments: the class or name in its way, with
the arguments in theirs between brackets. -/
theorem written_form {a : TypeExpr}
    (ha : (∃ c, a = .builtin c) ∨ (∃ g, a = .generic g) ∨ ∃ i, a = .declared i)
    (hname : style = .name → ∃ i, a = .declared i) {args : List TypeExpr} (hne : args ≠ []) :
    w.written (w.form a args) style = w.front a style ++
      '[' :: (commas (args.map (w.written · (w.inner a style))) ++ [']']) := by
  rcases form_cases w ha with ⟨head, hform⟩ | ⟨i, rfl, hform⟩
  · simp only [front, inner, hform]
    cases style with
    | name =>
      obtain ⟨i, rfl⟩ := hname rfl
      have labels : args.map w.label ≠ [] := by simpa using hne
      rw [written_name (modelName_applied (head_declared hform) hne), toList_inBrackets labels,
        List.map_map]
      rfl
    | label => rw [written_label_applied, cleaned_text_applied head hne]
    | text => exact cleaned_text_applied head hne
    | filled inText =>
      show partOf inText (w.filledName (.applied head args)).toList = _
      rw [filledName_applied, filledName_part]
  · simp only [front, inner, hform]
    cases style with
    | name =>
      have name : w.modelName (.filled i args) = .ok (w.text (.filled i args)) := rfl
      rw [written_name name, text_filled, toList_filledNames]
    | label => exact toList_filledNames _ args
    | text =>
      show cleaned (w.text (.filled i args)).toList = _
      rw [text_filled]
      exact filledName_part true _ args
    | filled inText => exact filledName_part inText _ args

/-! ### Reading types back -/

theorem mem_of_mem_removeWord {word : List Char} {n : Nat} {cs : List Char} {c : Char}
    (h : c ∈ removeWord word n cs) : c ∈ cs := by
  induction n generalizing cs with
  | zero => exact h
  | succ n ih =>
    cases cs with
    | nil => exact h
    | cons d cs =>
      unfold removeWord at h
      split at h
      · exact List.mem_of_mem_drop (ih h)
      · rcases List.mem_cons.1 h with rfl | h
        · exact List.mem_cons_self
        · exact List.mem_cons_of_mem _ (ih h)

theorem noMark_of_all {cs : List Char} (h : (cs.all fun d => !isMark d) = true) :
    ∀ d ∈ cs, isMark d = false := by
  intro d hd
  have hall := List.all_eq_true.1 h d hd
  simpa using hall

theorem builtin_noMark (c : Builtin) :
    (∀ d ∈ c.qualname.toList, isMark d = false) ∧ ∀ d ∈ c.text.toList, isMark d = false := by
  have all : (c.qualname.toList.all fun d => !isMark d) = true ∧
      (c.text.toList.all fun d => !isMark d) = true := by
    cases c <;> decide +kernel
  exact ⟨noMark_of_all all.1, noMark_of_all all.2⟩

theorem generic_noMark (g : GenericName) :
    (∀ d ∈ g.name.toList, isMark d = false) ∧
      ∀ d ∈ ("typing." ++ g.name).toList, isMark d = false := by
  have all : (g.name.toList.all fun d => !isMark d) = true ∧
      (("typing." ++ g.name).toList.all fun d => !isMark d) = true := by
    cases g <;> decide +kernel
  exact ⟨noMark_of_all all.1, noMark_of_all all.2⟩

theorem global_noMark {name : String} (h : ∀ d ∈ name.toList, isMark d = false) :
    ∀ d ∈ (global name).toList, isMark d = false := by
  intro d hd
  have chars : (global name).toList = ['a', 'p', 'p', '.'] ++ name.toList := by
    simp [global, module, String.toList_append]
  rw [chars] at hd
  have front : ∀ d ∈ ['a', 'p', 'p', '.'], isMark d = false := noMark_of_all (by decide)
  rcases List.mem_append.1 hd with hd | hd
  · exact front d hd
  · exact h d hd

theorem partOf_noMark (inText : Bool) {cs : List Char} (h : ∀ c ∈ cs, isMark c = false) :
    ∀ c ∈ partOf inText cs, isMark c = false := by
  cases inText with
  | false => exact h
  | true => exact fun c hc => h c (mem_of_mem_removeWord hc)

/-- A class or generic name by itself is written without brackets and commas. -/
theorem written_noMark (hP : w.Distinguished P) {a : TypeExpr} (ha : P (.alone style) a) :
    ∀ c ∈ w.written a style, isMark c = false := by
  have models : style = .name → ∃ i, a = .declared i := fun h => hP.models a (.inl (h ▸ ha))
  rcases hP.known _ a ha with ⟨c, rfl⟩ | ⟨g, rfl⟩ | ⟨i, rfl⟩
  · obtain ⟨qualname, text⟩ := builtin_noMark c
    cases style with
    | name => cases (models rfl).choose_spec
    | label => exact qualname
    | text => exact partOf_noMark true text
    | filled inText => exact partOf_noMark inText qualname
  · obtain ⟨name, text⟩ := generic_noMark g
    cases style with
    | name => cases (models rfl).choose_spec
    | label =>
      have chars : w.written (.generic g) .label = partOf true ("typing." ++ g.name).toList :=
        String.toList_ofList
      rw [chars]
      exact partOf_noMark true text
    | text => exact partOf_noMark true text
    | filled inText => exact partOf_noMark inText name
  · obtain ⟨name, qualname⟩ := hP.unmarked _ i ha
    cases style with
    | name => exact global_noMark qualname
    | label => exact name
    | text => exact partOf_noMark true (global_noMark qualname)
    | filled inText => exact partOf_noMark inText qualname

/-- So is what stands in front of brackets. -/
theorem front_noMark (hP : w.Distinguished P) {a : TypeExpr} (ha : P (.front style) a) :
    ∀ c ∈ w.front a style, isMark c = false := by
  have applied (head : Head) (hform : ∀ args, w.form a args = .applied head args)
      (text : ∀ c ∈ (w.headText head).toList, isMark c = false)
      (name : ∀ c ∈ (w.headName head).toList, isMark c = false) :
      ∀ c ∈ w.front a style, isMark c = false := by
    simp only [front, hform]
    cases style with
    | name => exact text
    | label => exact partOf_noMark true text
    | text => exact partOf_noMark true text
    | filled inText => exact partOf_noMark inText name
  rcases hP.known _ a ha with ⟨c, rfl⟩ | ⟨g, rfl⟩ | ⟨i, rfl⟩
  · exact applied (.builtin c) (fun _ => rfl) (builtin_noMark c).2 (builtin_noMark c).1
  · exact applied (.generic g) (fun _ => rfl) (generic_noMark g).2 (generic_noMark g).1
  · obtain ⟨name, qualname⟩ := hP.unmarked _ i ha
    rcases form_declared w i with h | h | h
    · exact applied _ h (global_noMark qualname) name
    · simp only [front, h]
      cases style with
      | name => exact global_noMark name
      | label => exact name
      | text => exact partOf_noMark true (global_noMark name)
      | filled inText => exact partOf_noMark inText name
    · exact applied _ h (global_noMark qualname) name

theorem spelling_noMark (hP : w.Distinguished P) {p : Place} {a : TypeExpr} (ha : P p a) :
    ∀ c ∈ w.spelling a p, isMark c = false := by
  cases p with
  | alone style => exact written_noMark hP ha
  | front style => exact front_noMark hP ha

/-- After an argument stands a bracket that closes, a comma or nothing. -/
def AfterArgument (rest : List Char) : Prop := ∀ c ∈ rest.head?, c = ']' ∨ c = ','

theorem afterArgument_nil : AfterArgument [] := nofun

theorem afterArgument_cons {c : Char} {rest : List Char} (h : c = ']' ∨ c = ',') :
    AfterArgument (c :: rest) := by
  intro d hd
  obtain rfl := Option.some.inj hd
  exact h

theorem AfterArgument.mark {rest : List Char} (h : AfterArgument rest) :
    ∀ c ∈ rest.head?, isMark c = true := by
  intro c hc
  rcases h c hc with rfl | rfl <;> rfl

/-- Brackets tell a class with arguments from one without. -/
theorem not_afterArgument_bracket {cs : List Char} : ¬ AfterArgument ('[' :: cs) := by
  intro h
  rcases h '[' rfl with h | h <;> cases h

theorem bracket_mark (cs : List Char) : ∀ c ∈ ('[' :: cs).head?, isMark c = true := by
  intro c hc
  obtain rfl := Option.some.inj hc
  rfl

/-- A type can be read off what is written for it, whatever is built and written there. -/
def ReadsBack (w : World) (P : Place → TypeExpr → Prop) (style : Style) (t : TypeExpr) : Prop :=
  ∀ u, w.BuiltFrom P style u → ∀ rest rest', AfterArgument rest → AfterArgument rest' →
    w.written t style ++ rest = w.written u style ++ rest' → t = u ∧ rest = rest'

theorem commas_inj {ts us : List TypeExpr} (hts : ts ≠ []) (hus : us ≠ [])
    (h : ∀ t ∈ ts, w.ReadsBack P style t) (hu : ∀ u ∈ us, w.BuiltFrom P style u)
    {rest rest' : List Char}
    (he : commas (ts.map (w.written · style)) ++ ']' :: rest =
      commas (us.map (w.written · style)) ++ ']' :: rest') : ts = us ∧ rest = rest' := by
  have close : ∀ cs, AfterArgument (']' :: cs) := fun cs => afterArgument_cons (.inl rfl)
  have comma : ∀ cs, AfterArgument (',' :: cs) := fun cs => afterArgument_cons (.inr rfl)
  induction ts generalizing us with
  | nil => exact absurd rfl hts
  | cons t ts ih =>
    cases us with
    | nil => exact absurd rfl hus
    | cons u us =>
      have read := h t List.mem_cons_self u (hu u List.mem_cons_self)
      cases ts with
      | nil =>
        rw [List.map_singleton, commas_singleton] at he
        cases us with
        | nil =>
          rw [List.map_singleton, commas_singleton] at he
          obtain ⟨rfl, hrest⟩ := read _ _ (close _) (close _) he
          exact ⟨rfl, (List.cons.inj hrest).2⟩
        | cons v us =>
          rw [List.map_cons, List.map_cons, commas_cons_cons, List.append_assoc] at he
          obtain ⟨_, hrest⟩ := read _ _ (close _) (comma _) he
          cases (List.cons.inj hrest).1
      | cons t' ts =>
        rw [List.map_cons, List.map_cons, commas_cons_cons, List.append_assoc] at he
        cases us with
        | nil =>
          rw [List.map_singleton, commas_singleton] at he
          obtain ⟨_, hrest⟩ := read _ _ (comma _) (close _) he
          cases (List.cons.inj hrest).1
        | cons v us =>
          rw [List.map_cons, List.map_cons, commas_cons_cons, List.append_assoc] at he
          obtain ⟨rfl, hrest⟩ := read _ _ (comma _) (comma _) he
          have hrest := (List.cons.inj (List.cons.inj hrest).2).2
          obtain ⟨hargs, hrest⟩ := ih (List.cons_ne_nil _ _) (List.cons_ne_nil _ _)
            (fun t ht => h t (List.mem_cons_of_mem _ ht))
            (fun u hu' => hu u (List.mem_cons_of_mem _ hu')) hrest
          exact ⟨by rw [hargs], hrest⟩

/-- Where two of the same place are written in front of marks or the end, they are one, and the rest
is the same. -/
theorem spelling_inj (hP : w.Distinguished P) {p : Place} {a b : TypeExpr} (ha : P p a)
    (hb : P p b) {rest rest' : List Char} (hr : ∀ c ∈ rest.head?, isMark c = true)
    (hr' : ∀ c ∈ rest'.head?, isMark c = true)
    (h : w.spelling a p ++ rest = w.spelling b p ++ rest') : a = b ∧ rest = rest' := by
  obtain ⟨hsame, hrest⟩ := Text.append_inj_of_mark (spelling_noMark hP ha) (spelling_noMark hP hb)
    hr hr' h
  exact ⟨hP.apart p a b ha hb hsame, hrest⟩

/-- What is written without arguments is not written with some. -/
theorem spelling_ne_form (hP : w.Distinguished P) {a b : TypeExpr} (ha : P (.alone style) a)
    (hb : P (.front style) b) {rest inside : List Char} (hr : AfterArgument rest)
    (h : w.written a style ++ rest = w.front b style ++ '[' :: inside) : False := by
  have hrest := (Text.append_inj_of_mark (spelling_noMark hP ha) (spelling_noMark hP hb) hr.mark
    (bracket_mark _) h).2
  rw [hrest] at hr
  exact not_afterArgument_bracket hr

/-- A class or generic name in brackets is its form with the arguments, and written like that. -/
theorem BuiltFrom.subscript_written (hP : w.Distinguished P) {a u : TypeExpr}
    {args : List TypeExpr} (h : P (.front style) a) (hne : args ≠ [])
    (hargs : ∀ b ∈ args, w.BuiltFrom P (w.inner a style) b) (hu : w.subscript a args = some u) :
    u = w.form a args ∧ ∀ rest, w.written u style ++ rest = w.front a style ++
      '[' :: (commas (args.map (w.written · (w.inner a style))) ++ ']' :: rest) := by
  have hform := BuiltFrom.subscript_eq hP h hne hargs hu
  have chars := written_form (w := w) (hP.known _ a h) (fun hs => hP.models a (.inr (hs ▸ h))) hne
  refine ⟨hform, fun rest => ?_⟩
  rw [hform, chars, List.append_assoc, List.cons_append, List.append_assoc]
  rfl

theorem BuiltFrom.readsBack (hP : w.Distinguished P) {t : TypeExpr} (h : w.BuiltFrom P style t) :
    w.ReadsBack P style t := by
  induction h with
  | base ha =>
    intro u hu rest rest' hr hr' he
    cases hu with
    | base hb => exact spelling_inj hP ha hb hr.mark hr'.mark he
    | subscript hb hne hargs hs =>
      rw [(BuiltFrom.subscript_written hP hb hne hargs hs).2] at he
      exact (spelling_ne_form hP ha hb hr he).elim
  | subscript ha hne hargs hs ih =>
    intro u hu rest rest' hr hr' he
    obtain ⟨hform, chars⟩ := BuiltFrom.subscript_written hP ha hne hargs hs
    rw [chars] at he
    cases hu with
    | base hb => exact (spelling_ne_form hP hb ha hr' he.symm).elim
    | subscript hb hne' hargs' hs' =>
      obtain ⟨hform', chars'⟩ := BuiltFrom.subscript_written hP hb hne' hargs' hs'
      rw [chars'] at he
      -- What stands in front of the brackets decides how the arguments are written.
      obtain ⟨rfl, hinside⟩ := spelling_inj hP ha hb (bracket_mark _) (bracket_mark _) he
      obtain ⟨rfl, hrest⟩ := commas_inj hne hne' ih hargs' (List.cons.inj hinside).2
      exact ⟨hform.trans hform'.symm, hrest⟩

/-! ### Names -/

theorem cleaned_of_noDot {cs : List Char} (h : ∀ c ∈ cs, c ≠ '.') : cleaned cs = cs := by
  induction cs with
  | nil => rfl
  | cons c cs ih =>
    have hprefix : ¬ "typing.".toList <+: c :: cs := by
      intro hp
      exact h '.' (hp.subset (by decide)) rfl
    unfold cleaned at ih ⊢
    rw [without_cons hprefix, ih fun d hd => h d (List.mem_cons_of_mem _ hd)]

/-- What is built as a model has a name. -/
theorem BuiltFrom.exists_modelName (hP : w.Distinguished P) {t : TypeExpr}
    (h : w.BuiltFrom P .name t) : ∃ name, w.modelName t = .ok name := by
  cases h with
  | base h =>
    obtain ⟨i, rfl⟩ := hP.models t (.inl h)
    exact ⟨_, rfl⟩
  | subscript h hne hargs hu =>
    obtain ⟨i, rfl⟩ := hP.models _ (.inr h)
    rw [BuiltFrom.subscript_eq hP h hne hargs hu]
    rcases form_cases w (hP.known _ _ h) with ⟨head, hform⟩ | ⟨_, _, hform⟩
    · rw [hform]
      exact ⟨_, modelName_applied (head_declared hform) hne⟩
    · rw [hform]
      exact ⟨_, rfl⟩

/-- Model names identify types: a declared class or one with arguments, nested to any depth, has a
name, and no other one has it, where no two of the classes and generic names that stand at the same
place of a name are written in the same way. -/
theorem modelName_inj (hP : w.Distinguished P) {s t : TypeExpr} (hs : w.BuiltFrom P .name s)
    (ht : w.BuiltFrom P .name t) :
    ∃ name, w.modelName s = .ok name ∧ (w.modelName t = .ok name → s = t) := by
  obtain ⟨name, hname⟩ := hs.exists_modelName hP
  refine ⟨name, hname, fun h => ?_⟩
  refine (hs.readsBack hP t ht [] [] afterArgument_nil afterArgument_nil ?_).1
  rw [written_name hname, written_name h]

end

/-- A generic class with items, and classes inside of others: two of one simple name, one whose text
is that of another one without `typing.`, and two model classes with a content and two pairs, each
of one simple name. -/
def pages : World where
  decls := [
    .typeVar "T",
    .cls { name := "A", qualname := "A", above := [.builtin .object] },
    .cls { name := "B", qualname := "B", above := [.builtin .object] },
    .cls { name := "Item", qualname := "A.Item", kind := .dataclass, above := [.builtin .object] },
    .cls { name := "Item", qualname := "B.Item", kind := .dataclass, above := [.builtin .object] },
    .cls {
      name := "Page"
      qualname := "Page"
      kind := .dataclass
      above := [.builtin .object]
      typeVars := [0]
      fields := [{ name := "items", type := .applied (.builtin .list) [.typeVar 0] }] },
    .cls { name := "mytyping", qualname := "mytyping", above := [.builtin .object] },
    .cls { name := "Foo", qualname := "mytyping.Foo", kind := .dataclass,
           above := [.builtin .object] },
    .cls { name := "myFoo", qualname := "myFoo", kind := .dataclass, above := [.builtin .object] },
    .cls { name := "Items", qualname := "Items", above := [.builtin .list, .builtin .object] },
    .cls { name := "Box", qualname := "A.Box", kind := .model, above := [.builtin .object],
           typeVars := [0] },
    .cls { name := "Box", qualname := "B.Box", kind := .model, above := [.builtin .object],
           typeVars := [0] },
    .cls { name := "Pair", qualname := "A.Pair", kind := .dataclass, above := [.builtin .object],
           typeVars := [0] },
    .cls { name := "Pair", qualname := "B.Pair", kind := .dataclass, above := [.builtin .object],
           typeVars := [0] }]

/-- A page of something. -/
def page (t : TypeExpr) : TypeExpr := .applied (.declared 5) [t]

/-- Items and pairs of the same simple names as models, and pages of pairs of `myFoo` or of lists of
it. -/
def pageParts : Place → List TypeExpr
  | .alone .name => [.declared 3, .declared 4]
  | .front .name => [.declared 5, .declared 12, .declared 13]
  | .alone .label => [.builtin .int, .declared 8]
  | .front .label => [.declared 5, .builtin .list]
  | .alone .text => [.declared 8]
  | _ => []

def OnPages (p : Place) (a : TypeExpr) : Prop := a ∈ pageParts p

theorem pages_distinguished : pages.Distinguished OnPages where
  known := by
    rintro ((_ | _ | _ | _) | (_ | _ | _ | _)) a ha
    all_goals simp only [OnPages, pageParts, List.mem_cons, List.not_mem_nil, or_false] at ha
    · exact ha.elim (fun h => .inr (.inr ⟨_, h⟩)) fun h => .inr (.inr ⟨_, h⟩)
    · exact ha.elim (fun h => .inl ⟨_, h⟩) fun h => .inr (.inr ⟨_, h⟩)
    · exact .inr (.inr ⟨_, ha⟩)
    · exact ha.elim (fun h => .inr (.inr ⟨_, h⟩)) fun h =>
        h.elim (fun h => .inr (.inr ⟨_, h⟩)) fun h => .inr (.inr ⟨_, h⟩)
    · exact ha.elim (fun h => .inr (.inr ⟨_, h⟩)) fun h => .inl ⟨_, h⟩
  models := by
    intro a ha
    simp only [OnPages, pageParts, List.mem_cons, List.not_mem_nil, or_false] at ha
    rcases ha with (h | h) | h | h | h <;> exact ⟨_, h⟩
  unmarked := by
    have named : ∀ i ∈ [3, 4, 5, 8, 12, 13],
        ((pages.declaredName i).toList.all fun d => !isMark d) = true ∧
          ((pages.declaredQualname i).toList.all fun d => !isMark d) = true := by
      decide +kernel
    intro p i ha
    have hi : i ∈ [3, 4, 5, 8, 12, 13] := by
      rcases p with (_ | _ | _ | _) | (_ | _ | _ | _)
      all_goals simp [OnPages, pageParts] at ha ⊢
      all_goals omega
    exact ⟨noMark_of_all (named i hi).1, noMark_of_all (named i hi).2⟩
  apart := by
    have nodup : ∀ p, ((pageParts p).map (pages.spelling · p)).Nodup := by
      rintro ((_ | _ | _ | _) | (_ | _ | _ | _))
      case alone.filled | front.filled => exact List.nodup_nil
      all_goals decide +kernel
    exact fun p a b ha hb h => List.inj_on_of_nodup_map (nodup p) ha hb h

/-- Two items of one simple name have different names, and so do pairs of one simple name with the
same argument, and a page of pages and a page of lists. -/
theorem modelName_inj_pages :
    (∃ name, pages.modelName (.declared 3) = .ok name ∧
      pages.modelName (.declared 4) ≠ .ok name) ∧
    (∃ name, pages.modelName (.applied (.declared 12) [.builtin .int]) = .ok name ∧
      pages.modelName (.applied (.declared 13) [.builtin .int]) ≠ .ok name) ∧
    ∃ name, pages.modelName (page (page (.declared 8))) = .ok name ∧
      pages.modelName (page (.applied (.builtin .list) [.declared 8])) ≠ .ok name := by
  have apart {s t : TypeExpr} (hs : pages.BuiltFrom OnPages .name s)
      (ht : pages.BuiltFrom OnPages .name t) (hne : s ≠ t) :
      ∃ name, pages.modelName s = .ok name ∧ pages.modelName t ≠ .ok name := by
    obtain ⟨name, hname, heq⟩ := modelName_inj pages_distinguished hs ht
    exact ⟨name, hname, fun h => hne (heq h)⟩
  have part {p : Place} {a : TypeExpr} (n : Nat) (h : (pageParts p)[n]? = some a) :
      OnPages p a := List.mem_of_getElem? h
  have inBrackets {style : Style} {a t u : TypeExpr} (ha : OnPages (.front style) a)
      (ht : pages.BuiltFrom OnPages (pages.inner a style) t)
      (hu : pages.subscript a [t] = some u) : pages.BuiltFrom OnPages style u := by
    refine .subscript ha (List.cons_ne_nil _ _) (fun b hb => ?_) hu
    rw [List.mem_singleton.1 hb]
    exact ht
  have number : pages.BuiltFrom OnPages .label (.builtin .int) := .base (part 0 rfl)
  have foo : pages.BuiltFrom OnPages .text (.declared 8) := .base (part 0 rfl)
  have page : pages.BuiltFrom OnPages .label (page (.declared 8)) :=
    inBrackets (part 0 rfl) foo rfl
  have list : pages.BuiltFrom OnPages .label (.applied (.builtin .list) [.declared 8]) :=
    inBrackets (part 1 rfl) foo rfl
  refine ⟨apart (.base (part 0 rfl)) (.base (part 1 rfl)) nofun, apart ?_ ?_ nofun,
    apart ?_ ?_ nofun⟩
  · exact inBrackets (part 1 rfl) number rfl
  · exact inBrackets (part 2 rfl) number rfl
  · exact inBrackets (part 0 rfl) page rfl
  · exact inBrackets (part 0 rfl) list rfl

/-- Two classes with arguments that are different types of one name. -/
def NameShared (w : World) (a : TypeExpr) (args : List TypeExpr) (b : TypeExpr)
    (args' : List TypeExpr) (name : String) : Prop :=
  ∃ s t, w.subscript a args = some s ∧ w.subscript b args' = some t ∧ s ≠ t ∧
    (w.modelName s).toOption = some name ∧ (w.modelName t).toOption = some name

/-- Different types of one name, although the qualified names of all classes are different: pages of
two classes of one simple name, of a known class and a generic name that are called the same, and of
pages of two classes whose texts differ in `typing.` only; boxes, which are filled in, of one simple
name and boxes of pairs of one simple name; and a class without and with an empty list of
arguments. -/
theorem pages_collide :
    ((List.range 14).map pages.declaredQualname).Nodup ∧
    pages.NameShared (.declared 5) [.declared 3] (.declared 5) [.declared 4] "app.Page[Item]" ∧
    pages.NameShared (.declared 5) [.builtin .mapping] (.declared 5) [.generic .mapping]
      "app.Page[Mapping]" ∧
    pages.NameShared (.declared 5) [page (.declared 7)] (.declared 5) [page (.declared 8)]
      "app.Page[app.Page[app.myFoo]]" ∧
    pages.NameShared (.declared 10) [.builtin .int] (.declared 11) [.builtin .int]
      "app.Box[int]" ∧
    pages.NameShared (.declared 10) [.applied (.declared 12) [.builtin .int]]
      (.declared 10) [.applied (.declared 13) [.builtin .int]] "app.Box[Pair[int]]" ∧
    (pages.subscript (.declared 9) [] = some (.applied (.container 9) []) ∧
      (pages.modelName (.declared 9)).toOption = some "app.Items" ∧
      (pages.modelName (.applied (.container 9) [])).toOption = some "app.Items") := by
  refine ⟨by decide +kernel, ⟨_, _, rfl, rfl, nofun, ?_⟩, ⟨_, _, rfl, rfl, nofun, ?_⟩,
    ⟨_, _, rfl, rfl, nofun, ?_⟩, ⟨_, _, rfl, rfl, nofun, ?_⟩, ⟨_, _, rfl, rfl, nofun, ?_⟩,
    rfl, ?_⟩
  all_goals decide +kernel

end World

end ApiCompiler
