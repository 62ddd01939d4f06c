import Mathlib.Tactic.Choose
import ApiCompiler.Proofs.Layers

/-!
# Classes as they were declared

A class stays as its declaration made it: what it takes over from the classes above is worked out
from the declarations before it, and later ones only add classes inside of it. What a world says of
a class can therefore be told from what is written in its declaration.
-/

set_option autoImplicit false

namespace ApiCompiler

/-- Classes of the kind have no declared classes above them. -/
def ClassKind.standsAlone : ClassKind → Bool
  | .typedDict _ | .namedTuple | .enumeration _ => true
  | .plain | .dataclass | .model => false

/-- Above a class that stands alone is the known one of its kind, if there is one, and the topmost
one. -/
theorem ClassSpec.above_alone (spec : ClassSpec) {w : World}
    (alone : spec.kind.standsAlone = true) :
    spec.above w = ((standardBase? spec.kind).toList ++ [Builtin.object]).map .builtin := by
  unfold above
  cases hk : spec.kind with
  | plain | dataclass | model =>
    rw [hk] at alone
    cases alone
  | typedDict | namedTuple => rfl
  | enumeration base => cases base <;> rfl

namespace World

/-- The class is as a specification makes it among the declarations before it, apart from the
classes inside of it. -/
def DeclaredAs (w earlier : World) (spec : ClassSpec) (i : Nat) : Prop :=
  ∃ nested, w.class? i = some { spec.declare earlier with nested }

/-- A specification is read from one of some declarations. -/
def ReadFrom (earlier : World) (S : Value → Prop) (spec : ClassSpec) : Prop :=
  ∃ v kind, S v ∧ classKindOf v = some kind ∧ earlier.readClass kind v = .ok spec

/-- Every class is as a specification makes it that a relation allows among the declarations before
it. -/
def EachDeclared (R : World → ClassSpec → Prop) (w : World) : Prop :=
  ∀ i c, w.class? i = some c → ∃ earlier spec, R earlier spec ∧ w.DeclaredAs earlier spec i

/-- Every class is declared as one of some declarations says. -/
def Specified (S : Value → Prop) (w : World) : Prop :=
  ∀ i c, w.class? i = some c → ∃ earlier spec, earlier.ReadFrom S spec ∧ w.DeclaredAs earlier spec i

/-- Every class is declared among declarations before it that have been made in the same way. -/
inductive Grown : World → Prop where
  | intro {w : World} (earlier : Nat → World) (spec : Nat → ClassSpec)
      (grown : ∀ i c, w.class? i = some c → Grown (earlier i))
      (declared : ∀ i c, w.class? i = some c → w.DeclaredAs (earlier i) (spec i) i) : Grown w

variable {S : Value → Prop} {R : World → ClassSpec → Prop} {w w' : World}

/-- Putting a declaration behind the others adds at most one class. -/
theorem class?_append {d : TypeDecl} {names : Table TypeExpr} {i : Nat} {c : ClassDecl} :
    World.class? { decls := w.decls ++ [d], names } i = some c ↔
      w.class? i = some c ∨ i = w.decls.length ∧ d = .cls c := by
  rw [class?_iff, class?_iff, List.getElem?_append]
  split
  · rename_i hi
    exact ⟨.inl, fun h => h.resolve_right fun h => absurd h.1 (Nat.ne_of_lt hi)⟩
  · rename_i hi
    have absent : w.decls[i]? ≠ some (.cls c) := by
      intro h
      obtain ⟨hlt, _⟩ := List.getElem?_eq_some_iff.1 h
      exact hi hlt
    rw [or_iff_right absent, List.getElem?_eq_some_iff]
    constructor
    · rintro ⟨hlt, h⟩
      have hlength : i - w.decls.length < 1 := hlt
      exact ⟨by omega, (List.getElem_singleton hlt).symm.trans h⟩
    · rintro ⟨rfl, rfl⟩
      exact ⟨by simp, by simp⟩

/-- A class that is given another one inside of it keeps everything else. -/
theorem class?_nestIn {outer name : String} {i j : Nat} {c : ClassDecl}
    (h : (nestIn outer name j w).class? i = some c) :
    ∃ c', w.class? i = some c' ∧ c = { c' with nested := c.nested } := by
  unfold nestIn at h
  split at h
  · rw [class?_iff, List.getElem?_modify] at h
    obtain ⟨d, hd, h⟩ := Option.map_eq_some_iff.1 h
    split at h
    · cases d with
      | typeVar | newType => cases h
      | cls c' =>
        cases h
        exact ⟨c', class?_iff.2 hd, rfl⟩
    · exact ⟨c, class?_iff.2 (h ▸ hd), rfl⟩
  · exact ⟨c, h, rfl⟩

namespace EachDeclared

theorem extend (hw : w.EachDeclared R) {d : TypeDecl} {names : Table TypeExpr}
    (hd : ∀ c, d = .cls c → ∃ (earlier : World) (spec : ClassSpec), R earlier spec ∧
      c = spec.declare earlier) :
    EachDeclared R { decls := w.decls ++ [d], names } := by
  intro i c h
  rcases class?_append.1 h with h' | ⟨rfl, rfl⟩
  · obtain ⟨earlier, spec, hspec, nested, hc⟩ := hw i c h'
    obtain rfl := Option.some.inj (h'.symm.trans hc)
    exact ⟨earlier, spec, hspec, nested, h⟩
  · obtain ⟨earlier, spec, hspec, rfl⟩ := hd c rfl
    exact ⟨earlier, spec, hspec, _, h⟩

theorem nestIn (hw : w.EachDeclared R) (outer name : String) (j : Nat) :
    (World.nestIn outer name j w).EachDeclared R := by
  intro i c h
  obtain ⟨c', hc', hc⟩ := class?_nestIn h
  obtain ⟨earlier, spec, hspec, nested, hdeclared⟩ := hw i c' hc'
  obtain rfl := Option.some.inj (hc'.symm.trans hdeclared)
  exact ⟨earlier, spec, hspec, c.nested, h.trans (congrArg some hc)⟩

theorem addClass (hw : w.EachDeclared R) {spec : ClassSpec} (hspec : R w spec) :
    (w.addClass spec).EachDeclared R := by
  have added : EachDeclared R { decls := w.decls ++ [.cls (spec.declare w)]
                                names := w.names.insert spec.id (.declared w.decls.length) } :=
    hw.extend fun c hc => ⟨w, spec, hspec, (TypeDecl.cls.inj hc).symm⟩
  unfold World.addClass
  dsimp only
  split
  · exact added.nestIn _ _ _
  · exact added

/-- What is allowed of each class that is read holds of every class, as long as the classes before
it are of this kind. -/
theorem ofDeclarations {decls : List Value} (h : World.ofDeclarations decls = .ok w)
    (read : ∀ (w : World) (spec : ClassSpec), w.EachDeclared R → w.ReadFrom (· ∈ decls) spec →
      R w spec) : w.EachDeclared R := by
  refine ofDeclarations_induction h (fun _ _ h => by cases h) ?typeVar ?newType ?name ?cls
  case typeVar => exact fun w id name hw => hw.extend fun _ h => TypeDecl.noConfusion h
  case newType => exact fun w id name hw => hw.extend fun _ h => TypeDecl.noConfusion h
  case name => exact fun w id v t hw _ => hw
  case cls =>
    exact fun w v hv kind spec hw hkind hspec =>
      hw.addClass (read w spec hw ⟨v, kind, hv, hkind, hspec⟩)

end EachDeclared

/-- Every class stands as one of the declarations says. -/
theorem Specified.ofDeclarations {decls : List Value} (h : World.ofDeclarations decls = .ok w) :
    w.Specified (· ∈ decls) :=
  EachDeclared.ofDeclarations h fun _ _ _ read => read

namespace Grown

theorem of_eachDeclared (h : w.EachDeclared fun earlier _ => earlier.Grown) : w.Grown := by
  have pick (i : Nat) : ∃ (earlier : World) (spec : ClassSpec), ∀ c, w.class? i = some c →
      earlier.Grown ∧ w.DeclaredAs earlier spec i := by
    cases hc : w.class? i with
    | none => exact ⟨{}, { id := "", name := "" }, nofun⟩
    | some c =>
      obtain ⟨earlier, spec, grown, declared⟩ := h i c hc
      exact ⟨earlier, spec, fun _ _ => ⟨grown, declared⟩⟩
  choose earlier spec both using pick
  exact ⟨earlier, spec, fun i c hc => (both i c hc).1, fun i c hc => (both i c hc).2⟩

theorem eachDeclared (h : w.Grown) : w.EachDeclared fun earlier _ => earlier.Grown := by
  obtain ⟨earlier, spec, grown, declared⟩ := h
  exact fun i c hc => ⟨earlier i, spec i, grown i c hc, declared i c hc⟩

/-- Declarations are made one after the other. -/
theorem ofDeclarations {decls : List Value} (h : World.ofDeclarations decls = .ok w) : w.Grown :=
  of_eachDeclared (EachDeclared.ofDeclarations h fun _ _ hw _ => of_eachDeclared hw)

end Grown

/-! ### The line of a class -/

section Line

variable {earlier : World} {spec : ClassSpec} {i : Nat}

theorem lineage_cons {c : ClassDecl} (hc : w.class? i = some c) :
    w.lineage (.declared i) = .declared i :: c.above := by
  show .declared i :: ((w.class? i).map ClassDecl.above).getD [] = _
  rw [hc]
  rfl

/-- A declared class comes first in its line. -/
theorem declaredLineage_cons {c : ClassDecl} (hc : w.class? i = some c) :
    w.declaredLineage (.declared i) = c :: c.above.filterMap fun
      | .declared i => w.class? i
      | _ => none := by
  unfold declaredLineage
  rw [lineage_cons hc]
  exact List.filterMap_cons_some hc

namespace DeclaredAs

variable (h : w.DeclaredAs earlier spec i) (alone : spec.kind.standsAlone = true)

include h alone

theorem lineage_alone : w.lineage (.declared i) = .declared i ::
    ((ClassSpec.standardBase? spec.kind).toList ++ [Builtin.object]).map .builtin := by
  obtain ⟨nested, hc⟩ := h
  rw [lineage_cons hc]
  exact congrArg _ (spec.above_alone alone)

theorem declaredLineage_alone : ∃ nested, w.class? i = some { spec.declare earlier with nested } ∧
    w.declaredLineage (.declared i) = [{ spec.declare earlier with nested }] := by
  obtain ⟨nested, hc⟩ := h
  refine ⟨nested, hc, ?_⟩
  have above : ({ spec.declare earlier with nested } : ClassDecl).above =
      ((ClassSpec.standardBase? spec.kind).toList ++ [Builtin.object]).map .builtin :=
    spec.above_alone alone
  rw [declaredLineage_cons hc, above, List.filterMap_map]
  exact congrArg _ (List.filterMap_eq_nil_iff.2 fun _ _ => rfl)

end DeclaredAs

end Line

end World

end ApiCompiler
