import ApiCompiler.Proofs.Contributions

/-!
# Building again

A state is coherent when its registry has an owner for each model and each definition is what its
name means. Between coherent states a step only adds definitions. `Run.Repeats` compares two runs of
one step: a second run, from a coherent state that has what the first one came to, gives the same
result and adds nothing; and where registries are faithful, a second run from any coherent state
gives the same result too and adds what the first one came to at most, unless resolution nests too
deep. Each step of building an operation repeats.
-/

set_option autoImplicit false

namespace ApiCompiler

section Definitions

variable (w : World) (o : Overrides) (S : Method → Prop)

/-- Nothing is being built, each model has an owner, and each definition is what its name means. -/
structure Progress.Coherent (p : Progress) : Prop where
  owned : p.registry.Owned w o (w.MetBy o S)
  faithful : w.NamesApart o (w.MetBy o S) → p.registry.Faithful w o (w.MetBy o S)
  sound : p.registry.Sound
  idle : p.registry.resolving = []
  distinct : p.document.definitions.Distinct
  means : ∀ ⦃name s⦄, p.document.definitions.get? name = some s → p.registry.Means w o S name s

/-- Models and definitions stay what and where they are. -/
structure Progress.Advances (p q : Progress) : Prop where
  registry : p.registry.Retains q.registry
  definitions : p.document.definitions <+: q.document.definitions

/-- All models and definitions of the one state are in the other one. -/
structure Progress.Within (p q : Progress) : Prop where
  models : p.registry.models.Within q.registry.models
  definitions : p.document.definitions.Within q.document.definitions

/-- A state from which a step is run that has led to a state before. -/
def Progress.Comparable (p q : Progress) : Prop := p.Within q ∨ w.NamesApart o (w.MetBy o S)

/-- From a state to one that has advanced by no more definitions than those of a third one. -/
structure Progress.Attains (p q q' : Progress) : Prop where
  coherent : q'.Coherent w o S
  advances : q.Advances q'
  within : ∀ ⦃definitions : Table Schema⦄, q.document.definitions.Within definitions →
    p.document.definitions.Within definitions → q'.document.definitions.Within definitions

/-- A step that has led to a state before is run again: it advances by no more than it did then, or
nests too deep, for want of models or definitions that it came to then. -/
def Run.Again {α : Type} (p : Progress) (x : Run α) (q : Progress) (good : α → Progress → Prop) :
    Prop :=
  (∃ a q', x q = .ok a q' ∧ p.Attains w o S q q' ∧ good a q') ∨
    ¬ p.Within q ∧ ∃ q', x q = .error .endless q'

/-- A step that is run from a coherent state with a property leads to a coherent state, and when it
is run again it comes to the same result. -/
def Run.Repeats {α : Type} (pre : Progress → Prop) (x : Run α) (post : α → Progress → Prop) :
    Prop :=
  ∀ ⦃p p' : Progress⦄ ⦃a : α⦄, p.Coherent w o S → pre p → x p = .ok a p' →
    (p'.Coherent w o S ∧ p.Advances p' ∧ post a p') ∧
    ∀ ⦃q : Progress⦄, q.Coherent w o S → pre q → p'.Comparable w o S q →
      Again w o S p' x q fun b q' => b = a ∧ post a q'

end Definitions

variable {w : World} {o : Overrides} {S : Method → Prop}

namespace Progress

variable {p q r p' q' : Progress}

namespace Advances

theorem refl (p : Progress) : p.Advances p := ⟨.refl _, List.prefix_rfl⟩

theorem trans (h : p.Advances q) (h' : q.Advances r) : p.Advances r :=
  ⟨h.registry.trans h'.registry, h.definitions.trans h'.definitions⟩

theorem within (h : p.Advances q) : p.Within q :=
  ⟨h.registry.models, Table.within_of_prefix h.definitions⟩

theorem of_eq (hr : q.registry = p.registry)
    (hd : q.document.definitions = p.document.definitions) : p.Advances q := by
  refine ⟨?_, ?_⟩
  · rw [hr]
    exact .refl _
  · rw [hd]

end Advances

theorem Within.refl (p : Progress) : p.Within p := ⟨.refl _, .refl _⟩

theorem Within.trans (h : p.Within q) (h' : q.Within r) : p.Within r :=
  ⟨h.models.trans h'.models, h.definitions.trans h'.definitions⟩

theorem Comparable.of_advances (h : p.Advances p') (hq : p'.Comparable w o S q) :
    p.Comparable w o S q :=
  hq.imp_left h.within.trans

theorem Comparable.advances (h : p.Comparable w o S q) (hq : q.Advances q') :
    p.Comparable w o S q' :=
  h.imp_left fun h => h.trans hq.within

theorem Coherent.of_eq (h : p.Coherent w o S) (hr : q.registry = p.registry)
    (hd : q.document.definitions = p.document.definitions) : q.Coherent w o S where
  owned := hr ▸ h.owned
  faithful := hr ▸ h.faithful
  sound := hr ▸ h.sound
  idle := hr ▸ h.idle
  distinct := hd ▸ h.distinct
  means := by rw [hr, hd]; exact h.means

theorem Attains.of_eq (hq : q.Coherent w o S) (hr : q'.registry = q.registry)
    (hd : q'.document.definitions = q.document.definitions) : p.Attains w o S q q' where
  coherent := hq.of_eq hr hd
  advances := .of_eq hr hd
  within definitions h _ := by rw [hd]; exact h

/-- Models of one name are one model in comparable states. -/
theorem Comparable.model_unique (h : p.Comparable w o S q) (hp : p.Coherent w o S)
    (hq : q.Coherent w o S) {name : String} {model model' : Schema}
    (hm : p.registry.models.get? name = some model)
    (hm' : q.registry.models.get? name = some model') : model = model' := by
  rcases h with h | apart
  · exact Option.some.inj ((h.models hm).symm.trans hm')
  · exact (hp.faithful apart).model_unique apart (hq.faithful apart) hm hm'

end Progress

namespace Registry

variable {models models' : Table Schema}

/-- References lead to the same models in tables that have what they lead to and agree on it. -/
theorem reachable_congr {pending : List String} {out : Table Schema}
    (agree : ∀ ⦃n m m'⦄, models.get? n = some m → models'.get? n = some m' → m = m')
    (closed : ∀ ⦃n m⦄, models.get? n = some m → models'.get? n = some m → ∀ k ∈ m.references,
      models.has k ∧ models'.has k)
    (h : ∀ n ∈ pending, models.has n ∧ models'.has n) :
    reachable models pending out = reachable models' pending out := by
  fun_induction reachable models pending out with
  | case1 out => rw [reachable]
  | case2 name pending out seen ih =>
    rw [reachable, dif_pos seen]
    exact ih fun n hn => h n (List.mem_cons_of_mem _ hn)
  | case3 name pending out new absent ih =>
    have found := (h name List.mem_cons_self).1
    rw [Table.has, absent] at found
    cases found
  | case4 name pending out new m found ih =>
    obtain ⟨m', found'⟩ := Option.isSome_iff_exists.1 (h name List.mem_cons_self).2
    obtain rfl := agree found found'
    conv_rhs => rw [reachable, dif_neg new]
    split
    · rename_i absent
      cases absent.symm.trans found'
    · rename_i m' hm'
      obtain rfl := Option.some.inj (hm'.symm.trans found')
      refine ih fun n hn => ?_
      rcases List.mem_append.1 hn with hn | hn
      · exact h n (List.mem_cons_of_mem _ hn)
      · exact closed found found' n hn

/-- Complete registries that agree have the same models for a schema that both cover. -/
theorem modelsFor_eq {r r' : Registry} {s : Schema} (hr : r.Sound) (hr' : r'.Sound)
    (hdone : r.resolving = []) (hdone' : r'.resolving = [])
    (agree : ∀ ⦃n m m'⦄, r.models.get? n = some m → r'.models.get? n = some m' → m = m')
    (hs : r.Covers s) (hs' : r'.Covers s) : r.modelsFor s = r'.modelsFor s := by
  have present {r : Registry} (hdone : r.resolving = []) {n : String} (hn : r.Known n) :
      r.models.has n := hn.resolve_right fun hn => by rw [hdone] at hn; cases hn
  refine reachable_congr agree (fun n m hm hm' k hk => ?_) fun n hn => ?_
  · exact ⟨present hdone (hr.references _ (Table.mem_of_get? hm) k hk),
      present hdone' (hr'.references _ (Table.mem_of_get? hm') k hk)⟩
  · exact ⟨present hdone (hs.known n hn), present hdone' (hs'.known n hn)⟩

end Registry

namespace Run

open Progress (Coherent Advances Comparable Attains)

variable {α β : Type} {pre : Progress → Prop} {post : α → Progress → Prop}

/-- A property that holds on when a state advances. -/
def Stable (pre : Progress → Prop) : Prop := ∀ ⦃p q : Progress⦄, p.Advances q → pre p → pre q

theorem stable_covers {s : Schema} : Stable fun p => p.registry.Covers s :=
  fun _ _ h hs => hs.mono h.registry.grows

theorem Again.bind {p p₁ q : Progress} {x : Run α} {f : α → Run β} {good : α → Progress → Prop}
    {good' : β → Progress → Prop} (hp : p₁.Advances p) (hx : Again w o S p₁ x q good)
    (hf : ∀ a q₁, q₁.Coherent w o S → q.Advances q₁ → good a q₁ → Again w o S p (f a) q₁ good') :
    Again w o S p (x >>= f) q good' := by
  rcases hx with ⟨a, q₁, hx, attains, hgood⟩ | ⟨hnot, q', hx⟩
  · rcases hf a q₁ attains.coherent attains.advances hgood with
      ⟨b, q₂, hb, attains', hgood'⟩ | ⟨hnot, q', hb⟩
    · refine .inl ⟨b, q₂, bind_ok.2 ⟨a, q₁, hx, hb⟩, ⟨attains'.coherent,
        attains.advances.trans attains'.advances, fun definitions hq hd => ?_⟩, hgood'⟩
      exact attains'.within (attains.within hq (hp.within.definitions.trans hd)) hd
    · refine .inr ⟨fun h => hnot (h.trans attains.advances.within), q', ?_⟩
      rw [bind_of_ok hx, hb]
  · exact .inr ⟨fun h => hnot (hp.within.trans h), q', bind_of_error hx⟩

namespace Repeats

/-- A step after another one. -/
theorem bind {x : Run α} {f : α → Run β} {mid : α → Progress → Prop}
    {post : β → Progress → Prop} (hx : Repeats w o S pre x mid)
    (hf : ∀ a, Repeats w o S (mid a) (f a) post) : Repeats w o S pre (x >>= f) post := by
  intro p p' b hp hpre h
  obtain ⟨a, p₁, ha, h⟩ := bind_ok.1 h
  obtain ⟨⟨hp₁, hadv, hmid⟩, again⟩ := hx hp hpre ha
  obtain ⟨⟨hp', hadv', hpost⟩, again'⟩ := hf a hp₁ hmid h
  refine ⟨⟨hp', hadv.trans hadv', hpost⟩, fun q hq hpreq hc => ?_⟩
  refine (again hq hpreq (hc.of_advances hadv')).bind hadv' fun a' q₁ hq₁ hadvq hgood => ?_
  obtain ⟨rfl, hmidq⟩ := hgood
  exact again' hq₁ hmidq (hc.advances hadvq)

theorem imp {x : Run α} {pre' : Progress → Prop} {post' : α → Progress → Prop}
    (hx : Repeats w o S pre x post) (hpre : ∀ p, pre' p → pre p)
    (hpost : ∀ a p, post a p → post' a p) : Repeats w o S pre' x post' := by
  intro p p' a hp hp' h
  obtain ⟨⟨hc, hadv, hpost'⟩, again⟩ := hx hp (hpre p hp') h
  refine ⟨⟨hc, hadv, hpost a p' hpost'⟩, fun q hq hpreq hcomparable => ?_⟩
  rcases again hq (hpre q hpreq) hcomparable with ⟨b, q', hb, attains, rfl, hq'⟩ | endless
  · exact .inl ⟨b, q', hb, attains, rfl, hpost b q' hq'⟩
  · exact .inr endless

/-- A property that holds on is kept. -/
theorem frame {x : Run α} {kept : Progress → Prop} (hx : Repeats w o S pre x post)
    (hk : Stable kept) :
    Repeats w o S (fun p => pre p ∧ kept p) x fun a p => post a p ∧ kept p := by
  intro p p' a hp hpre h
  obtain ⟨⟨hc, hadv, hpost⟩, again⟩ := hx hp hpre.1 h
  refine ⟨⟨hc, hadv, hpost, hk hadv hpre.2⟩, fun q hq hpreq hcomparable => ?_⟩
  rcases again hq hpreq.1 hcomparable with ⟨b, q', hb, attains, rfl, hq'⟩ | endless
  · exact .inl ⟨b, q', hb, attains, rfl, hq', hk attains.advances hpreq.2⟩
  · exact .inr endless

/-- What is known whatever the state may be used for the step. -/
theorem of_fact {P : Prop} {x : Run α} (hx : P → Repeats w o S pre x post) :
    Repeats w o S (fun p => pre p ∧ P) x post :=
  fun _ _ _ hp hpre h => (fun hx => ⟨hx.1, fun _ hq hpreq => hx.2 hq hpreq.1⟩)
    (hx hpre.2 hp hpre.1 h)

theorem of_fact' {P : Prop} {x : Run α} (hx : P → Repeats w o S (fun _ => True) x post) :
    Repeats w o S (fun _ => P) x post :=
  (Repeats.of_fact hx).imp (fun _ h => ⟨trivial, h⟩) fun _ _ h => h

theorem pure {a : α} (h : ∀ p, pre p → post a p) : Repeats w o S pre (pure a : Run α) post := by
  intro p p' b hp hpre hb
  obtain ⟨rfl, rfl⟩ := pure_ok.1 hb
  refine ⟨⟨hp, .refl p, h p hpre⟩, fun q hq hpreq _ => ?_⟩
  exact .inl ⟨a, q, rfl, .of_eq hq rfl rfl, rfl, h q hpreq⟩

theorem throw (e : Failure) : Repeats w o S pre (throw e : Run α) post := by
  intro p p' b _ _ hb
  cases hb

theorem map {x : Run α} {post : β → Progress → Prop} (f : α → β)
    (hx : Repeats w o S pre x fun a p => post (f a) p) : Repeats w o S pre (f <$> x) post := by
  have hbind : f <$> x = x >>= fun a => Pure.pure (f a) := rfl
  rw [hbind]
  exact hx.bind fun a => .pure fun _ h => h

end Repeats

theorem Reports.repeats {x : Run α} {a : α} (hx : Reports x a) :
    Repeats w o S (fun _ => True) x fun b _ => b = a := by
  intro p p' b hp _ hb
  obtain ⟨notices, h⟩ := hx p
  obtain ⟨rfl, rfl⟩ := EStateM.Result.ok.inj (h.symm.trans hb)
  refine ⟨⟨hp.of_eq rfl rfl, .of_eq rfl rfl, rfl⟩, fun q hq _ _ => ?_⟩
  obtain ⟨notices', h'⟩ := hx q
  exact .inl ⟨a, _, h', .of_eq hq rfl rfl, rfl, rfl⟩

section Steps

variable (apart : w.Apart o S)
include apart

theorem resolve_coherent {t : TypeExpr} {p q : Progress} {s : Schema} (ht : w.MetBy o S t)
    (h : resolve w t p = .ok s q) (hp : p.Coherent w o S) :
    q.Coherent w o S ∧ p.Advances q ∧ q.registry.Covers s ∧ q.registry.CoversType w o t ∧
      w.Denotes o t s := by
  have closed {t u : TypeExpr} (h : w.MetBy o S t) (hd : w.Descends o t u) : w.MetBy o S u :=
    h.descends hd
  obtain ⟨owned, retains, covers⟩ :=
    resolveWithin_owns closed apart.objectsApart nestingBound ht h hp.owned
  obtain ⟨sound, _, hs⟩ := resolve_ok w h hp.sound
  have hd := resolve_document h
  obtain ⟨denotes, _⟩ :=
    resolveWithin_idle closed apart.objectsApart nestingBound ht hp.owned hp.idle h
  refine ⟨⟨owned, fun names => ?_, sound, retains.resolving.trans hp.idle, ?_, fun n s hn => ?_⟩,
    ⟨retains, ?_⟩, hs, covers, denotes⟩
  · exact (resolveWithin_follows closed names nestingBound ht h (hp.faithful names)
      (Registry.encloses_of_done hp.idle)).faithful
  · rw [hd]
    exact hp.distinct
  · rw [hd] at hn
    exact (hp.means hn).imp_left fun hm => retains.models hm
  · rw [hd]

/-- Resolving a type. -/
theorem resolve_repeats {t : TypeExpr} (ht : w.MetBy o S t) :
    Repeats w o S (fun _ => True) (resolve w t)
      fun s p => p.registry.Covers s ∧ w.Denotes o t s := by
  have closed {t u : TypeExpr} (h : w.MetBy o S t) (hd : w.Descends o t u) : w.MetBy o S u :=
    h.descends hd
  intro p p' s hp _ h
  obtain ⟨hp', hadv, hs, hcovers, hdenotes⟩ := resolve_coherent apart ht h hp
  refine ⟨⟨hp', hadv, hs, hdenotes⟩, fun q hq _ hc => ?_⟩
  have again {s' : Schema} {q' : Progress} (h' : resolve w t q = .ok s' q') :
      Again w o S p' (resolve w t) q
        fun b q => b = s ∧ q.registry.Covers s ∧ w.Denotes o t s := by
    obtain ⟨hq', hadv', hs', _, hdenotes'⟩ := resolve_coherent apart ht h' hq
    obtain rfl := hdenotes'.unique hdenotes
    have hd := resolve_document h'
    refine .inl ⟨s', q', h', ⟨hq', hadv', fun definitions hdef _ => ?_⟩, rfl, hs', hdenotes⟩
    rw [hd]
    exact hdef
  by_cases within : p'.Within q
  · have covers : q.registry.CoversType w o t := by
      refine hcovers.mono ⟨fun n hn => within.models.has hn, ?_⟩
      rw [hq.idle, hp'.idle]
    obtain ⟨_, found⟩ := (resolveWithin_idle closed apart.objectsApart nestingBound ht hp.owned
      hp.idle h).2 q hq.owned hq.idle covers
    exact again found
  · have names := hc.resolve_left within
    have denotable := (hp'.faithful names).denotable closed names hp'.idle ht hdenotes hcovers
    rcases resolveWithin_halts nestingBound denotable hq.owned.overrides with
      ⟨s', q', h'⟩ | ⟨q', h'⟩
    · exact again h'
    · exact .inr ⟨within, q', h'⟩

omit apart in
/-- Adding what names mean to a coherent state. -/
theorem attains_of_gains {p q q' : Progress} {models : Table Schema} (hq : q.Coherent w o S)
    (hr : q'.registry = q.registry)
    (hg : q.document.definitions.Gains q'.document.definitions models)
    (hm : ∀ e ∈ models, q.registry.Means w o S e.1 e.2)
    (hp : ∀ e ∈ models, p.document.definitions.get? e.1 = some e.2) :
    p.Attains w o S q q' where
  coherent := by
    refine ⟨hr ▸ hq.owned, hr ▸ hq.faithful, hr ▸ hq.sound, hr ▸ hq.idle, hg.distinct hq.distinct,
      fun n s hs => ?_⟩
    rw [hr]
    rcases (hg.entries n s).1 hs with hs | hs
    · exact hq.means hs
    · exact hm (n, s) hs
  advances := ⟨by rw [hr]; exact .refl _, hg.front⟩
  within definitions h h' := hg.within h fun e he => h' (hp e he)

/-- Adding models, the same ones in both runs. -/
theorem adds_repeats {pre : Progress → Prop} {x : Run Unit} (models : Progress → Table Schema)
    (applied : ∀ p, ∃ p', x p = .ok () p' ∧ p'.registry = p.registry ∧
      p'.document.definitions = (p.document.addModels (models p)).1.definitions)
    (means : ∀ p, ∀ e ∈ models p, p.registry.Means w o S e.1 e.2)
    (same : ∀ ⦃p q : Progress⦄, p.Coherent w o S → q.Coherent w o S → pre p → pre q →
      p.Comparable w o S q → models p = models q) :
    Repeats w o S pre x fun _ _ => True := by
  have gains {p p' : Progress} (hp : p.Coherent w o S)
      (hd : p'.document.definitions = (p.document.addModels (models p)).1.definitions) :
      p.document.definitions.Gains p'.document.definitions (models p) := by
    rw [hd]
    exact Document.addModels_gains (fun _ _ _ h h' => h.unique apart hp.owned h') hp.means (means p)
  intro p p' _ hp hpre h
  obtain ⟨r, hr, hregistry, hdefinitions⟩ := applied p
  obtain rfl : r = p' := (EStateM.Result.ok.inj (hr.symm.trans h)).2
  have first := gains hp hdefinitions
  have there : ∀ e ∈ models p, r.document.definitions.get? e.1 = some e.2 :=
    fun e he => (first.entries e.1 e.2).2 (.inr he)
  have attains := attains_of_gains hp hregistry first (means p) there
  refine ⟨⟨attains.coherent, attains.advances, trivial⟩, fun q hq hpreq hc => ?_⟩
  obtain ⟨q', hq', hregistry', hdefinitions'⟩ := applied q
  rw [same hp hq hpre hpreq (hc.of_advances attains.advances)] at there
  exact .inl ⟨(), q', hq', attains_of_gains hq hregistry' (gains hq hdefinitions') (means q) there,
    rfl, trivial⟩

/-- Adding the models that a schema refers to. -/
theorem addModelsOf_repeats (s : Schema) :
    Repeats w o S (fun p => p.registry.Covers s) (addModelsOf s) fun _ _ => True := by
  refine adds_repeats apart (fun p => p.registry.modelsFor s) (fun p => ?_) (fun p e he => ?_) ?_
  · rw [addModelsOf_apply]
    exact ⟨_, rfl, rfl, rfl⟩
  · exact .inl ((Registry.get?_of_mem_reachable he).resolve_left nofun)
  · intro p q hp hq hs hs' hc
    exact Registry.modelsFor_eq hp.sound hq.sound hp.idle hq.idle
      (fun n m m' hm hm' => hc.model_unique hp hq hm hm') hs hs'

/-- Adding the body of a method. -/
theorem addModel_repeats {name : String} {s : Schema} (hs : w.Sends o S name s) :
    Repeats w o S (fun _ => True) (onDocument fun d => d.addModel name s) fun _ _ => True := by
  refine adds_repeats apart (fun _ => [(name, s)]) (fun p => ?_) (fun p e he => ?_)
    fun _ _ _ _ _ _ _ => rfl
  · rw [onDocument_apply]
    exact ⟨_, rfl, rfl, rfl⟩
  · rw [List.mem_singleton.1 he]
    exact .inr hs

/-- A request type finds its name free for itself. -/
theorem candidates_of_coherent {m : Method} (hm : S m) {p : Progress} (hp : p.Coherent w o S) :
    candidates m p = .ok m.request p := by
  unfold candidates Method.request
  cases hb : m.requestBody with
  | none => rfl
  | some body =>
    refine (bind_of_ok (get_apply p)).trans ?_
    cases hd : (p.document.definitions.get? body.name).bind Schema.reference with
    | none => rfl
    | some existing =>
      obtain ⟨s, hs, hr⟩ := Option.bind_eq_some_iff.1 hd
      have own : s.reference = some body.reference := by
        rcases hp.means hs with hs | hs
        · obtain ⟨t, fields, ht, _⟩ := hp.owned.owner hs
          cases apart.requests hm hb (.model ht)
        · exact hs.reference apart hm hb
      obtain rfl := Option.some.inj (hr.symm.trans own)
      simp only [ne_eq, not_true_eq_false, if_false]
      rfl

theorem candidates_repeats {m : Method} (hm : S m) :
    Repeats w o S (fun _ => True) (candidates m) fun found _ => found = m.request := by
  intro p p' found hp _ h
  obtain ⟨rfl, rfl⟩ := EStateM.Result.ok.inj ((candidates_of_coherent apart hm hp).symm.trans h)
  refine ⟨⟨hp, .refl p, rfl⟩, fun q hq _ _ => ?_⟩
  exact .inl ⟨m.request, q, candidates_of_coherent apart hm hq, .of_eq hq rfl rfl, rfl, rfl⟩

end Steps

end Run

end ApiCompiler
