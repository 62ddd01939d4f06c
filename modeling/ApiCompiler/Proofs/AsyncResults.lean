import ApiCompiler.Proofs.MethodChanges

/-!
# Results that come later

A method may return its result at once, or a wrapper around a result that comes later. Both are read
alike: the wrapper is taken away where the service below a method is looked for and where its
response is built, and nothing else depends on the annotation, faults of it included.
-/

set_option autoImplicit false

namespace ApiCompiler

namespace Table

variable {α : Type} {R : α → α → Prop} {t' t u' u : Table α}

/-- Two tables have the same keys in the same order, and related values. -/
def Related (R : α → α → Prop) (t' t : Table α) : Prop :=
  List.Forall₂ (fun e' e => e'.1 = e.1 ∧ R e'.2 e.2) t' t

theorem Related.insert (h : Related R t' t) (key : String) {v' v : α} (hv : R v' v) :
    Related R (t'.insert key v') (t.insert key v) := by
  induction h with
  | nil => exact .cons ⟨rfl, hv⟩ .nil
  | @cons e' e _ _ he hrest ih =>
    obtain ⟨k', x'⟩ := e'
    obtain ⟨k, x⟩ := e
    obtain ⟨rfl, hx⟩ : k' = k ∧ R x' x := he
    by_cases hk : k' = key
    · simp only [Table.insert, if_pos hk]
      exact .cons ⟨rfl, hv⟩ hrest
    · simp only [Table.insert, if_neg hk]
      exact .cons ⟨rfl, hx⟩ ih

theorem Related.merge (h : Related R t' t) (hu : Related R u' u) :
    Related R (t'.merge u') (t.merge u) := by
  refine List.rel_foldl (P := Related R) ?_ h hu
  rintro t' t ht ⟨k', v'⟩ ⟨k, v⟩ ⟨hk, hv⟩
  cases hk
  exact ht.insert k' hv

end Table

theorem TypeExpr.asType_asType (t : TypeExpr) : t.asType.asType = t.asType := by
  cases t <;> rfl

theorem TypeExpr.asType_of_ne {t : TypeExpr} (h : t ≠ .null) : t.asType = t := by
  cases t <;> first | rfl | exact absurd rfl h

namespace World

/-- Classes of results that come later, which are given the type of the result. -/
def resultClasses : List Builtin := [.future, .task, .concurrentFuture, .awaitable]

/-- A wrapper around a result that comes later, with or without arguments. -/
def IsAsync (t : TypeExpr) : Prop :=
  ∃ c, containerClass? t = some c ∧ (c ∈ resultClasses ∨ c = .coroutine)

/-- A type names only what is declared, and takes its arguments. -/
def IsKnown (w : World) (t : TypeExpr) : Prop := ∃ u, w.resolveNames w.names t = .ok u

/-- An application of a class, or of a generic name for it, as it is written: the name may also be
declared later. -/
inductive Applies (w : World) (c : Builtin) (args : List TypeExpr) : TypeExpr → Prop
  | applied {head : Head} (h : headClass head = .builtin c) : Applies w c args (.applied head args)
  | pending {name : String} {t : TypeExpr} (h : w.names.get? name = some t)
      (ht : t = .builtin c ∨ ∃ g : GenericName, t = .generic g ∧ g.origin = c) :
      Applies w c args (.pending name args)

/-- The result `x` that comes later, as it is written. -/
inductive Awaits (w : World) (x : TypeExpr) : TypeExpr → Prop
  | result {c : Builtin} {t : TypeExpr} (hc : c ∈ resultClasses) (h : w.Applies c [x] t) :
      Awaits w x t
  | coroutine {a b t : TypeExpr} (ha : w.IsKnown a) (hb : w.IsKnown b)
      (h : w.Applies .coroutine [a, b, x] t) : Awaits w x t

/-- A method as it is, or with the result itself in place of a wrapper around it. -/
inductive Unwraps (w : World) (m : MethodDecl) : MethodDecl → Prop
  | same : Unwraps w m m
  | result {t x : TypeExpr} (hr : m.returns = some t) (ht : w.Awaits x t)
      (hx : ∀ u, w.resolveWritten x = .ok u → ¬ IsAsync u) :
      Unwraps w m { m with returns := some x }

variable {w : World} {f : Nat → String → MethodDecl → MethodDecl} {c : Builtin}
  {args us : List TypeExpr} {t u x : TypeExpr} {m m' : MethodDecl}

/-! ### Unwrapping -/

theorem mem_resultClasses :
    c ∈ resultClasses ↔ c = .future ∨ c = .task ∨ c = .concurrentFuture ∨ c = .awaitable := by
  simp [resultClasses]

theorem contains_asyncWrappers : asyncWrappers.contains c = decide (c ∈ resultClasses) := by
  rw [List.contains_eq_mem]
  rfl

/-- Applications, and bare generic names, are unwrapped by the class that they are of. -/
theorem unwrapAsync_of_origin (h : origin? t = some (.builtin c)) :
    unwrapAsync t = if c = .coroutine then
        (match arguments t with
          | [_, _, result] => result
          | _ => .any)
      else if c ∈ resultClasses then (arguments t).headD .any else t := by
  unfold unwrapAsync
  rw [h]
  split
  · rename_i heq
    cases heq
    rfl
  · rename_i hne heq
    cases heq
    rw [if_neg hne, contains_asyncWrappers]
    simp only [decide_eq_true_eq]
  · rename_i hnone
    exact (hnone c rfl).elim

/-- What is no wrapper is left as it is. -/
theorem unwrapAsync_of_not_isAsync (h : ¬ IsAsync t) : unwrapAsync t = t := by
  have outside {c : Builtin} (hc : containerClass? t = some c) :
      c ≠ .coroutine ∧ c ∉ resultClasses :=
    ⟨fun hcoroutine => h ⟨c, hc, .inr hcoroutine⟩, fun hresult => h ⟨c, hc, .inl hresult⟩⟩
  have applied {c : Builtin} (horigin : origin? t = some (.builtin c))
      (hc : containerClass? t = some c) : unwrapAsync t = t := by
    obtain ⟨hcoroutine, hresult⟩ := outside hc
    rw [unwrapAsync_of_origin horigin, if_neg hcoroutine, if_neg hresult]
  cases t with
  | builtin c =>
    have hresult : asyncWrappers.contains c = false := by
      rw [contains_asyncWrappers]
      exact decide_eq_false (outside rfl).2
    show (if asyncWrappers.contains c then .any else .builtin c) = TypeExpr.builtin c
    rw [hresult, if_neg Bool.false_ne_true]
  | generic g => exact applied rfl rfl
  | applied head args =>
    cases head with
    | builtin c => exact applied rfl rfl
    | generic g => exact applied rfl rfl
    | _ => rfl
  | _ => rfl

theorem unwrapAsync_result {head : Head} (hc : c ∈ resultClasses)
    (h : headClass head = .builtin c) : unwrapAsync (.applied head [u]) = u := by
  have hne : c ≠ .coroutine := by
    rintro rfl
    simp [resultClasses] at hc
  rw [unwrapAsync_of_origin (t := .applied head [u]) (congrArg some h), if_neg hne, if_pos hc]
  rfl

theorem unwrapAsync_coroutine {head : Head} {a b : TypeExpr}
    (h : headClass head = .builtin .coroutine) : unwrapAsync (.applied head [a, b, u]) = u := by
  rw [unwrapAsync_of_origin (t := .applied head [a, b, u]) (congrArg some h), if_pos rfl]
  rfl

/-! ### Resolution of wrappers -/

/-- A wrapper is given as many arguments as it takes. -/
def Fits (c : Builtin) (args : List TypeExpr) : Prop :=
  c ∈ resultClasses ∧ args.length = 1 ∨ c = .coroutine ∧ args.length = 3

theorem applyTo_builtin (h : Fits c args) (w : World) :
    w.applyTo (.builtin c) args = .ok (.applied (.builtin c) args) := by
  rcases h with ⟨hc, _⟩ | ⟨rfl, _⟩
  · rcases mem_resultClasses.1 hc with rfl | rfl | rfl | rfl <;> rfl
  · rfl

theorem applyTo_generic {g : GenericName} (h : Fits g.origin args) (w : World) :
    w.applyTo (.generic g) args = .ok (.applied (.generic g) (args.map TypeExpr.asType)) := by
  have harity : g.arity.all (· == args.length) = true := by
    rcases h with ⟨hc, h⟩ | ⟨hc, h⟩ <;> cases g <;>
      simp_all [GenericName.origin, resultClasses, GenericName.arity]
  simp only [applyTo, subscript, harity, if_true]
  rfl

/-- An application whose arguments have a fault has that fault. -/
theorem resolveWritten_of_applies_error {e : AnnotationFault} (h : w.Applies c args t)
    (he : w.resolveNamesList w.names args = .error e) : w.resolveWritten t = .error e := by
  cases h with
  | applied _ =>
    simp only [resolveWritten, TypeExpr.asType, resolveNames, he]
    rfl
  | pending h _ =>
    simp only [resolveWritten, TypeExpr.asType, resolveNames, h, he]
    rfl

/-- An application is resolved to one of the same class, where null values may have given way to
their class. -/
theorem resolveWritten_of_applies (h : w.Applies c args t)
    (hus : w.resolveNamesList w.names args = .ok us) (hfits : Fits c us) :
    ∃ head us', headClass head = .builtin c ∧ (us' = us ∨ us' = us.map TypeExpr.asType) ∧
      w.resolveWritten t = .ok (.applied head us') := by
  cases h with
  | applied h =>
    refine ⟨_, us, h, .inl rfl, ?_⟩
    simp only [resolveWritten, TypeExpr.asType, resolveNames, hus]
    rfl
  | @pending name t h ht =>
    have resolves : w.resolveWritten (.pending name args) = w.applyTo t us := by
      simp only [resolveWritten, TypeExpr.asType, resolveNames, h, hus]
      rfl
    rw [resolves]
    rcases ht with rfl | ⟨g, rfl, rfl⟩
    · exact ⟨.builtin c, us, rfl, .inl rfl, applyTo_builtin hfits w⟩
    · exact ⟨.generic g, _, rfl, .inr rfl, applyTo_generic hfits w⟩

/-- As an annotation, a type is resolved as it is inside of another one, up to a null value that
stands for its class. -/
theorem resolveWritten_eq (w : World) (x : TypeExpr) :
    (∃ e, w.resolveNames w.names x = .error e ∧ w.resolveWritten x = .error e) ∨
      ∃ q u, w.resolveNames w.names x = .ok q ∧ w.resolveWritten x = .ok u ∧
        q.asType = u.asType := by
  by_cases hx : x = .null
  · subst hx
    exact .inr ⟨.null, .noneType, rfl, rfl, rfl⟩
  · rw [resolveWritten, TypeExpr.asType_of_ne hx]
    cases hr : w.resolveNames w.names x with
    | error e => exact .inl ⟨e, rfl, rfl⟩
    | ok q => exact .inr ⟨q, q, rfl, rfl, rfl⟩

/-- The result that a wrapper gives is that of its argument, faults of it included. -/
theorem resolveWritten_of_awaits (h : w.Awaits x t) :
    (∃ e, w.resolveWritten t = .error e ∧ w.resolveWritten x = .error e) ∨
      ∃ t' u, w.resolveWritten t = .ok t' ∧ w.resolveWritten x = .ok u ∧
        (unwrapAsync t').asType = u.asType := by
  rcases resolveWritten_eq w x with ⟨e, he, hx⟩ | ⟨q, u, hq, hx, hsame⟩
  · refine .inl ⟨e, ?_, hx⟩
    cases h with
    | result _ h =>
      exact resolveWritten_of_applies_error h (by simp only [resolveNamesList, he]; rfl)
    | coroutine ha hb h =>
      obtain ⟨a', ha⟩ := ha
      obtain ⟨b', hb⟩ := hb
      exact resolveWritten_of_applies_error h
        (by simp only [resolveNamesList, ha, hb, he]; rfl)
  · cases h with
    | result hc h =>
      have hqs : w.resolveNamesList w.names [x] = .ok [q] := by
        simp only [resolveNamesList, hq]; rfl
      obtain ⟨head, us', hhead, hus', ht⟩ := resolveWritten_of_applies h hqs (.inl ⟨hc, rfl⟩)
      refine .inr ⟨_, u, ht, hx, ?_⟩
      rcases hus' with rfl | rfl
      · rw [unwrapAsync_result hc hhead, hsame]
      · rw [List.map_singleton, unwrapAsync_result hc hhead, ← hsame, TypeExpr.asType_asType]
    | @coroutine a b _ ha hb h =>
      obtain ⟨a', ha⟩ := ha
      obtain ⟨b', hb⟩ := hb
      have hqs : w.resolveNamesList w.names [a, b, x] = .ok [a', b', q] := by
        simp only [resolveNamesList, ha, hb, hq]; rfl
      obtain ⟨head, us', hhead, hus', ht⟩ := resolveWritten_of_applies h hqs (.inr ⟨rfl, rfl⟩)
      refine .inr ⟨_, u, ht, hx, ?_⟩
      rcases hus' with rfl | rfl
      · rw [unwrapAsync_coroutine hhead, hsame]
      · simp only [List.map_cons, List.map_nil]
        rw [unwrapAsync_coroutine hhead, ← hsame, TypeExpr.asType_asType]

/-- Types that differ only in a null value in place of its class are both without content. -/
theorem eq_or_isNoContent (h : t.asType = u.asType) :
    t = u ∨ (t = .null ∨ t = .noneType) ∧ (u = .null ∨ u = .noneType) := by
  by_cases ht : t = .null <;> by_cases hu : u = .null
  · exact .inl (ht.trans hu.symm)
  · subst ht
    rw [TypeExpr.asType_of_ne hu] at h
    exact .inr ⟨.inl rfl, .inr h.symm⟩
  · subst hu
    rw [TypeExpr.asType_of_ne ht] at h
    exact .inr ⟨.inr h, .inl rfl⟩
  · rw [TypeExpr.asType_of_ne ht, TypeExpr.asType_of_ne hu] at h
    exact .inl h

/-! ### Loading -/

/-- What a method returns, as it is loaded. -/
def returnOf (w : World) (m : MethodDecl) : TypeExpr :=
  match m.returns with
  | some r => w.resolved (some r)
  | none => .null

theorem resolveAll_append (ts us : List TypeExpr) :
    w.resolveAll (ts ++ us) = (do return (← w.resolveAll ts) ++ (← w.resolveAll us)) := by
  induction ts with
  | nil =>
    simp only [List.nil_append, resolveAll]
    cases w.resolveAll us <;> rfl
  | cons t ts ih =>
    simp only [List.cons_append, resolveAll, ih]
    cases w.resolveWritten t with
    | error e => rfl
    | ok t =>
      cases w.resolveAll ts with
      | error e => rfl
      | ok ts => cases w.resolveAll us <;> rfl

/-- The annotations of a method have the same faults when its result is unwrapped; without faults
the payload stays. -/
theorem checkAnnotations_of_unwraps (h : w.Unwraps m m') (owner : String) :
    w.checkAnnotations owner m' = w.checkAnnotations owner m ∧
      ((∃ e, w.checkAnnotations owner m = .error e) ∨
        (unwrapAsync (w.returnOf m')).asType = (unwrapAsync (w.returnOf m)).asType) := by
  cases h with
  | same => exact ⟨rfl, .inr rfl⟩
  | @result t x hr ht hx =>
    simp only [checkAnnotations, MethodDecl.annotations, returnOf, hr, Option.toList_some,
      resolveAll_append, resolveAll, resolved]
    rcases resolveWritten_of_awaits ht with ⟨e, het, hex⟩ | ⟨t', u, ht', hu, hsame⟩
    · rw [het, hex]
      refine ⟨rfl, .inl ?_⟩
      cases w.resolveAll (m.arguments.filterMap ArgumentDecl.annotation) <;> exact ⟨_, rfl⟩
    · rw [ht', hu]
      refine ⟨?_, .inr ?_⟩
      · cases w.resolveAll (m.arguments.filterMap ArgumentDecl.annotation) <;> rfl
      · simp only [hsame, unwrapAsync_of_not_isAsync (hx u hu)]

theorem argumentsOf_of_unwraps (h : w.Unwraps m m') (owner : String) :
    w.argumentsOf owner m' = w.argumentsOf owner m := by
  have requested : requestArguments m' = requestArguments m := by cases h <;> rfl
  rw [argumentsOf, (checkAnnotations_of_unwraps h owner).1, requested, argumentsOf]

/-- Every method of a class is changed to one whose result is unwrapped, or is kept. -/
def UnwrapsAll (w : World) (f : Nat → String → MethodDecl → MethodDecl) : Prop :=
  ∀ i c, w.class? i = some c → ∀ name m, (name, m) ∈ c.methods → w.Unwraps m (f i name m)

/-- Methods with the names of their classes, of which the results may be unwrapped. -/
def Owned (w : World) (e' e : String × MethodDecl) : Prop := e'.1 = e.1 ∧ w.Unwraps e.2 e'.2

theorem unwraps_creator (h : w.Unwraps m m') : m'.creator = m.creator := by cases h <;> rfl

theorem unwraps_marked (h : w.Unwraps m m') : m'.marked = m.marked := by cases h <;> rfl

theorem functions_unwrapped {i : Nat} {c : ClassDecl} (hf : w.UnwrapsAll f)
    (hc : w.class? i = some c) :
    List.Forall₂ (fun e' e => e'.1 = e.1 ∧ w.Unwraps e.2 e'.2) (c.mapMethods (f i)).functions
      c.functions := by
  have methods : List.Forall₂ (fun e' e => e'.1 = e.1 ∧ w.Unwraps e.2 e'.2)
      (c.mapMethods (f i)).methods c.methods := by
    rw [ClassDecl.mapMethods, List.forall₂_map_left_iff, List.forall₂_same]
    exact fun e he => ⟨rfl, hf i c hc e.1 e.2 he⟩
  exact List.rel_filter (fun _ _ h => by simp only [h.1, ClassDecl.mapMethods]) methods

theorem creatorsOf_unwrapped (hf : w.UnwrapsAll f) (t : TypeExpr) :
    List.Forall₂ w.Owned ((w.mapMethods f).creatorsOf t) (w.creatorsOf t) := by
  have creators (i : Nat) :
      List.Forall₂ w.Owned ((w.mapMethods f).creatorsOf (.declared i))
        (w.creatorsOf (.declared i)) := by
    simp only [creatorsOf, class?_mapMethods]
    cases hc : w.class? i with
    | none => exact .nil
    | some c =>
      have marked := List.rel_filter (p := fun e => e.2.creator) (q := fun e => e.2.creator)
        (fun _ _ h => by simp only [unwraps_creator h.2]) (functions_unwrapped hf hc)
      exact List.rel_map (fun _ _ h => ⟨rfl, h.2⟩) marked
  cases t with
  | declared i => exact creators i
  | applied head args =>
    cases head with
    | container i => exact creators i
    | _ => exact .nil
  | _ => exact .nil

theorem creatorArguments_unwrapped (hf : w.UnwrapsAll f) (t : TypeExpr) :
    (w.mapMethods f).creatorArguments t = w.creatorArguments t := by
  have creators := creatorsOf_unwrapped hf t
  unfold creatorArguments
  generalize (w.mapMethods f).creatorsOf t = cs', w.creatorsOf t = cs at creators ⊢
  cases creators with
  | nil => simp only [simpleName_mapMethods]
  | @cons e' e _ _ h rest =>
    obtain ⟨owner', m'⟩ := e'
    obtain ⟨owner, m⟩ := e
    obtain ⟨howner, h⟩ := h
    cases howner
    cases rest with
    | nil => simp only [simpleName_mapMethods, argumentsOf_mapMethods, argumentsOf_of_unwraps h]
    | cons _ _ => simp only [simpleName_mapMethods]

theorem requestOf_unwrapped (hf : w.UnwrapsAll f) (h : w.Unwraps m m')
    (arguments : List Argument) :
    (w.mapMethods f).requestOf m' arguments = w.requestOf m arguments := by
  have body (t : TypeExpr) : (w.mapMethods f).requestBodyOf t = w.requestBodyOf t := by
    simp only [requestBodyOf, simpleName_mapMethods, qualifiedName_mapMethods,
      creatorArguments_unwrapped hf]
  have operation : m'.operation = m.operation := by cases h <;> rfl
  simp only [requestOf, requestOf.fromBody, operation, body, tokenElement_mapMethods]

end World

/-- Two loaded methods that differ only in how they declare and wrap their result. -/
structure Method.Alike (m' m : Method) : Prop where
  eq : m' = { m with
    decl := { m.decl with returns := m'.decl.returns }
    returnType := m'.returnType }
  payload : (World.unwrapAsync m'.returnType).asType = (World.unwrapAsync m.returnType).asType

/-- Two loads that fail alike or succeed with alike results. -/
inductive LoadsAlike {α : Type} (R : α → α → Prop) : Except Failure α → Except Failure α → Prop
  | error (e : Failure) : LoadsAlike R (.error e) (.error e)
  | ok {a b : α} (h : R a b) : LoadsAlike R (.ok a) (.ok b)

theorem LoadsAlike.bind {α β : Type} {R : α → α → Prop} {S : β → β → Prop}
    {x y : Except Failure β} (h : LoadsAlike S x y) {f g : β → Except Failure α}
    (hfg : ∀ a b, S a b → LoadsAlike R (f a) (g b)) : LoadsAlike R (x >>= f) (y >>= g) := by
  cases h with
  | error e => exact .error e
  | ok h => exact hfg _ _ h

/-- After the same part, loads that go on alike are alike. -/
theorem LoadsAlike.bind_same {α β : Type} {R : α → α → Prop} (x : Except Failure β)
    {f g : β → Except Failure α} (h : ∀ b, x = .ok b → LoadsAlike R (f b) (g b)) :
    LoadsAlike R (x >>= f) (x >>= g) := by
  cases x with
  | error e => exact .error e
  | ok b => exact h b rfl

namespace World

variable {w : World} {f : Nat → String → MethodDecl → MethodDecl} {m m' : MethodDecl}

theorem loadMethod_unwrapped (hf : w.UnwrapsAll f) (h : w.Unwraps m m') (t : TypeExpr)
    (owner : String) :
    LoadsAlike Method.Alike ((w.mapMethods f).loadMethod t owner m') (w.loadMethod t owner m) := by
  have resolvedReturn : (w.mapMethods f).returnOf m' = w.returnOf m' := by
    simp only [returnOf, resolved_mapMethods]
  have hloadMethod (v : World) (k : MethodDecl) : v.loadMethod t owner k = (do
      let arguments ← v.argumentsOf owner k
      let request ← v.requestOf k arguments
      return {
        decl := k
        declaringType := ← v.qualifiedName t
        declaringName := ← v.simpleName t
        arguments, returnType := v.returnOf k
        requestElement := request.1, requestBody := request.2
        subResource := if v.isService (unwrapAsync (v.returnOf k)) then
          some (unwrapAsync (v.returnOf k)) else none }) := rfl
  rw [hloadMethod, hloadMethod]
  simp only [argumentsOf_mapMethods, argumentsOf_of_unwraps h, requestOf_unwrapped hf h,
    qualifiedName_mapMethods, simpleName_mapMethods, isService_mapMethods, resolvedReturn]
  refine .bind_same _ fun arguments hargs => .bind_same _ fun request _ =>
    .bind_same _ fun declaringType _ => .bind_same _ fun declaringName _ => ?_
  have payload : (unwrapAsync (w.returnOf m')).asType = (unwrapAsync (w.returnOf m)).asType := by
    refine (checkAnnotations_of_unwraps h owner).2.resolve_left ?_
    rintro ⟨e, he⟩
    rw [argumentsOf, he] at hargs
    cases hargs
  have target : (if w.isService (unwrapAsync (w.returnOf m')) then
      some (unwrapAsync (w.returnOf m')) else none) =
      if w.isService (unwrapAsync (w.returnOf m)) then
        some (unwrapAsync (w.returnOf m)) else none := by
    rcases eq_or_isNoContent payload with heq | ⟨h', h⟩
    · rw [heq]
    · rcases h' with h' | h' <;> rcases h with h | h <;> rw [h', h] <;> rfl
  refine .ok ⟨?_, payload⟩
  rw [target]
  cases h <;> rfl

theorem loadMethods_unwrapped (hf : w.UnwrapsAll f) (t : TypeExpr)
    {ms' ms : List (String × MethodDecl)} (h : List.Forall₂ w.Owned ms' ms) :
    LoadsAlike (List.Forall₂ Method.Alike) ((w.mapMethods f).loadMethods t ms')
      (w.loadMethods t ms) := by
  induction h with
  | nil => exact .ok .nil
  | @cons e' e _ _ h _ ih =>
    have first : LoadsAlike Method.Alike ((w.mapMethods f).loadMethod t e'.1 e'.2)
        (w.loadMethod t e.1 e.2) := by
      rw [h.1]
      exact loadMethod_unwrapped hf h.2 t e.1
    exact first.bind fun _ _ hfirst => ih.bind fun _ _ hrest => .ok (.cons hfirst hrest)

theorem ownFunctions_unwrapped (hf : w.UnwrapsAll f) (t : TypeExpr) :
    Table.Related w.Owned ((w.mapMethods f).ownFunctions t) (w.ownFunctions t) := by
  cases t with
  | declared i =>
    simp only [ownFunctions, class?_mapMethods]
    cases hc : w.class? i with
    | none => exact .nil
    | some c => exact List.rel_map (fun _ _ h => ⟨h.1, rfl, h.2⟩) (functions_unwrapped hf hc)
  | builtin c => exact List.forall₂_same.2 fun _ _ => ⟨rfl, rfl, .same⟩
  | _ => exact .nil

theorem publicMethods_unwrapped (hf : w.UnwrapsAll f) (t : TypeExpr) :
    Table.Related w.Owned ((w.mapMethods f).publicMethods t) (w.publicMethods t) := by
  unfold publicMethods
  rw [lineage_mapMethods]
  refine List.rel_foldl (P := Table.Related w.Owned) (R := Eq) ?_ .nil
    (List.forall₂_same.2 fun _ _ => rfl)
  rintro t' t ht u _ rfl
  exact ht.merge (List.rel_filter (fun _ _ h => by simp only [h.1]) (ownFunctions_unwrapped hf u))

theorem routedMethods_unwrapped (hf : w.UnwrapsAll f) (t : TypeExpr) :
    List.Forall₂ w.Owned ((w.mapMethods f).routedMethods t) (w.routedMethods t) :=
  List.rel_filter (p := fun e => e.2.marked) (q := fun e => e.2.marked)
    (fun _ _ h => by simp only [unwraps_marked h.2])
    (List.rel_map (fun _ _ h => h.2) (publicMethods_unwrapped hf t))

end World

/-- Two loaded services that differ only in how their methods declare and wrap their results. -/
structure Service.Alike (s' s : Service) : Prop where
  eq : s' = { s with methods := s'.methods }
  methods : List.Forall₂ Method.Alike s'.methods s.methods

theorem World.loadService_unwrapped {w : World} {f : Nat → String → MethodDecl → MethodDecl}
    (hf : w.UnwrapsAll f) (t : TypeExpr) :
    LoadsAlike Service.Alike ((w.mapMethods f).loadService t) (w.loadService t) := by
  unfold loadService
  rw [serviceInfo?_mapMethods]
  cases w.serviceInfo? t with
  | none =>
    simp only [notServiceText, qualifiedName_mapMethods, shown_mapMethods]
    exact .error _
  | some info =>
    refine (loadMethods_unwrapped hf t (routedMethods_unwrapped hf t)).bind fun ms' ms hms => ?_
    rw [qualifiedName_mapMethods]
    refine .bind_same _ fun name _ => .ok ⟨?_, hms⟩
    cases t with
    | declared i => simp only [bind_class?_mapMethods (g := ClassDecl.path) fun _ _ => rfl]
    | _ => rfl

/-! ### Scanning -/

theorem World.payloadType_of_alike {w : World} {m' m : Method} (h : m'.Alike m) :
    w.payloadType m' = w.payloadType m := by
  obtain ⟨heq, hpayload⟩ := h
  have operation : m'.operation = m.operation := by rw [heq]; rfl
  have json : m'.decl.jsonRequest = m.decl.jsonRequest := by rw [heq]
  simp only [payloadType, operation, json]
  rcases eq_or_isNoContent hpayload with hsame | ⟨h', h⟩
  · rw [hsame]
  · have hempty' : isNoContent (unwrapAsync m'.returnType) = true := by
      rcases h' with h' | h' <;> rw [h'] <;> rfl
    have hempty : isNoContent (unwrapAsync m.returnType) = true := by
      rcases h with h | h <;> rw [h] <;> rfl
    split
    · rfl
    · split <;> rfl

namespace Run

variable {w : World} {f : Nat → String → MethodDecl → MethodDecl} {m' m : Method}
  {s' s : Service} {below' below : Service → Descent → Run Unit}

theorem build_of_alike (h : m'.Alike m) : build w m' = build w m := by
  have payload := World.payloadType_of_alike (w := w) h
  obtain ⟨heq, _⟩ := h
  generalize m'.decl.returns = r, m'.returnType = t at heq
  subst heq
  unfold build successResponse
  rw [payload]
  rfl

/-- Loading a service and going on with it does the same with services that are alike. -/
theorem load_unwrapped (hf : w.UnwrapsAll f) (t : TypeExpr) {α : Type}
    {go' go : Service → Run α} (hgo : ∀ s' s : Service, s'.Alike s → go' s' = go s) :
    (load (w.mapMethods f) t >>= go') = (load w t >>= go) := by
  have loads := World.loadService_unwrapped hf t
  unfold load
  generalize (w.mapMethods f).loadService t = l', w.loadService t = l at loads ⊢
  cases loads with
  | error e => rfl
  | ok h =>
    rename_i s' s
    have count : s'.methods.length = s.methods.length := h.methods.length_eq
    have name : s'.name = s.name := by rw [h.eq]
    simp only [ofExcept, pure_bind, bind_assoc, name, count, hgo s' s h]

theorem scanTarget_unwrapped (hf : w.UnwrapsAll f)
    (hbelow : ∀ s' s : Service, s'.Alike s → below' s' = below s) (hm : m'.Alike m) (d : Descent) :
    scanTarget (w.mapMethods f) below' m' d = scanTarget w below m d := by
  have target : m'.subResource = m.subResource := by rw [hm.eq]
  unfold scanTarget
  rw [target]
  cases m.subResource with
  | none => rfl
  | some t => exact load_unwrapped hf t fun s' s h => by rw [hbelow s' s h]

theorem scanMethod_unwrapped (hf : w.UnwrapsAll f)
    (hbelow : ∀ s' s : Service, s'.Alike s → below' s' = below s) (hs : s'.Alike s)
    (hm : m'.Alike m) (d : Descent) :
    scanMethod (w.mapMethods f) below' s' d m' = scanMethod w below s d m := by
  have path : m'.decl.pathText = m.decl.pathText := by rw [hm.eq]; rfl
  have operation : m'.decl.operation = m.decl.operation := by rw [hm.eq]
  have name : m'.name = m.name := by rw [hm.eq]; rfl
  have verb : m'.verb = m.verb := by rw [hm.eq]; rfl
  have own : s'.path = s.path ∧ s'.name = s.name ∧ s'.info = s.info := by
    rw [hs.eq]
    exact ⟨rfl, rfl, rfl⟩
  have route (template : Path.Template) (info : OperationInfo) :
      scanRoute (w.mapMethods f) below' s' d m' template info =
        scanRoute w below s d m template info := by
    simp only [scanRoute, build_mapMethods, build_of_alike hm, scanTarget_unwrapped hf hbelow hm,
      verb, own.2.2]
  simp only [scanMethod, path, operation, name, own.1, own.2.1, route]

theorem scanService_unwrapped (hf : w.UnwrapsAll f)
    (hbelow : ∀ s' s : Service, s'.Alike s → below' s' = below s) (hs : s'.Alike s)
    (d : Descent) :
    scanService (w.mapMethods f) below' s' d = scanService w below s d := by
  have own : s'.type = s.type ∧ s'.name = s.name ∧ s'.info = s.info := by
    rw [hs.eq]
    exact ⟨rfl, rfl, rfl⟩
  have within : d.within s' = d.within s := by rw [Descent.within, own.2.2, Descent.within]
  have methods : ∀ {ms' ms : List Method}, List.Forall₂ Method.Alike ms' ms →
      scanMethods (scanMethod (w.mapMethods f) below' s' (d.within s)) ms' =
        scanMethods (scanMethod w below s (d.within s)) ms := by
    intro ms' ms h
    induction h with
    | nil => rfl
    | cons hm _ ih => rw [scanMethods, scanMethods, scanMethod_unwrapped hf hbelow hs hm, ih]
  simp only [scanService, own.1, own.2.1, own.2.2, within, methods hs.methods,
    World.cycleName_mapMethods]

theorem scanWithin_unwrapped (hf : w.UnwrapsAll f) (bound : Nat) :
    ∀ s' s : Service, s'.Alike s →
      scanWithin (w.mapMethods f) bound s' = scanWithin w bound s := by
  induction bound with
  | zero => intro s' s _; rfl
  | succ bound ih => 
    intro s' s hs
    funext d
    exact scanService_unwrapped hf ih hs d

/-- A method that returns a result later is read as if it returned the result itself: the outcome
of a read, with all that it leaves behind, stays the same when the wrappers around results are taken
away. -/
theorem read_unwrapped (hf : w.UnwrapsAll f) (t : TypeExpr) (includeHidden : Bool) :
    read (w.mapMethods f) t includeHidden = read w t includeHidden := by
  refine load_unwrapped hf t fun s' s h => ?_
  rw [scan, World.decls_length_mapMethods, scanWithin_unwrapped hf _ s' s h, scan]

end Run

/-- A service that returns everything later: a report, nothing, a token for titles, and the archive
below it. -/
def World.newsroom : World where
  decls := [
    .cls {
      name := "Report"
      qualname := "Report"
      above := [.builtin .object]
      annotations := [("title", .builtin .str)] },
    .cls {
      name := "Titles"
      qualname := "Titles"
      bases := [.applied (.builtin .typeToken) [.applied (.builtin .list) [.builtin .str]]]
      above := [.builtin .typeToken, .builtin .object] },
    .cls {
      name := "Archive"
      qualname := "Archive"
      above := [.builtin .object]
      service := some {}
      methods := [("old", {
        name := "old"
        marked := true
        path := some (.text "/old")
        operation := some {} })] },
    .cls {
      name := "Newsroom"
      qualname := "Newsroom"
      above := [.builtin .object]
      service := some {}
      path := some "/news"
      methods := [
        ("report", {
          name := "report"
          marked := true
          path := some (.text "/report")
          operation := some {}
          jsonRequest := true
          returns := some (.applied (.builtin .future) [.declared 0]) }),
        ("clear", {
          name := "clear"
          marked := true
          path := some (.text "/clear")
          operation := some {}
          jsonRequest := true
          returns := some (.applied (.builtin .task) [.null]) }),
        ("titles", {
          name := "titles"
          marked := true
          path := some (.text "/titles")
          operation := some {}
          jsonRequest := true
          returns := some (.applied (.generic .coroutine) [.noneType, .noneType, .declared 1]) }),
        ("archive", {
          name := "archive"
          marked := true
          path := some (.text "/archive")
          operation := some {}
          returns := some (.applied (.builtin .awaitable) [.forward "Archive"]) })] }]
  names := [("Report", .declared 0), ("Titles", .declared 1), ("Archive", .declared 2),
    ("Newsroom", .declared 3)]

/-- The results of the methods above. -/
def World.newsroomResult (_ : Nat) (name : String) (m : MethodDecl) : MethodDecl :=
  match name with
  | "report" => { m with returns := some (.declared 0) }
  | "clear" => { m with returns := some .null }
  | "titles" => { m with returns := some (.declared 1) }
  | "archive" => { m with returns := some (.forward "Archive") }
  | _ => m

/-- Paths and responses of the stored operations, in order. -/
def Progress.responses (p : Progress) : List (String × List (String × Option String)) :=
  p.document.operations.map fun o => (o.1, o.2.2.responses.map fun r =>
    (r.1, (r.2.shape.map fun s => s.ref.getD s.kind.name)))

theorem Run.read_unwrapped_newsroom :
    World.newsroom.UnwrapsAll World.newsroomResult ∧
      ∃ p, read World.newsroom (.declared 3) false {} = .ok () p ∧
        read (World.newsroom.mapMethods World.newsroomResult) (.declared 3) false {} = .ok () p ∧
        p.responses = [
          ("/news/report", [("200", some "app.Report")]),
          ("/news/clear", [("default", none)]),
          ("/news/titles", [("200", some "array")]),
          ("/news/archive/old", [("default", none)]),
          ("/news/archive", [("default", none)])] := by
  have result {m : MethodDecl} {t x u : TypeExpr} (hr : m.returns = some t)
      (ht : World.newsroom.Awaits x t) (hu : World.newsroom.resolveWritten x = .ok u)
      (hplain : World.containerClass? u = none ∨ u = .noneType) :
      World.newsroom.Unwraps m { m with returns := some x } := by
    refine .result hr ht fun v hv => ?_
    rw [hu] at hv
    cases hv
    rintro ⟨c, hc, h⟩
    rcases hplain with hplain | rfl
    · rw [hplain] at hc
      cases hc
    · cases hc
      simp [World.resultClasses] at h
  have unwraps : World.newsroom.UnwrapsAll World.newsroomResult := by
    intro i c hc name m hm
    rcases i with _ | _ | _ | _ | i <;> cases hc
    · cases hm
    · cases hm
    · obtain ⟨rfl, rfl⟩ := Prod.mk.inj (List.mem_singleton.1 hm)
      exact .same
    · rcases List.mem_cons.1 hm with h | hm
      · cases h
        exact result rfl (.result (c := .future) (by decide) (.applied rfl)) rfl (.inl rfl)
      rcases List.mem_cons.1 hm with h | hm
      · cases h
        exact result rfl (.result (c := .task) (by decide) (.applied rfl)) rfl (.inr rfl)
      rcases List.mem_cons.1 hm with h | hm
      · cases h
        exact result rfl (.coroutine ⟨_, rfl⟩ ⟨_, rfl⟩ (.applied rfl)) rfl (.inl rfl)
      · cases List.mem_singleton.1 hm
        exact result rfl (.result (c := .awaitable) (by decide) (.applied rfl)) rfl (.inl rfl)
  have responses : (match read World.newsroom (.declared 3) false {} with
      | .ok _ p => some p.responses
      | .error .. => none) = some [
          ("/news/report", [("200", some "app.Report")]),
          ("/news/clear", [("default", none)]),
          ("/news/titles", [("200", some "array")]),
          ("/news/archive/old", [("default", none)]),
          ("/news/archive", [("default", none)])] := by decide +kernel
  refine ⟨unwraps, ?_⟩
  rw [read_unwrapped unwraps]
  split at responses
  · rename_i p hp
    exact ⟨p, hp, hp, Option.some.inj responses⟩
  · cases responses

end ApiCompiler
