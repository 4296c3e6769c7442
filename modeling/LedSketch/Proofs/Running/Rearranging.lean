import LedSketch.Proofs.Running.Mirroring

/-!
# Runs of rearranged programs

A body declares its functions before it runs, so it makes no difference to a run where they stand.
Two programs that differ in that alone run alike from memories that hold the same: through calls,
whose functions may be rearranged in turn, through scopes that are made on the way, and through
errors.

* `Running.Admits`: no constant stands in the way of the functions of a body.
* `Running.runFrom_hoist`: then declaring them has one outcome, which does not depend on their order.
* `Running.Mirroring`, `Running.mirroring`: every function of the evaluator, by induction on the bound
  on nested steps.
-/

namespace LedSketch

namespace Store

variable {st : Store} {ref : ScopeRef}

theorem modifyScope_modifyScope (st : Store) (ref : ScopeRef) (f g : Scope → Scope) :
    (st.modifyScope ref f).modifyScope ref g = st.modifyScope ref fun s => g (f s) := by
  have : (st.scopes.modify ref f).modify ref g = st.scopes.modify ref fun s => g (f s) := by
    refine Array.ext_getElem? fun i => ?_
    simp only [Array.getElem?_modify]
    split_ifs
    · rw [Option.map_map]
      rfl
    · rfl
  simp only [modifyScope, this]

theorem modifyScope_id (st : Store) (ref : ScopeRef) : (st.modifyScope ref fun s => s) = st := by
  have : (st.scopes.modify ref fun s => s) = st.scopes := by
    refine Array.ext_getElem? fun i => ?_
    simp [Array.getElem?_modify]
  simp only [modifyScope, this]

end Store

namespace Running

open Eval Node

variable {b : Binding} {fuel : Nat} {m m' : Memory}

/-- **No constant of a scope stands in the way** of the functions of a body. -/
def Admits (st : Store) (ref : ScopeRef) (body : List Node) : Prop :=
  ∀ name ∈ functionNames body, (st.scope ref).isConstant name = false

theorem admits_of_open {st : Store} {ref : ScopeRef} (h : st.Open ref) (body : List Node) :
    Admits st ref body := by
  intro name _
  rw [Scope.isConstant, show (st.scope ref).constants = [] from h]
  rfl

theorem rearranges_bodyOf {x y : Node} (h : Rearranged x y) : Rearranges (bodyOf x) (bodyOf y) := by
  cases h with
  | block l rest functions | program l rest functions => exact ⟨rest, functions⟩
  | _ => exact .refl []

/-- Both stores admit a body, or neither does, wherever its functions stand. -/
theorem Admits.like {st st' : Store} {ref : ScopeRef} {body body' : List Node}
    (h : Admits st ref body) (hst : st.Like st') (hbody : Rearranges body body') :
    Admits st' ref body' := by
  intro name hname
  rw [← (hst.scopes ref).isConstant name]
  exact h name (hbody.mem_functionNames.mpr hname)

theorem declareFunction_eq {st : Store} {ref : ScopeRef} {name : String}
    (h : (st.scope ref).isConstant name = false) (c : Closure) :
    st.declareFunction ref name c = .ok (st.modifyScope ref (·.hoisted ref [(name, c)])) := by
  have hdeclared : st.declare ref name (.function ref name) false =
      .ok (st.put ref name (.function ref name)) := by
    simp [Store.declare, h]
  rw [Store.declareFunction, hdeclared]
  exact congrArg Except.ok (st.modifyScope_modifyScope ref _ _)

/-- Declaring the functions of a body binds their names, and keeps the last function of a name. -/
theorem runFrom_hoist {ref : ScopeRef} {body : List Node} (h : Admits m.store ref body) :
    (hoist ref body).runFrom m = .done (.ok (),
      { m with store := m.store.modifyScope ref (·.hoisted ref (functions body)) }) := by
  induction body generalizing m with
  | nil =>
    have : m.store.modifyScope ref (·.hoisted ref (functions [])) = m.store :=
      m.store.modifyScope_id ref
    rw [this]
    rfl
  | cons s rest ih =>
    cases s with
    | functionDecl l name params body isAsync =>
      have hname := h name (List.mem_cons_self ..)
      have hdeclared := declareFunction_eq hname ⟨params, body, isAsync⟩
      rw [hoist]
      change ((ofComplaint (m.store.declareFunction ref name ⟨params, body, isAsync⟩) >>=
        fun st => setStore st >>= fun _ => hoist ref rest).runFrom m) = _
      rw [hdeclared]
      refine (ih (m := { m with store := _ }) fun k hk => ?_).trans ?_
      · rw [Store.scope_modifyScope]
        split_ifs
        · exact h k (List.mem_cons_of_mem _ hk)
        · exact h k (List.mem_cons_of_mem _ hk)
      · dsimp only
        rw [Store.modifyScope_modifyScope]
        rfl
    | _ => exact ih h

/-! ### Binding names -/

theorem mirrors_declare (scope : ScopeRef) (name : String) (v : Value) (constant : Bool) :
    Mirrors (declare scope name v constant) (declare scope name v constant) := by
  have declared := mirrors_change (r := (·.declare scope name v constant))
    (fun _ _ h => h.declare scope name v constant) (mirrors_pure ())
  rw [declare]
  simpa only [bind_pure_unit] using declared

theorem runFrom_bindParams_cons {scope : ScopeRef} {name : String} {args : List Value} {st : Store}
    (h : m.store.declare scope name (args.headD .null) false = .ok st) (names : List String) :
    (bindParams scope (name :: names) args).runFrom m =
      (bindParams scope names args.tail).runFrom { m with store := st } := by
  change ((ofComplaint (m.store.declare scope name (args.headD .null) false) >>= fun st =>
    setStore st >>= fun _ => bindParams scope names args.tail).runFrom m) = _
  rw [h]
  rfl

/-- Binding the parameters of a call leaves its scope without constants. -/
theorem alike_bindParams {scope : ScopeRef} (names : List String) (args : List Value)
    (hm : m.Like m') (hopen : m.store.Open scope) :
    Act.Alike (fun r r' => SameEnd r r' ∧ r.2.store.Open scope)
      ((bindParams scope names args).runFrom m) ((bindParams scope names args).runFrom m') := by
  induction names generalizing args m m' with
  | nil => exact .done ⟨⟨rfl, hm⟩, hopen⟩
  | cons name names ih =>
    obtain ⟨st, hd, ho⟩ := hopen.declare name (args.headD .null)
    have hagree := hm.store.declare scope name (args.headD .null) false
    rw [hd] at hagree
    generalize hd' : m'.store.declare scope name (args.headD .null) false = r at hagree
    cases hagree with
    | ok hst =>
      rw [runFrom_bindParams_cons hd, runFrom_bindParams_cons hd']
      exact ih args.tail ⟨hst, hm.calls⟩ ho

theorem mirrors_unaryOperator (op : String) (v : Value) :
    Mirrors (unaryOperator op v) (unaryOperator op v) := by
  unfold unaryOperator
  split <;> first | exact mirrors_pure _ | exact mirrors_complain _

theorem mirrors_binaryOperator (op : String) (v w : Value) :
    Mirrors (do ofFault ((← store).binaryOperator op v w))
      (do ofFault ((← store).binaryOperator op v w)) := by
  refine mirrors_store_bind fun st st' hst => ?_
  rw [hst.binaryOperator]
  exact mirrors_ofFault _

/-! ### Nested steps -/

/-- **What every function of the evaluator does**, within a bound on nested steps: it runs
rearranged nodes alike. -/
structure Mirroring (b : Binding) (fuel : Nat) : Prop where
  exec : ∀ scope {s s'}, Rearranged s s' → Mirrors (exec b fuel scope s) (exec b fuel scope s')
  execPlain : ∀ scope {s s'}, Rearranged s s' →
    Mirrors (execPlain b fuel scope s) (execPlain b fuel scope s')
  execBody : ∀ scope {body body' m m'}, Rearranges body body' → m.Like m' →
    Admits m.store scope body →
    MirrorsAt m m' (execBody b fuel scope body) (execBody b fuel scope body')
  execAll : ∀ scope {body body'}, List.Forall₂ Rearranged body body' →
    Mirrors (execAll b fuel scope body) (execAll b fuel scope body')
  declareAll : ∀ scope constant {ds ds' : List (String × Option Node)},
    ds.map Prod.fst = ds'.map Prod.fst →
    List.Forall₂ (Option.Rel Rearranged) (ds.map Prod.snd) (ds'.map Prod.snd) →
    Mirrors (declareAll b fuel scope constant ds) (declareAll b fuel scope constant ds')
  forLoop : ∀ scope {t t' u u' x x'}, Option.Rel Rearranged t t' → Option.Rel Rearranged u u' →
    Rearranged x x' → Mirrors (forLoop b fuel scope t u x) (forLoop b fuel scope t' u' x')
  whileLoop : ∀ scope {t t' x x'}, Rearranged t t' → Rearranged x x' →
    Mirrors (whileLoop b fuel scope t x) (whileLoop b fuel scope t' x')
  doLoop : ∀ scope {t t' x x'}, Rearranged t t' → Rearranged x x' →
    Mirrors (doLoop b fuel scope t x) (doLoop b fuel scope t' x')
  evaluate : ∀ scope {e e'}, Rearranged e e' →
    Mirrors (evaluate b fuel scope e) (evaluate b fuel scope e')
  evaluateAll : ∀ scope {es es'}, List.Forall₂ Rearranged es es' →
    Mirrors (evaluateAll b fuel scope es) (evaluateAll b fuel scope es')
  templateText : ∀ scope {ps ps'}, List.Forall₂ (Sum.LiftRel Eq Rearranged) ps ps' →
    Mirrors (templateText b fuel scope ps) (templateText b fuel scope ps')
  assign : ∀ scope {t t'} v, Rearranged t t' →
    Mirrors (assign b fuel scope t v) (assign b fuel scope t' v)
  call : ∀ scope loc {f f' es es'} awaited, Rearranged f f' → List.Forall₂ Rearranged es es' →
    Mirrors (call b fuel scope loc f es awaited) (call b fuel scope loc f' es' awaited)
  callFunction : ∀ home name args,
    Mirrors (callFunction b fuel home name args) (callFunction b fuel home name args)

theorem mirroring_zero : Mirroring b 0 := by
  have spent {α : Type} : Mirrors (throw .spent : Eval α) (throw .spent) := mirrors_throw _
  constructor <;> intros
  all_goals
    simp only [exec, execPlain, execBody, execAll, declareAll, forLoop, whileLoop, doLoop, evaluate,
      evaluateAll, templateText, assign, call, callFunction]
    first
    | exact spent
    | exact spent _ _ ‹_›

section Nested

variable (h : Mirroring b fuel) (scope : ScopeRef)
include h

theorem mirrors_execPlain_succ {s s' : Node} (hs : Rearranged s s') :
    Mirrors (execPlain b (fuel + 1) scope s) (execPlain b (fuel + 1) scope s') := by
  unfold execPlain
  cases hs with
  | exprStmt l hx => exact (h.evaluate scope hx).bind fun _ => mirrors_pure _
  | varDecl l kind names inits => exact h.declareAll scope _ names inits
  | functionDecl | empty => exact mirrors_pure _
  | block l rest functions =>
    exact mirrors_newScope_bind scope fun ref m m' hm ho =>
      h.execBody ref ⟨rest, functions⟩ hm (admits_of_open ho _)
  | ifElse l ht hx hn =>
    refine (h.evaluate scope ht).bind fun v => ?_
    split
    · exact h.exec scope hx
    · cases hn with
      | none => exact mirrors_pure _
      | some hn => exact h.exec scope hn
  | forLoop l hi ht hu hx =>
    refine mirrors_newScope_bind scope fun ref m m' hm _ => ?_
    cases hi with
    | none => exact ((mirrors_pure ()).bind fun _ => h.forLoop ref ht hu hx) m m' hm
    | some hi => exact ((h.exec ref hi).bind fun _ => h.forLoop ref ht hu hx) m m' hm
  | whileLoop l ht hx => exact h.whileLoop scope ht hx
  | doWhile l hx ht => exact h.doLoop scope ht hx
  | returnStmt l hv =>
    cases hv with
    | none => exact mirrors_throw _
    | some hv => exact (h.evaluate scope hv).bind fun _ => mirrors_throw _
  | breakStmt l | continueStmt l => exact mirrors_throw _
  | _ => exact mirrors_complain _

theorem mirrors_declareAll_succ (constant : Bool) {ds ds' : List (String × Option Node)}
    (names : ds.map Prod.fst = ds'.map Prod.fst)
    (inits : List.Forall₂ (Option.Rel Rearranged) (ds.map Prod.snd) (ds'.map Prod.snd)) :
    Mirrors (declareAll b (fuel + 1) scope constant ds)
      (declareAll b (fuel + 1) scope constant ds') := by
  rcases ds with _ | ⟨⟨name, init⟩, ds⟩ <;> rcases ds' with _ | ⟨⟨name', init'⟩, ds'⟩
  · rw [declareAll]
    exact mirrors_pure _
  · cases names
  · cases names
  · obtain ⟨rfl, hnames⟩ := List.cons.inj names
    obtain ⟨hinit, hinits⟩ := List.forall₂_cons.mp inits
    have bound (v : Value) := (mirrors_declare scope name v constant).bind fun _ =>
      h.declareAll scope constant hnames hinits
    rw [declareAll.eq_def, declareAll.eq_def]
    cases hinit with
    | none => exact (mirrors_pure _).bind bound
    | some he => exact (h.evaluate scope he).bind bound

/-- A round, when the test has been made. -/
theorem mirrors_forRound {t t' u u' : Option Node} {x x' : Node} (ht : Option.Rel Rearranged t t')
    (hu : Option.Rel Rearranged u u') (hx : Rearranged x x') (goes : Bool) :
    Mirrors (if goes then do
      if ← Eval.loopBody (Running.exec b fuel scope x) then
        match u with
        | some e => let _ ← Running.evaluate b fuel scope e
        | none => pure ()
        Running.forLoop b fuel scope t u x
      else pure () else pure ())
    (if goes then do
      if ← Eval.loopBody (Running.exec b fuel scope x') then
        match u' with
        | some e => let _ ← Running.evaluate b fuel scope e
        | none => pure ()
        Running.forLoop b fuel scope t' u' x'
      else pure () else pure ()) := by
  have rest := h.forLoop scope ht hu hx
  split
  · refine (h.exec scope hx).loopBody.bind fun _ => ?_
    split
    · cases hu with
      | some he => exact (h.evaluate scope he).bind fun _ => rest
      | none => exact rest
    · exact mirrors_pure _
  · exact mirrors_pure _

theorem mirrors_forLoop_succ {t t' u u' : Option Node} {x x' : Node}
    (ht : Option.Rel Rearranged t t') (hu : Option.Rel Rearranged u u') (hx : Rearranged x x') :
    Mirrors (forLoop b (fuel + 1) scope t u x) (forLoop b (fuel + 1) scope t' u' x') := by
  rw [forLoop.eq_def, forLoop.eq_def]
  have round := mirrors_forRound h scope ht hu hx
  cases ht with
  | some he => exact (h.evaluate scope he).bind fun _ => (mirrors_pure _).bind round
  | none => exact (mirrors_pure _).bind round

theorem mirrors_whileLoop_succ {t t' x x' : Node} (ht : Rearranged t t') (hx : Rearranged x x') :
    Mirrors (whileLoop b (fuel + 1) scope t x) (whileLoop b (fuel + 1) scope t' x') := by
  rw [whileLoop, whileLoop]
  refine (h.evaluate scope ht).bind fun _ => ?_
  split
  · refine (h.exec scope hx).loopBody.bind fun _ => ?_
    split
    · exact h.whileLoop scope ht hx
    · exact mirrors_pure _
  · exact mirrors_pure _

theorem mirrors_doLoop_succ {t t' x x' : Node} (ht : Rearranged t t') (hx : Rearranged x x') :
    Mirrors (doLoop b (fuel + 1) scope t x) (doLoop b (fuel + 1) scope t' x') := by
  rw [doLoop, doLoop]
  refine (h.exec scope hx).loopBody.bind fun _ => ?_
  split
  · refine (h.evaluate scope ht).bind fun _ => ?_
    split
    · exact h.doLoop scope ht hx
    · exact mirrors_pure _
  · exact mirrors_pure _

theorem mirrors_evaluate_succ {e e' : Node} (he : Rearranged e e') :
    Mirrors (evaluate b (fuel + 1) scope e) (evaluate b (fuel + 1) scope e') := by
  unfold evaluate
  cases he with
  | literal => exact mirrors_pure _
  | identifier l name =>
    refine mirrors_store_bind fun st st' hst => ?_
    rw [hst.get]
    exact mirrors_ofComplaint _
  | template l hp => exact (h.templateText scope hp).bind fun _ => mirrors_pure _
  | array l hp => exact (h.evaluateAll scope hp).bind fun _ => mirrors_newList _
  | unary l op hx => exact (h.evaluate scope hx).bind fun _ => mirrors_unaryOperator _ _
  | binary l op hx hy =>
    exact (h.evaluate scope hx).bind fun _ => (h.evaluate scope hy).bind fun _ =>
      mirrors_binaryOperator _ _ _
  | logical l op hx hy =>
    refine (h.evaluate scope hx).bind fun _ => ?_
    split
    · exact h.evaluate scope hy
    · exact mirrors_pure _
  | conditional l ht hx hy =>
    refine (h.evaluate scope ht).bind fun _ => ?_
    split
    · exact h.evaluate scope hx
    · exact h.evaluate scope hy
  | assign l op hx hy =>
    have stored (v : Value) := (h.assign scope v hx).bind fun _ => mirrors_pure v
    dsimp only
    split
    · exact (h.evaluate scope hy).bind stored
    · exact (h.evaluate scope hx).bind fun _ => (h.evaluate scope hy).bind fun _ =>
        (mirrors_binaryOperator _ _ _).bind stored
  | update l op before hx =>
    exact (h.evaluate scope hx).bind fun _ => (mirrors_ofMishap _).bind fun _ =>
      (h.assign scope _ hx).bind fun _ => mirrors_pure _
  | call l hf hes => exact h.call scope l false hf hes
  | await l hx =>
    cases hx with
    | call l hf hes => exact h.call scope l true hf hes
    | _ => exact h.evaluate scope (by constructor <;> assumption)
  | member l hx name => exact (h.evaluate scope hx).bind fun _ => mirrors_memberGet _ _
  | index l hx hy =>
    exact (h.evaluate scope hx).bind fun _ => (h.evaluate scope hy).bind fun _ =>
      mirrors_element _ _
  | _ => exact mirrors_complain _

theorem mirrors_evaluateAll_succ {es es' : List Node} (hes : List.Forall₂ Rearranged es es') :
    Mirrors (evaluateAll b (fuel + 1) scope es) (evaluateAll b (fuel + 1) scope es') := by
  cases hes with
  | nil =>
    rw [evaluateAll]
    exact mirrors_pure _
  | cons he hes =>
    rw [evaluateAll, evaluateAll]
    exact (h.evaluate scope he).bind fun _ => (h.evaluateAll scope hes).bind fun _ =>
      mirrors_pure _

theorem mirrors_templateText_succ {ps ps' : List (String ⊕ Node)}
    (hps : List.Forall₂ (Sum.LiftRel Eq Rearranged) ps ps') :
    Mirrors (templateText b (fuel + 1) scope ps) (templateText b (fuel + 1) scope ps') := by
  cases hps with
  | nil =>
    rw [templateText]
    exact mirrors_pure _
  | cons hp hps =>
    have rest (text : String) := (h.templateText scope hps).bind fun more =>
      mirrors_pure (text ++ more)
    cases hp with
    | inl hs =>
      rw [templateText, templateText, hs]
      exact (mirrors_pure _).bind rest
    | inr he =>
      rw [templateText, templateText]
      exact (h.evaluate scope he).bind fun _ => (mirrors_display _).bind rest

theorem mirrors_assign_succ {t t' : Node} (v : Value) (ht : Rearranged t t') :
    Mirrors (assign b (fuel + 1) scope t v) (assign b (fuel + 1) scope t' v) := by
  unfold assign
  cases ht with
  | identifier l name =>
    have assigned := mirrors_change (r := (·.assign scope name v))
      (fun _ _ h => h.assign scope name v) (mirrors_pure ())
    simpa only [bind_pure_unit] using assigned
  | index l hx hy =>
    refine (h.evaluate scope hx).bind fun w => ?_
    split
    · exact (h.evaluate scope hy).bind fun _ => mirrors_storeAt _ _ _
    · exact mirrors_complain _
  | _ => exact mirrors_complain _

theorem mirrors_call_succ (loc : Option Loc) {f f' : Node} {es es' : List Node} (awaited : Bool)
    (hf : Rearranged f f') (hes : List.Forall₂ Rearranged es es') :
    Mirrors (call b (fuel + 1) scope loc f es awaited)
      (call b (fuel + 1) scope loc f' es' awaited) := by
  rw [call, call]
  refine (h.evaluate scope hf).bind fun g => (h.evaluateAll scope hes).bind fun vs => ?_
  have hname : calleeName f g = calleeName f' g := by cases hf <;> rfl
  split
  · exact h.callFunction _ _ _
  · rw [hname]
    refine Mirrors.withFrame (Mirrors.inCall ?_ _ _) _
    split
    · exact (mirrors_complain _).bind fun _ => mirrors_callHost b fuel hf g vs
    · exact mirrors_callHost b fuel hf g vs

omit scope

/-- A call of a function, when the limit has been looked at. -/
theorem mirrors_entered (home : ScopeRef) (name : String) (args : List Value) :
    Mirrors (do
      match (← store).closure? home name with
      | none => return .null
      | some c =>
        let inner ← newScope home
        bindParams inner c.params args
        withFrame ⟨name, args⟩ do returning (execBody b fuel inner (bodyOf c.body)))
    (do
      match (← store).closure? home name with
      | none => return .null
      | some c =>
        let inner ← newScope home
        bindParams inner c.params args
        withFrame ⟨name, args⟩ do returning (execBody b fuel inner (bodyOf c.body))) := by
  refine mirrors_store_bind fun st st' hst => ?_
  have hc := hst.closure? home name
  generalize st.closure? home name = c at hc ⊢
  generalize st'.closure? home name = c' at hc ⊢
  cases hc with
  | none => exact mirrors_pure _
  | some hc =>
    dsimp only
    rw [hc.params]
    refine mirrors_newScope_bind home fun ref m m' hm ho => ?_
    rw [MirrorsAt, runFrom_bind, runFrom_bind]
    refine (alike_bindParams _ args hm ho).bind ?_
    rintro ⟨i | _, n⟩ ⟨_, n'⟩ ⟨⟨rfl, hn⟩, ho⟩
    · exact .done ⟨rfl, hn⟩
    · exact MirrorsAt.withFrame (.returning (h.execBody ref (rearranges_bodyOf hc.body)
        ⟨hn.store, congrArg (⟨name, args⟩ :: ·) hn.calls⟩ (admits_of_open ho _)))

theorem mirrors_callFunction_succ (home : ScopeRef) (name : String) (args : List Value) :
    Mirrors (callFunction b (fuel + 1) home name args)
      (callFunction b (fuel + 1) home name args) := by
  rw [callFunction]
  have entered := mirrors_entered h home name args
  refine mirrors_get_bind fun m m' hm => ?_
  rw [hm.calls]
  split
  · exact (mirrors_throw _).bind fun _ => entered
  · exact entered

theorem mirrorsAt_execBody_succ (scope : ScopeRef) {body body' : List Node}
    (hb : Rearranges body body') (hm : m.Like m') (ha : Admits m.store scope body) :
    MirrorsAt m m' (execBody b (fuel + 1) scope body) (execBody b (fuel + 1) scope body') := by
  rw [MirrorsAt, execBody, execBody, runFrom_bind, runFrom_bind, runFrom_hoist ha,
    runFrom_hoist (ha.like hm.store hb)]
  exact h.execAll scope hb.rest _ _ ⟨hm.store.hoisted hb scope, hm.calls⟩

theorem mirroring_succ : Mirroring b (fuel + 1) where
  exec scope s s' hs := by
    rw [Running.exec, Running.exec, hs.loc]
    exact (h.execPlain scope hs).inStatement _
  execPlain scope _ _ hs := mirrors_execPlain_succ h scope hs
  execBody scope _ _ _ _ hb hm ha := mirrorsAt_execBody_succ h scope hb hm ha
  execAll scope body body' hbody := by
    cases hbody with
    | nil =>
      rw [Running.execAll]
      exact mirrors_pure _
    | cons hs hrest =>
      rw [Running.execAll, Running.execAll]
      exact (h.exec scope hs).bind fun _ => h.execAll scope hrest
  declareAll scope constant _ _ names inits := mirrors_declareAll_succ h scope constant names inits
  forLoop scope _ _ _ _ _ _ ht hu hx := mirrors_forLoop_succ h scope ht hu hx
  whileLoop scope _ _ _ _ ht hx := mirrors_whileLoop_succ h scope ht hx
  doLoop scope _ _ _ _ ht hx := mirrors_doLoop_succ h scope ht hx
  evaluate scope _ _ he := mirrors_evaluate_succ h scope he
  evaluateAll scope _ _ hes := mirrors_evaluateAll_succ h scope hes
  templateText scope _ _ hps := mirrors_templateText_succ h scope hps
  assign scope _ _ v ht := mirrors_assign_succ h scope v ht
  call scope loc _ _ _ _ awaited hf hes := mirrors_call_succ h scope loc awaited hf hes
  callFunction := mirrors_callFunction_succ h

end Nested

/-- **All that is run mirrors what is rearranged**, within every bound on nested steps. -/
theorem mirroring (b : Binding) (fuel : Nat) : Mirroring b fuel := by
  induction fuel with
  | zero => exact mirroring_zero
  | succ fuel ih => exact mirroring_succ ih

end Running
end LedSketch
