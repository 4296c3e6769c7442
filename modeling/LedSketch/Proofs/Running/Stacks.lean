import LedSketch.Proofs.Running.Tracking

/-!
# The stacks of reported errors

Every function of the evaluator reports what its bare counterpart stops with. Statements and bodies
report every error; expressions and loops may hand on one that nobody has reported yet, but none
that has left a call: what a call runs is a function of the library, which reports its own errors,
or the statements of a body, whose functions can always be declared in its fresh scope.

* `Running.entered_of_open`: the body of a function reports every error.
* `Running.Tracked`, `Running.tracked`: the evaluator tracks the bare one.
-/

namespace LedSketch

open Eval
open Interrupt (Unreported Quiet)

/-! ## What both do -/

namespace Eval

variable {α : Type} {L : Interrupt → Prop}

/-- What upholds the active calls and ends plainly tracks itself. -/
theorem tracks_plain {x : Eval α}
    (h : ∀ I, Memory.OfScopes I → Upholds I Interrupt.Plain x) : Tracks Unreported x x :=
  tracks_self fun cs => (h (fun m => m.calls = cs) fun _ _ hc _ hm => hc.trans hm).mono fun i hi => by
    cases i with
    | sketch e => exact hi.2.1
    | _ => trivial

theorem tracks_store : Tracks L store store := tracks_self fun _ => upholds_store

theorem tracks_setStore (st : Store) : Tracks L (setStore st) (setStore st) :=
  tracks_self fun _ => upholds_modify fun _ hm => hm

theorem tracks_newScope (parent : ScopeRef) : Tracks L (newScope parent) (newScope parent) :=
  tracks_store.bind fun _ => (tracks_setStore _).bind fun _ => tracks_pure _

theorem tracks_complain (c : Complaint) : Tracks Unreported (complain c : Eval α) (complain c) :=
  tracks_throw rfl

theorem tracks_ofMishap (r : Except Mishap α) : Tracks Unreported (ofMishap r) (ofMishap r) := by
  cases r with
  | ok a => exact tracks_pure a
  | error m => exact tracks_throw trivial

theorem tracks_ofComplaint (r : Except Complaint α) :
    Tracks Unreported (ofComplaint r) (ofComplaint r) := by
  cases r with
  | ok a => exact tracks_pure a
  | error c => exact tracks_complain c

theorem tracks_display (v : Value) : Tracks Unreported (display v) (display v) :=
  tracks_store.bind fun _ => tracks_ofMishap _

end Eval

/-! ## Entering a function -/

namespace Running

variable {b : Binding} {fuel : Nat}

theorem tracks_update {α : Type} {r : Store → Except Complaint Store} {x : Eval α}
    (hx : Tracks Unreported x x) : Tracks Unreported
      (do setStore (← ofComplaint (r (← store))); x)
      (do setStore (← ofComplaint (r (← store))); x) :=
  tracks_store.bind fun _ => (tracks_ofComplaint _).bind fun _ => (tracks_setStore _).bind fun _ => hx

theorem tracks_hoist (scope : ScopeRef) (body : List Node) :
    Tracks Unreported (hoist scope body) (hoist scope body) := by
  fun_induction hoist scope body with
  | case1 => exact tracks_pure _
  | case2 _ _ _ _ _ _ ih => exact tracks_update ih
  | case3 _ _ _ ih => exact ih

theorem tracks_declare (scope : ScopeRef) (name : String) (v : Value) (constant : Bool) :
    Tracks Unreported (declare scope name v constant) (declare scope name v constant) :=
  tracks_store.bind fun _ => (tracks_ofComplaint _).bind fun _ => tracks_setStore _

theorem tracks_unaryOperator (op : String) (v : Value) :
    Tracks Unreported (unaryOperator op v) (unaryOperator op v) := by
  unfold unaryOperator
  split
  all_goals first | exact tracks_pure _ | exact tracks_complain _

theorem tracks_binaryOperator (st : Store) (op : String) (x y : Value) : Tracks Unreported
    (ofFault (st.binaryOperator op x y)) (ofFault (st.binaryOperator op x y)) := by
  match hr : st.binaryOperator op x y with
  | .ok v => exact tracks_pure v
  | .error (.sketch e) => exact tracks_throw (by rw [Store.eq_of_binaryOperator_sketch hr]; rfl)
  | .error (.mishap m) => exact tracks_throw trivial

/-- A call of a function gets to its body, in a scope without constants. -/
theorem enter_runs (home : ScopeRef) (names : List String) (args : List Value) (m : Memory) :
    ∃ ref st, st.Open ref ∧ ∀ k : ScopeRef → Eval Value, (do
      let inner ← newScope home
      bindParams inner names args
      k inner).runFrom m = (k ref).runFrom { m with store := st } := by
  obtain ⟨st, hrun, ho⟩ := bindParams_of_open names args
    (m := { m with store := (m.store.newScope (some home)).2 })
    (Store.open_newScope m.store (some home))
  refine ⟨m.store.scopes.size, st, ho, fun k => ?_⟩
  change ((bindParams m.store.scopes.size names args >>= fun _ => k m.store.scopes.size).runFrom
    { m with store := (m.store.newScope (some home)).2 }) = _
  rw [runFrom_bind, hrun]
  rfl

/-- A call that is not nested too deep runs the body of its function. -/
theorem runFrom_callFunction {home : ScopeRef} {name : String} {args : List Value} {m : Memory}
    (hm : m.calls.length < callLimit) : (callFunction b (fuel + 1) home name args).runFrom m =
      Eval.runFrom (match m.store.closure? home name with
        | none => return .null
        | some c => do
          let inner ← newScope home
          bindParams inner c.params args
          withFrame ⟨name, args⟩ do returning (execBody b fuel inner (bodyOf c.body))) m := by
  rw [callFunction, runFrom_bind]
  change (Eval.runFrom (if callLimit ≤ m.calls.length then _ else _) m) = _
  rw [if_neg (Nat.not_le.mpr hm)]
  rfl

theorem runFrom_bareCallFunction {home : ScopeRef} {name : String} {args : List Value} {m : Memory}
    (hm : m.calls.length < callLimit) : (Bare.callFunction b (fuel + 1) home name args).runFrom m =
      Eval.runFrom (match m.store.closure? home name with
        | none => return .null
        | some c => do
          let inner ← newScope home
          bindParams inner c.params args
          entering ⟨name, args⟩ do returning (Bare.execBody b fuel inner (bodyOf c.body))) m := by
  rw [Bare.callFunction, runFrom_bind]
  change (Eval.runFrom (if callLimit ≤ m.calls.length then _ else _) m) = _
  rw [if_neg (Nat.not_le.mpr hm)]
  rfl

/-! ## The evaluator -/

/-- **What every function of the evaluator reports** of what its bare counterpart stops with, within
a bound on nested steps. -/
structure Tracked (b : Binding) (fuel : Nat) : Prop where
  exec : ∀ scope s, Tracks Quiet (exec b fuel scope s) (Bare.exec b fuel scope s)
  execPlain : ∀ scope s, Tracks Unreported (execPlain b fuel scope s) (Bare.execPlain b fuel scope s)
  execAll : ∀ scope body, Tracks Quiet (execAll b fuel scope body) (Bare.execAll b fuel scope body)
  execBody : ∀ scope body,
    Tracks Unreported (execBody b fuel scope body) (Bare.execBody b fuel scope body)
  /-- In a scope without constants a body reports every error. -/
  entered : ∀ scope body m, m.store.Open scope →
    TracksAt Quiet (Running.execBody b fuel scope body) (Bare.execBody b fuel scope body) m
  declareAll : ∀ scope constant ds,
    Tracks Unreported (declareAll b fuel scope constant ds) (Bare.declareAll b fuel scope constant ds)
  forLoop : ∀ scope test update body, Tracks Unreported (forLoop b fuel scope test update body)
    (Bare.forLoop b fuel scope test update body)
  whileLoop : ∀ scope test body,
    Tracks Unreported (whileLoop b fuel scope test body) (Bare.whileLoop b fuel scope test body)
  doLoop : ∀ scope test body,
    Tracks Unreported (doLoop b fuel scope test body) (Bare.doLoop b fuel scope test body)
  evaluate : ∀ scope e, Tracks Unreported (evaluate b fuel scope e) (Bare.evaluate b fuel scope e)
  evaluateAll : ∀ scope es,
    Tracks Unreported (evaluateAll b fuel scope es) (Bare.evaluateAll b fuel scope es)
  templateText : ∀ scope parts,
    Tracks Unreported (templateText b fuel scope parts) (Bare.templateText b fuel scope parts)
  assign : ∀ scope target v,
    Tracks Unreported (assign b fuel scope target v) (Bare.assign b fuel scope target v)
  call : ∀ scope loc callee args awaited, Tracks Unreported (call b fuel scope loc callee args awaited)
    (Bare.call b fuel scope callee args awaited)
  /-- A call of a function reports every error, unless calls are nested too deep. -/
  called : ∀ home name args m, m.calls.length < callLimit → TracksAt Quiet
    (callFunction b fuel home name args) (Bare.callFunction b fuel home name args) m
  callFunction : ∀ home name args, Tracks Unreported (callFunction b fuel home name args)
    (Bare.callFunction b fuel home name args)

theorem tracked_zero : Tracked b 0 := by
  have spent {L : Interrupt → Prop} {α : Type} (h : L .spent) (m : Memory) :
      TracksAt L (throw .spent : Eval α) (throw .spent) m := tracks_throw h m
  constructor <;> intros
  all_goals try intro m
  all_goals
    simp only [exec, execPlain, execBody, execAll, declareAll, forLoop, whileLoop, doLoop, evaluate,
      evaluateAll, templateText, assign, call, callFunction, Bare.exec, Bare.execPlain,
      Bare.execBody, Bare.execAll, Bare.declareAll, Bare.forLoop, Bare.whileLoop, Bare.doLoop,
      Bare.evaluate, Bare.evaluateAll, Bare.templateText, Bare.assign, Bare.call, Bare.callFunction]
    exact spent trivial _

section Steps

variable (h : Tracked b fuel)
include h

theorem Tracked.loopBody (scope : ScopeRef) (body : Node) : Tracks Unreported
    (Eval.loopBody (Running.exec b fuel scope body)) (Eval.loopBody (Bare.exec b fuel scope body)) :=
  Tracks.mono (fun m => (h.exec scope body m).loopBody) fun _ => Quiet.unreported

theorem tracks_execPlain_succ (scope : ScopeRef) (s : Node) :
    Tracks Unreported (execPlain b (fuel + 1) scope s) (Bare.execPlain b (fuel + 1) scope s) := by
  have quiet {x y : Eval Unit} (hxy : Tracks Quiet x y) : Tracks Unreported x y :=
    hxy.mono fun _ => Quiet.unreported
  unfold execPlain Bare.execPlain
  cases s with
  | exprStmt l e => exact (h.evaluate scope e).bind fun _ => tracks_pure _
  | varDecl l kind ds => exact h.declareAll scope _ ds
  | functionDecl | empty => exact tracks_pure _
  | block l body => exact (tracks_newScope scope).bind fun inner => h.execBody inner body
  | ifElse l test yes no =>
    refine (h.evaluate scope test).bind fun v => ?_
    split
    · exact quiet (h.exec scope yes)
    · cases no with
      | some no => exact quiet (h.exec scope no)
      | none => exact tracks_pure _
  | forLoop l init test update body =>
    refine (tracks_newScope scope).bind fun inner => ?_
    cases init with
    | some init => exact (quiet (h.exec inner init)).bind fun _ => h.forLoop inner test update body
    | none => exact h.forLoop inner test update body
  | whileLoop l test body => exact h.whileLoop scope test body
  | doWhile l body test => exact h.doLoop scope test body
  | returnStmt l value =>
    cases value with
    | none => exact tracks_throw trivial
    | some e => exact (h.evaluate scope e).bind fun _ => tracks_throw trivial
  | breakStmt | continueStmt => exact tracks_throw trivial
  | _ => exact tracks_complain _

theorem tracks_declareAll_succ (scope : ScopeRef) (constant : Bool)
    (ds : List (String × Option Node)) : Tracks Unreported
      (declareAll b (fuel + 1) scope constant ds) (Bare.declareAll b (fuel + 1) scope constant ds) := by
  have declared (name : String) (ds : List (String × Option Node)) (v : Value) : Tracks Unreported
      (do declare scope name v constant; declareAll b fuel scope constant ds)
      (do declare scope name v constant; Bare.declareAll b fuel scope constant ds) :=
    (tracks_declare scope name v constant).bind fun _ => h.declareAll scope constant ds
  rcases ds with _ | ⟨⟨name, _ | e⟩, ds⟩ <;> rw [declareAll, Bare.declareAll]
  · exact tracks_pure _
  · exact (tracks_pure _).bind fun _ => declared _ _ _
  · exact (h.evaluate scope e).bind fun _ => declared _ _ _

/-- A round, when the test has been made. -/
theorem tracks_forRound (scope : ScopeRef) (test update : Option Node) (body : Node) (goes : Bool) :
    Tracks Unreported (if goes then do
      if ← Eval.loopBody (Running.exec b fuel scope body) then
        match update with
        | some e => let _ ← Running.evaluate b fuel scope e
        | none => pure ()
        Running.forLoop b fuel scope test update body
      else pure () else pure ()) (if goes then do
      if ← Eval.loopBody (Bare.exec b fuel scope body) then
        match update with
        | some e => let _ ← Bare.evaluate b fuel scope e
        | none => pure ()
        Bare.forLoop b fuel scope test update body
      else pure () else pure ()) := by
  split
  · refine (h.loopBody scope body).bind fun _ => ?_
    split
    · cases update with
      | some e => exact (h.evaluate scope e).bind fun _ => h.forLoop scope test _ body
      | none => exact h.forLoop scope test _ body
    · exact tracks_pure _
  · exact tracks_pure _

theorem tracks_forLoop_succ (scope : ScopeRef) (test update : Option Node) (body : Node) :
    Tracks Unreported (forLoop b (fuel + 1) scope test update body)
      (Bare.forLoop b (fuel + 1) scope test update body) := by
  rw [forLoop.eq_def, Bare.forLoop.eq_def]
  have round := tracks_forRound h scope test update body
  cases test with
  | some e => exact (h.evaluate scope e).bind fun _ => (tracks_pure _).bind round
  | none => exact (tracks_pure _).bind round

theorem tracks_whileLoop_succ (scope : ScopeRef) (test body : Node) : Tracks Unreported
    (whileLoop b (fuel + 1) scope test body) (Bare.whileLoop b (fuel + 1) scope test body) := by
  rw [whileLoop, Bare.whileLoop]
  refine (h.evaluate scope test).bind fun _ => ?_
  split
  · refine (h.loopBody scope body).bind fun _ => ?_
    split
    · exact h.whileLoop scope test body
    · exact tracks_pure _
  · exact tracks_pure _

theorem tracks_doLoop_succ (scope : ScopeRef) (test body : Node) : Tracks Unreported
    (doLoop b (fuel + 1) scope test body) (Bare.doLoop b (fuel + 1) scope test body) := by
  rw [doLoop, Bare.doLoop]
  refine (h.loopBody scope body).bind fun _ => ?_
  split
  · refine (h.evaluate scope test).bind fun _ => ?_
    split
    · exact h.doLoop scope test body
    · exact tracks_pure _
  · exact tracks_pure _

theorem tracks_evaluate_succ (scope : ScopeRef) (e : Node) :
    Tracks Unreported (evaluate b (fuel + 1) scope e) (Bare.evaluate b (fuel + 1) scope e) := by
  unfold evaluate Bare.evaluate
  cases e with
  | literal l v => exact tracks_pure _
  | identifier l name => exact tracks_store.bind fun _ => tracks_ofComplaint _
  | template l parts => exact (h.templateText scope parts).bind fun _ => tracks_pure _
  | array l items =>
    exact (h.evaluateAll scope items).bind fun vs => tracks_plain fun _ hI => upholds_newList hI vs
  | unary l op x => exact (h.evaluate scope x).bind fun _ => tracks_unaryOperator _ _
  | binary l op x y =>
    exact (h.evaluate scope x).bind fun _ => (h.evaluate scope y).bind fun _ =>
      tracks_store.bind fun _ => tracks_binaryOperator _ _ _ _
  | logical l op x y =>
    refine (h.evaluate scope x).bind fun _ => ?_
    split
    · exact h.evaluate scope y
    · exact tracks_pure _
  | conditional l x y z =>
    refine (h.evaluate scope x).bind fun _ => ?_
    split
    · exact h.evaluate scope y
    · exact h.evaluate scope z
  | assign l op target value =>
    have stored (v : Value) := (h.assign scope target v).bind fun _ => tracks_pure v
    dsimp only
    split
    · exact (h.evaluate scope value).bind stored
    · exact (h.evaluate scope target).bind fun _ => (h.evaluate scope value).bind fun _ =>
        tracks_store.bind fun _ => (tracks_binaryOperator _ _ _ _).bind stored
  | update l op before target =>
    exact (h.evaluate scope target).bind fun _ => (tracks_ofMishap _).bind fun _ =>
      (h.assign scope target _).bind fun _ => tracks_pure _
  | call l callee args => exact h.call scope l callee args false
  | await l e =>
    cases e with
    | call l callee args => exact h.call scope l callee args true
    | _ => exact h.evaluate scope _
  | member l x name =>
    exact (h.evaluate scope x).bind fun _ => tracks_plain fun _ hI => upholds_memberGet hI _ _
  | index l x k =>
    exact (h.evaluate scope x).bind fun _ => (h.evaluate scope k).bind fun _ =>
      tracks_plain fun _ _ => upholds_element _ _
  | _ => exact tracks_complain _

theorem tracks_templateText_succ (scope : ScopeRef) (parts : List (String ⊕ Node)) :
    Tracks Unreported (templateText b (fuel + 1) scope parts)
      (Bare.templateText b (fuel + 1) scope parts) := by
  rcases parts with _ | ⟨s | e, parts⟩ <;> rw [templateText, Bare.templateText]
  · exact tracks_pure _
  · exact (tracks_pure _).bind fun _ => (h.templateText scope parts).bind fun _ => tracks_pure _
  · exact (h.evaluate scope e).bind fun _ => (tracks_display _).bind fun _ =>
      (h.templateText scope parts).bind fun _ => tracks_pure _

theorem tracks_assign_succ (scope : ScopeRef) (target : Node) (v : Value) : Tracks Unreported
    (assign b (fuel + 1) scope target v) (Bare.assign b (fuel + 1) scope target v) := by
  unfold assign Bare.assign
  cases target with
  | identifier l name =>
    exact tracks_store.bind fun _ => (tracks_ofComplaint _).bind fun _ => tracks_setStore _
  | index l object key =>
    refine (h.evaluate scope object).bind fun w => ?_
    cases w with
    | list ref =>
      exact (h.evaluate scope key).bind fun _ => tracks_plain fun _ hI => upholds_storeAt hI _ _ _
    | _ => exact tracks_complain _
  | _ => exact tracks_complain _

theorem tracks_call_succ (scope : ScopeRef) (loc : Option Loc) (callee : Node) (args : List Node)
    (awaited : Bool) : Tracks Unreported (call b (fuel + 1) scope loc callee args awaited)
      (Bare.call b (fuel + 1) scope callee args awaited) := by
  rw [call, Bare.call]
  refine (h.evaluate scope callee).bind fun f => (h.evaluateAll scope args).bind fun vs => ?_
  -- what is no function of the sketch is called in a frame of its own, and reports its errors there
  have library (f : Value) (name : String) : Tracks Unreported
      (withFrame ⟨name, vs⟩ <| inCall name loc do
        if f = .board .delay && !awaited then complain (.cannotPauseHere name)
        callHost b fuel callee f vs)
      (entering ⟨name, vs⟩ do
        if f = .board .delay && !awaited then complain (.cannotPauseHere name)
        callHost b fuel callee f vs) := by
    have host : Tracks Unreported (callHost b fuel callee f vs) (callHost b fuel callee f vs) :=
      tracks_plain fun _ hI => upholds_callHost hI _ _ _ _ _
    refine Tracks.mono (L := Quiet) (fun m => ?_) fun _ => Quiet.unreported
    refine TracksAt.withFrame (TracksAt.inCall ?_ _ _)
    split
    · exact (tracks_complain _).bind (fun _ => host) _
    · exact host _
  cases f with
  | function home name => exact h.callFunction home name vs
  | _ => exact library _ _

theorem tracksAt_called_succ (home : ScopeRef) (name : String) (args : List Value) (m : Memory)
    (hm : m.calls.length < callLimit) : TracksAt Quiet
      (callFunction b (fuel + 1) home name args) (Bare.callFunction b (fuel + 1) home name args) m := by
  rw [TracksAt, runFrom_callFunction hm, runFrom_bareCallFunction hm]
  cases m.store.closure? home name with
  | none => exact tracks_pure _ m
  | some c =>
    -- both enter the same scope, whose body reports every error
    obtain ⟨inner, st, ho, hrun⟩ := enter_runs home c.params args m
    rw [hrun, hrun]
    have hbody := h.entered inner (bodyOf c.body) { m with store := st, calls := ⟨name, args⟩ :: m.calls } ho
    exact hbody.returning.withFrame.mono fun _ _ hr => ⟨hr.calls, hr.store, hr.ends⟩

theorem tracks_callFunction_succ (home : ScopeRef) (name : String) (args : List Value) :
    Tracks Unreported (callFunction b (fuel + 1) home name args)
      (Bare.callFunction b (fuel + 1) home name args) := by
  intro m
  by_cases hm : m.calls.length < callLimit
  · exact (tracksAt_called_succ h home name args m hm).mono fun _ _ hr =>
      hr.mono fun _ => Quiet.unreported
  · have deep : ∀ {x y : Eval Value}, TracksAt Unreported
        (throw (.mishap .tooDeep) >>= fun (_ : PUnit) => x)
        (throw (.mishap .tooDeep) >>= fun (_ : PUnit) => y) m :=
      fun {x y} => .done (.same rfl (by rintro _ ⟨⟩; trivial))
    rw [callFunction, Bare.callFunction, TracksAt, runFrom_bind, runFrom_bind]
    change Act.Alike _ (Eval.runFrom (if callLimit ≤ m.calls.length then _ else _) m)
      (Eval.runFrom (if callLimit ≤ m.calls.length then _ else _) m)
    rw [if_pos (Nat.not_lt.mp hm), if_pos (Nat.not_lt.mp hm)]
    exact deep

theorem tracked_succ : Tracked b (fuel + 1) where
  exec scope s m := by
    rw [Running.exec, Bare.exec]
    exact TracksAt.inStatement (h.execPlain scope s m) s.loc
  execPlain := tracks_execPlain_succ h
  execBody scope body := by
    rw [Running.execBody, Bare.execBody]
    exact (tracks_hoist scope body).bind fun _ =>
      (h.execAll scope _).mono fun _ => Quiet.unreported
  entered scope body m ho := by
    obtain ⟨st, hrun, -⟩ := hoist_of_open body ho
    rw [Running.execBody, Bare.execBody, TracksAt, runFrom_bind, runFrom_bind, hrun]
    exact (h.execAll scope _ { m with store := st }).mono fun _ _ hr => ⟨hr.calls, hr.store, hr.ends⟩
  execAll scope body := by
    cases body with
    | nil => rw [Running.execAll, Bare.execAll]; exact tracks_pure _
    | cons s rest =>
      rw [Running.execAll, Bare.execAll]
      exact (h.exec scope s).bind fun _ => h.execAll scope rest
  declareAll := tracks_declareAll_succ h
  forLoop := tracks_forLoop_succ h
  whileLoop := tracks_whileLoop_succ h
  doLoop := tracks_doLoop_succ h
  evaluate := tracks_evaluate_succ h
  evaluateAll scope es := by
    cases es with
    | nil => rw [Running.evaluateAll, Bare.evaluateAll]; exact tracks_pure _
    | cons e rest =>
      rw [Running.evaluateAll, Bare.evaluateAll]
      exact (h.evaluate scope e).bind fun _ => (h.evaluateAll scope rest).bind fun _ => tracks_pure _
  templateText := tracks_templateText_succ h
  assign := tracks_assign_succ h
  call := tracks_call_succ h
  called := tracksAt_called_succ h
  callFunction := tracks_callFunction_succ h

end Steps

/-- **The evaluator tracks the bare one**, within every bound on nested steps. -/
theorem tracked (b : Binding) (fuel : Nat) : Tracked b fuel := by
  induction fuel with
  | zero => exact tracked_zero
  | succ fuel ih => exact tracked_succ ih

end Running
end LedSketch
