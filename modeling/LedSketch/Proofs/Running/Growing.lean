import LedSketch.Proofs.Running.Changes
import LedSketch.Proofs.Running.Upholding

/-!
# Runs take steps

Whatever the evaluator runs, it changes scopes step by step, and it declares names only in scopes
that it has made itself, and in the scope of a statement that stands alone or in a body. So what no
step changes, no run changes, however it ends.

* `Eval.Grows`: taking steps only.
* `Running.Growing`, `Running.growing`: every function of the evaluator, by induction on the bound
  on nested steps.
-/

namespace LedSketch

open Store (Grown Step Fresh)

namespace Eval

variable {α β : Type} {D : ScopeRef → Prop} {st : Store} {x : Eval α}

/-- **Takes steps only** in what has grown from a store, however it ends. -/
abbrev Grows (D : ScopeRef → Prop) (st : Store) (x : Eval α) : Prop :=
  Upholds (fun m => Grown D st m.store) (fun _ => True) x

/-- What the library does to a store is no change of its scopes. -/
theorem ofScopes_grown : Memory.OfScopes fun m => Grown D st m.store :=
  fun _ _ _ hscopes h => h.tail (.aside hscopes)

theorem Upholds.grows (h : Upholds (fun m => Grown D st m.store) Interrupt.Plain x) :
    Grows D st x :=
  h.mono fun _ _ => trivial

theorem grows_throw (i : Interrupt) : Grows D st (throw i : Eval α) := upholds_throw trivial

theorem grows_complain (c : Complaint) : Grows D st (complain c : Eval α) := grows_throw _

theorem grows_ofComplaint (r : Except Complaint α) : Grows D st (ofComplaint r) := by
  cases r with
  | ok a => exact upholds_pure a
  | error c => exact grows_complain c

theorem grows_ofFault (r : Except Fault α) : Grows D st (ofFault r) := by
  rcases r with (_ | _) | a
  · exact grows_throw _
  · exact grows_throw _
  · exact upholds_pure a

/-- A step of the store, if it is made at all. -/
theorem grows_step {r : Store → Except Complaint Store}
    (hr : ∀ st₁ st₂, r st₁ = .ok st₂ → Step D st₁ st₂) (hx : Grows D st x) : Grows D st (do
      setStore (← ofComplaint (r (← store)))
      x) := by
  refine upholds_store_bind fun m hm => ?_
  cases h : r m.store with
  | error c => exact grows_complain c m hm
  | ok st₂ => exact hx _ (hm.tail (hr _ _ h))

/-- Names may be declared in a scope that has just been made. -/
theorem grows_newScope_bind (hD : ∀ i, st.Fresh i → D i) {f : ScopeRef → Eval α} (parent : ScopeRef)
    (hf : ∀ inner, D inner → Grows D st (f inner)) : Grows D st (newScope parent >>= f) := by
  intro m hm
  rw [runFrom_bind]
  exact hf _ (hD _ hm.keeps.size) _ (hm.tail (.newScope m.store (some parent)))

/-! ## Constructs that catch -/

theorem grows_throwAt (loc : Option Loc) (e : SketchError) : Grows D st (throwAt loc e : Eval α) :=
  upholds_get.bind fun _ => grows_throw _

theorem Grows.inStatement (hx : Grows D st x) (loc : Option Loc) :
    Grows D st (inStatement loc x) := by
  refine Upholds.tryCatch hx fun i _ => ?_
  split
  · exact grows_throwAt loc _
  · exact grows_throwAt loc _
  · exact grows_throwAt loc _
  · exact grows_throw _

theorem Grows.inCall (hx : Grows D st x) (name : String) (loc : Option Loc) :
    Grows D st (inCall name loc x) := by
  refine Upholds.tryCatch hx fun i _ => ?_
  split
  · exact grows_throwAt loc _
  · exact grows_throwAt loc _
  · exact grows_throw _

theorem Grows.withFrame (hx : Grows D st x) (f : Frame) : Grows D st (withFrame f x) := by
  intro m hm
  rw [runFrom_withFrame]
  exact (hx { m with calls := f :: m.calls } hm).bind fun _ hr => hr

theorem Grows.loopBody {x : Eval Unit} (hx : Grows D st x) : Grows D st (loopBody x) := by
  refine Upholds.tryCatch (Upholds.bind hx fun _ => upholds_pure true) fun i _ => ?_
  split
  · exact upholds_pure false
  · exact upholds_pure true
  · exact grows_throw _

theorem Grows.returning {x : Eval Unit} (hx : Grows D st x) : Grows D st (returning x) := by
  refine Upholds.tryCatch (Upholds.bind hx fun _ => upholds_pure Value.null) fun i _ => ?_
  split
  · exact upholds_pure _
  · exact grows_throw _

end Eval

namespace Running

open Eval

variable {b : Binding} {fuel : Nat} {D : ScopeRef → Prop} {st : Store}

/-- **What every function of the evaluator does**, within a bound on nested steps: it takes steps.
Statements and bodies may declare names in the scope that they stand in. -/
structure Growing (b : Binding) (D : ScopeRef → Prop) (st : Store) (fuel : Nat) : Prop where
  exec : ∀ {scope} s, D scope → Grows D st (exec b fuel scope s)
  execPlain : ∀ {scope} s, D scope → Grows D st (execPlain b fuel scope s)
  execBody : ∀ {scope} body, D scope → Grows D st (execBody b fuel scope body)
  execAll : ∀ {scope} body, D scope → Grows D st (execAll b fuel scope body)
  declareAll : ∀ {scope} constant ds, D scope → Grows D st (declareAll b fuel scope constant ds)
  forLoop : ∀ {scope} test update body, D scope →
    Grows D st (forLoop b fuel scope test update body)
  whileLoop : ∀ {scope} test body, D scope → Grows D st (whileLoop b fuel scope test body)
  doLoop : ∀ {scope} test body, D scope → Grows D st (doLoop b fuel scope test body)
  evaluate : ∀ scope e, Grows D st (evaluate b fuel scope e)
  evaluateAll : ∀ scope es, Grows D st (evaluateAll b fuel scope es)
  templateText : ∀ scope parts, Grows D st (templateText b fuel scope parts)
  assign : ∀ scope target v, Grows D st (assign b fuel scope target v)
  call : ∀ scope loc callee args awaited, Grows D st (call b fuel scope loc callee args awaited)
  callFunction : ∀ home name args, Grows D st (callFunction b fuel home name args)

theorem growing_zero : Growing b D st 0 := by
  have spent {α : Type} : Grows D st (throw .spent : Eval α) := grows_throw _
  constructor <;> intros
  all_goals
    simp only [exec, execPlain, execBody, execAll, declareAll, forLoop, whileLoop, doLoop, evaluate,
      evaluateAll, templateText, assign, call, callFunction]
    exact spent

/-! ### Binding names -/

theorem grows_hoist {scope : ScopeRef} (hs : D scope) (body : List Node) :
    Grows D st (hoist scope body) := by
  induction body with
  | nil => exact upholds_pure _
  | cons s rest ih =>
    cases s with
    | functionDecl l name params body isAsync =>
      rw [hoist]
      exact grows_step (fun _ _ h => .declareFunction hs h) ih
    | _ => exact ih

theorem grows_declare {scope : ScopeRef} (hs : D scope) (name : String) (v : Value)
    (constant : Bool) : Grows D st (declare scope name v constant) := by
  have declared : Grows D st _ := grows_step (r := (·.declare scope name v constant))
    (fun _ _ h => .declare hs h) (upholds_pure ())
  rw [declare]
  simpa only [bind_pure_unit] using declared

theorem grows_bindParams {scope : ScopeRef} (hs : D scope) (names : List String)
    (args : List Value) : Grows D st (bindParams scope names args) := by
  induction names generalizing args with
  | nil => exact upholds_pure _
  | cons name names ih =>
    rw [bindParams]
    exact grows_step (fun _ _ h => .declare hs h) (ih _)

theorem grows_unaryOperator (op : String) (v : Value) : Grows D st (unaryOperator op v) := by
  unfold unaryOperator
  split <;> first | exact upholds_pure _ | exact grows_complain _

/-! ### Nested steps -/

section Nested

variable (hD : ∀ i, st.Fresh i → D i) (h : Growing b D st fuel)
include hD h

theorem grows_execPlain_succ {scope : ScopeRef} (hs : D scope) (s : Node) :
    Grows D st (execPlain b (fuel + 1) scope s) := by
  unfold execPlain
  split
  · exact (h.evaluate scope _).bind fun _ => upholds_pure _
  · exact h.declareAll _ _ hs
  · exact upholds_pure _
  · exact upholds_pure _
  · exact grows_newScope_bind hD scope fun inner hi => h.execBody _ hi
  · refine (h.evaluate scope _).bind fun v => ?_
    split
    · exact h.exec _ hs
    · split
      · exact h.exec _ hs
      · exact upholds_pure _
  · refine grows_newScope_bind hD scope fun inner hi => ?_
    dsimp only
    split
    · exact (h.exec _ hi).bind fun _ => h.forLoop _ _ _ hi
    · exact h.forLoop _ _ _ hi
  · exact h.whileLoop _ _ hs
  · exact h.doLoop _ _ hs
  · split
    · exact grows_throw _
    · exact (h.evaluate scope _).bind fun _ => grows_throw _
  · exact grows_throw _
  · exact grows_throw _
  · exact grows_complain _

omit hD

theorem grows_declareAll_succ {scope : ScopeRef} (hs : D scope) (constant : Bool)
    (ds : List (String × Option Node)) :
    Grows D st (declareAll b (fuel + 1) scope constant ds) := by
  rcases ds with _ | ⟨⟨name, _ | e⟩, ds⟩ <;> rw [declareAll]
  · exact upholds_pure _
  · exact (upholds_pure _).bind fun _ => (grows_declare hs _ _ _).bind fun _ =>
      h.declareAll _ _ hs
  · exact (h.evaluate scope e).bind fun _ => (grows_declare hs _ _ _).bind fun _ =>
      h.declareAll _ _ hs

/-- A round, when the test has been made. -/
theorem grows_forRound {scope : ScopeRef} (hs : D scope) (test update : Option Node) (body : Node)
    (goes : Bool) : Grows D st (if goes then do
      if ← Eval.loopBody (Running.exec b fuel scope body) then
        match update with
        | some e => let _ ← Running.evaluate b fuel scope e
        | none => pure ()
        Running.forLoop b fuel scope test update body
      else pure () else pure ()) := by
  split
  · refine (h.exec body hs).loopBody.bind fun _ => ?_
    split
    · cases update with
      | some e => exact (h.evaluate scope e).bind fun _ => h.forLoop _ _ _ hs
      | none => exact h.forLoop _ _ _ hs
    · exact upholds_pure _
  · exact upholds_pure _

theorem grows_forLoop_succ {scope : ScopeRef} (hs : D scope) (test update : Option Node)
    (body : Node) : Grows D st (forLoop b (fuel + 1) scope test update body) := by
  rw [forLoop.eq_def]
  have round := grows_forRound h hs test update body
  cases test with
  | some e => exact (h.evaluate scope e).bind fun _ => (upholds_pure _).bind round
  | none => exact (upholds_pure _).bind round

theorem grows_whileLoop_succ {scope : ScopeRef} (hs : D scope) (test body : Node) :
    Grows D st (whileLoop b (fuel + 1) scope test body) := by
  rw [whileLoop]
  refine (h.evaluate scope test).bind fun _ => ?_
  split
  · refine (h.exec body hs).loopBody.bind fun _ => ?_
    split
    · exact h.whileLoop _ _ hs
    · exact upholds_pure _
  · exact upholds_pure _

theorem grows_doLoop_succ {scope : ScopeRef} (hs : D scope) (test body : Node) :
    Grows D st (doLoop b (fuel + 1) scope test body) := by
  rw [doLoop]
  refine (h.exec body hs).loopBody.bind fun _ => ?_
  split
  · refine (h.evaluate scope test).bind fun _ => ?_
    split
    · exact h.doLoop _ _ hs
    · exact upholds_pure _
  · exact upholds_pure _

theorem grows_evaluate_succ (scope : ScopeRef) (e : Node) :
    Grows D st (evaluate b (fuel + 1) scope e) := by
  unfold evaluate
  split
  · exact upholds_pure _
  · exact upholds_store.bind fun _ => grows_ofComplaint _
  · exact (h.templateText scope _).bind fun _ => upholds_pure _
  · exact (h.evaluateAll scope _).bind fun _ => (upholds_newList ofScopes_grown _).grows
  · exact (h.evaluate scope _).bind fun _ => grows_unaryOperator _ _
  · exact (h.evaluate scope _).bind fun _ => (h.evaluate scope _).bind fun _ =>
      upholds_store.bind fun _ => grows_ofFault _
  · refine (h.evaluate scope _).bind fun _ => ?_
    split
    · exact h.evaluate scope _
    · exact upholds_pure _
  · refine (h.evaluate scope _).bind fun _ => ?_
    split
    · exact h.evaluate scope _
    · exact h.evaluate scope _
  · have stored (target : Node) (v : Value) :=
      (h.assign scope target v).bind fun _ => upholds_pure v
    dsimp only
    split
    · exact (h.evaluate scope _).bind (stored _)
    · exact (h.evaluate scope _).bind fun _ => (h.evaluate scope _).bind fun _ =>
        upholds_store.bind fun _ => (grows_ofFault _).bind (stored _)
  · exact (h.evaluate scope _).bind fun _ => (upholds_ofMishap _).grows.bind fun _ =>
      (h.assign scope _ _).bind fun _ => upholds_pure _
  · exact h.call scope _ _ _ _
  · exact h.call scope _ _ _ _
  · exact h.evaluate scope _
  · exact (h.evaluate scope _).bind fun _ => (upholds_memberGet ofScopes_grown _ _).grows
  · exact (h.evaluate scope _).bind fun _ => (h.evaluate scope _).bind fun _ =>
      (upholds_element _ _).grows
  · exact grows_complain _

theorem grows_templateText_succ (scope : ScopeRef) (parts : List (String ⊕ Node)) :
    Grows D st (templateText b (fuel + 1) scope parts) := by
  rcases parts with _ | ⟨s | e, parts⟩ <;> rw [templateText]
  · exact upholds_pure _
  · exact (upholds_pure _).bind fun _ => (h.templateText scope _).bind fun _ => upholds_pure _
  · exact (h.evaluate scope e).bind fun _ => (upholds_display _).grows.bind fun _ =>
      (h.templateText scope _).bind fun _ => upholds_pure _

theorem grows_assign_succ (scope : ScopeRef) (target : Node) (v : Value) :
    Grows D st (assign b (fuel + 1) scope target v) := by
  unfold assign
  split
  · next name =>
    have assigned : Grows D st _ := grows_step (r := (·.assign scope name v))
      (fun _ _ h => .assign h) (upholds_pure ())
    simpa only [bind_pure_unit] using assigned
  · refine (h.evaluate scope _).bind fun w => ?_
    split
    · exact (h.evaluate scope _).bind fun _ => (upholds_storeAt ofScopes_grown _ _ _).grows
    · exact grows_complain _
  · exact grows_complain _
  · exact grows_complain _

theorem grows_call_succ (scope : ScopeRef) (loc : Option Loc) (callee : Node) (args : List Node)
    (awaited : Bool) : Grows D st (call b (fuel + 1) scope loc callee args awaited) := by
  rw [call]
  refine (h.evaluate scope _).bind fun f => (h.evaluateAll scope _).bind fun vs => ?_
  have host : Grows D st (callHost b fuel callee f vs) :=
    (upholds_callHost ofScopes_grown _ _ _ _ _).grows
  split
  · exact h.callFunction _ _ _
  · refine Grows.withFrame (Grows.inCall ?_ _ _) _
    split
    · exact .bind (grows_complain _) fun _ => host
    · exact host

include hD

/-- A call of a function, when the limit has been looked at. -/
theorem grows_entered (home : ScopeRef) (name : String) (args : List Value) : Grows D st (do
    match (← store).closure? home name with
    | none => return .null
    | some c =>
      let inner ← newScope home
      bindParams inner c.params args
      withFrame ⟨name, args⟩ do returning (execBody b fuel inner (bodyOf c.body))) := by
  refine upholds_store.bind fun _ => ?_
  split
  · exact upholds_pure _
  · exact grows_newScope_bind hD home fun inner hi => (grows_bindParams hi _ _).bind fun _ =>
      (Grows.returning (h.execBody _ hi)).withFrame _

theorem grows_callFunction_succ (home : ScopeRef) (name : String) (args : List Value) :
    Grows D st (callFunction b (fuel + 1) home name args) := by
  rw [callFunction]
  have entered := grows_entered hD h home name args
  refine upholds_get.bind fun m => ?_
  split
  · exact (grows_throw _).bind fun _ => entered
  · exact entered

theorem growing_succ : Growing b D st (fuel + 1) where
  exec s hs := by
    rw [Running.exec]
    exact (h.execPlain s hs).inStatement _
  execPlain s hs := grows_execPlain_succ hD h hs s
  execBody body hs := by
    rw [Running.execBody]
    exact (grows_hoist hs body).bind fun _ => h.execAll _ hs
  execAll body hs := by
    cases body with
    | nil =>
      rw [Running.execAll]
      exact upholds_pure _
    | cons s rest =>
      rw [Running.execAll]
      exact (h.exec s hs).bind fun _ => h.execAll rest hs
  declareAll constant ds hs := grows_declareAll_succ h hs constant ds
  forLoop test update body hs := grows_forLoop_succ h hs test update body
  whileLoop test body hs := grows_whileLoop_succ h hs test body
  doLoop test body hs := grows_doLoop_succ h hs test body
  evaluate := grows_evaluate_succ h
  evaluateAll scope es := by
    cases es with
    | nil =>
      rw [Running.evaluateAll]
      exact upholds_pure _
    | cons e rest =>
      rw [Running.evaluateAll]
      exact (h.evaluate scope e).bind fun _ => (h.evaluateAll scope rest).bind fun _ =>
        upholds_pure _
  templateText := grows_templateText_succ h
  assign := grows_assign_succ h
  call := grows_call_succ h
  callFunction := grows_callFunction_succ hD h

end Nested

/-- **All that is run takes steps**, within every bound on nested steps. -/
theorem growing (b : Binding) (hD : ∀ i, st.Fresh i → D i) (fuel : Nat) : Growing b D st fuel := by
  induction fuel with
  | zero => exact growing_zero
  | succ fuel ih => exact growing_succ hD ih

end Running
end LedSketch
