import LedSketch.Program.Instance

/-!
# Terms of evaluation

Terms say what a computation may ask the board for, which replies it has to be ready for, and
whether it may rest. A computation abides by terms if it keeps to them for as long as the replies
are such, and an evaluation moreover says how it may end early.

Terms are one way to discipline computations. All that the evaluator relies on is that a discipline
lets results through and survives putting one computation behind another.

The evaluator itself asks for nothing and never rests: it abides by whatever discipline the
functions of the library abide by. So a fact about all runs of all sketches is a fact about the
library.

* `Act.Abides`, `Terms.discipline` — keeping to terms;
* `Discipline`, `Eval.Abides` — keeping to a discipline;
* `Running.abiding` — what the library keeps to, every run of every sketch keeps to.
-/

namespace LedSketch

/-- What may be asked for, which replies are to be expected, and whether rests are allowed. -/
structure Terms where
  asks : Request → Prop
  grants : (r : Request) → r.Reply → Prop
  rests : Prop

namespace Act

variable {α β : Type} {t : Terms}

/-- Keeps to the terms as long as the replies do, and ends with a result that satisfies `P`. -/
def Abides (t : Terms) (P : α → Prop) : Act α → Prop
  | done a => P a
  | ask r k => t.asks r ∧ ∀ reply, t.grants r reply → (k reply).Abides t P
  | rest _ k => t.rests ∧ ∀ wake, (k wake).Abides t P

theorem Abides.bind {P : α → Prop} {Q : β → Prop} {x : Act α} {f : α → Act β}
    (h : x.Abides t P) (hf : ∀ a, P a → (f a).Abides t Q) : (x.bind f).Abides t Q := by
  induction x with
  | done a => exact hf a h
  | ask r k ih => exact ⟨h.1, fun reply granted => ih reply (h.2 reply granted)⟩
  | rest nap k ih => exact ⟨h.1, fun wake => ih wake (h.2 wake)⟩

end Act

/-- What computations may be held to. -/
structure Discipline where
  /-- Whether a computation keeps to it and ends with a result that satisfies a predicate. -/
  Keeps : {α : Type} → (α → Prop) → Act α → Prop
  done : ∀ {α : Type} {P : α → Prop} {a : α}, P a → Keeps P (.done a)
  bind : ∀ {α β : Type} {P : α → Prop} {Q : β → Prop} {x : Act α} {f : α → Act β},
    Keeps P x → (∀ a, P a → Keeps Q (f a)) → Keeps Q (x.bind f)

/-- The discipline of keeping to terms. -/
def Terms.discipline (t : Terms) : Discipline where
  Keeps P x := x.Abides t P
  done h := h
  bind h hf := h.bind hf

instance : Coe Terms Discipline := ⟨Terms.discipline⟩

/-! ## Evaluations -/

namespace Eval

variable {α β : Type} {d : Discipline} {E F : Interrupt → Prop}

theorem runFrom_bind (x : Eval α) (f : α → Eval β) (m : Memory) :
    (x >>= f).runFrom m = (x.runFrom m).bind fun
      | (.ok a, m) => (f a).runFrom m
      | (.error i, m) => .done (.error i, m) := by
  change Act.bind _ _ = Act.bind _ _
  congr 1
  funext ⟨r, m⟩
  cases r <;> rfl

theorem runFrom_tryCatch (x : Eval α) (h : Interrupt → Eval α) (m : Memory) :
    (tryCatch x h).runFrom m = (x.runFrom m).bind fun
      | (.ok a, m) => .done (.ok a, m)
      | (.error i, m) => (h i).runFrom m := by
  change Act.bind _ _ = Act.bind _ _
  congr 1
  funext ⟨r, m⟩
  cases r <;> rfl

theorem runFrom_withFrame (f : Frame) (x : Eval α) (m : Memory) :
    (withFrame f x).runFrom m = (x.runFrom { m with calls := f :: m.calls }).bind fun
      | (r, m) => .done (r, { m with calls := m.calls.drop 1 }) :=
  rfl

/-- From whatever memory it starts, keeps to the discipline and ends early only in allowed ways. -/
def Abides (d : Discipline) (E : Interrupt → Prop) (x : Eval α) : Prop :=
  ∀ m, d.Keeps (fun r => ∀ i, r.1 = .error i → E i) (x.runFrom m)

theorem abides_pure (a : α) : Abides d E (pure a) := fun _ => d.done fun _ h => nomatch h

theorem abides_throw {i : Interrupt} (h : E i) : Abides d E (throw i : Eval α) := by
  refine fun m => d.done ?_
  rintro _ ⟨⟩
  exact h

theorem Abides.bind {x : Eval α} {f : α → Eval β} (hx : Abides d E x)
    (hf : ∀ a, Abides d E (f a)) : Abides d E (x >>= f) := by
  intro m
  rw [runFrom_bind]
  refine d.bind (hx m) ?_
  rintro ⟨i | a, m'⟩ h
  · exact abides_throw (h i rfl) m'
  · exact hf a m'

theorem Abides.tryCatch {x : Eval α} {h : Interrupt → Eval α} (hx : Abides d E x)
    (hh : ∀ i, E i → Abides d F (h i)) : Abides d F (tryCatch x h) := by
  intro m
  rw [runFrom_tryCatch]
  refine d.bind (hx m) ?_
  rintro ⟨i | a, m'⟩ hi
  · exact hh i (hi i rfl) m'
  · exact abides_pure a m'

theorem abides_get : Abides d E (get : Eval Memory) := fun _ => abides_pure _ _

theorem abides_store : Abides d E store := fun _ => abides_pure _ _

theorem abides_setStore (st : Store) : Abides d E (setStore st) := fun _ => abides_pure _ _

theorem abides_rest {t : Terms} (h : t.rests) (hE : E .cancelled) (nap : Nap) :
    Abides t E (rest nap) :=
  fun m => ⟨h, fun
    | .rested => abides_pure (d := t) () m
    | .cancelled => abides_throw (d := t) hE m⟩

theorem Abides.withFrame {x : Eval α} (hx : Abides d E x) (f : Frame) :
    Abides d E (withFrame f x) := by
  intro m
  rw [runFrom_withFrame]
  refine d.bind (hx { m with calls := f :: m.calls }) ?_
  rintro ⟨r, m'⟩ h
  exact d.done h

theorem abides_mapM {f : α → Eval β} (hf : ∀ a, Abides d E (f a)) (as : List α) :
    Abides d E (as.mapM f) := by
  induction as with
  | nil => exact abides_pure _
  | cons a as ih =>
    rw [List.mapM_cons]
    exact (hf a).bind fun _ => ih.bind fun _ => abides_pure _

theorem abides_freshToken : Abides d E freshToken :=
  abides_store.bind fun _ => (abides_setStore _).bind fun _ => abides_pure _

theorem abides_newList (vs : List Value) : Abides d E (newList vs) :=
  abides_store.bind fun _ => (abides_setStore _).bind fun _ => abides_pure _

theorem abides_newScope (parent : ScopeRef) : Abides d E (newScope parent) :=
  abides_store.bind fun _ => (abides_setStore _).bind fun _ => abides_pure _

/-! ## Errors -/

/-- Whether evaluation may end early in every way but one: as if its session were not current. -/
def Ordinary (E : Interrupt → Prop) : Prop := ∀ i, i ≠ .unwind → E i

section Errors

variable (hE : Ordinary E)
include hE

theorem abides_complain (c : Complaint) : Abides d E (complain c : Eval α) :=
  abides_throw (hE _ nofun)

theorem abides_ofMishap (r : Except Mishap α) : Abides d E (ofMishap r) := by
  cases r with
  | ok a => exact abides_pure a
  | error m => exact abides_throw (hE _ nofun)

theorem abides_ofComplaint (r : Except Complaint α) : Abides d E (ofComplaint r) := by
  cases r with
  | ok a => exact abides_pure a
  | error c => exact abides_complain hE c

theorem abides_ofFault (r : Except Fault α) : Abides d E (ofFault r) := by
  cases r with
  | ok a => exact abides_pure a
  | error f => cases f <;> exact abides_throw (hE _ nofun)

theorem abides_display (v : Value) : Abides d E (display v) :=
  abides_store.bind fun _ => abides_ofMishap hE _

theorem abides_throwAt (loc : Option Loc) (e : SketchError) :
    Abides d E (throwAt loc e : Eval α) :=
  abides_get.bind fun _ => abides_throw (hE _ nofun)

theorem Abides.inStatement {x : Eval α} (hx : Abides d E x) (loc : Option Loc) :
    Abides d E (inStatement loc x) := by
  refine hx.tryCatch fun i hi => ?_
  split
  · exact abides_throwAt hE loc _
  · exact abides_throwAt hE loc _
  · exact abides_throwAt hE loc _
  · exact abides_throw hi

theorem Abides.inCall {x : Eval α} (hx : Abides d E x) (name : String) (loc : Option Loc) :
    Abides d E (inCall name loc x) := by
  refine hx.tryCatch fun i hi => ?_
  split
  · exact abides_throwAt hE loc _
  · exact abides_throwAt hE loc _
  · exact abides_throw hi

end Errors

theorem Abides.loopBody {x : Eval Unit} (hx : Abides d E x) : Abides d E (loopBody x) := by
  refine Abides.tryCatch (hx.bind fun _ => abides_pure true) fun i hi => ?_
  split
  · exact abides_pure false
  · exact abides_pure true
  · exact abides_throw hi

theorem Abides.returning {x : Eval Unit} (hx : Abides d E x) : Abides d E (returning x) := by
  refine Abides.tryCatch (hx.bind fun _ => abides_pure Value.null) fun i hi => ?_
  split
  · exact abides_pure _
  · exact abides_throw hi

end Eval

/-! ## The evaluator -/

namespace Running

open Eval

variable {d : Discipline} {E : Interrupt → Prop}

/-- Every function of the evaluator abides by the terms, with a bound on nested steps. -/
structure Abiding (b : Binding) (d : Discipline) (E : Interrupt → Prop) (fuel : Nat) : Prop where
  exec : ∀ scope s, Abides d E (exec b fuel scope s)
  execPlain : ∀ scope s, Abides d E (execPlain b fuel scope s)
  execBody : ∀ scope body, Abides d E (execBody b fuel scope body)
  execAll : ∀ scope body, Abides d E (execAll b fuel scope body)
  declareAll : ∀ scope constant ds, Abides d E (declareAll b fuel scope constant ds)
  forLoop : ∀ scope test update body, Abides d E (forLoop b fuel scope test update body)
  whileLoop : ∀ scope test body, Abides d E (whileLoop b fuel scope test body)
  doLoop : ∀ scope test body, Abides d E (doLoop b fuel scope test body)
  evaluate : ∀ scope e, Abides d E (evaluate b fuel scope e)
  evaluateAll : ∀ scope es, Abides d E (evaluateAll b fuel scope es)
  templateText : ∀ scope parts, Abides d E (templateText b fuel scope parts)
  assign : ∀ scope target v, Abides d E (assign b fuel scope target v)
  call : ∀ scope loc callee args awaited, Abides d E (call b fuel scope loc callee args awaited)
  callFunction : ∀ home name args, Abides d E (callFunction b fuel home name args)

/-! ### Members -/

section Members

variable (hE : Ordinary E)
include hE

theorem abides_memberGet (object : Value) (name : String) :
    Abides d E (Members.get object name) := by
  unfold Members.get
  split
  · exact abides_complain hE _
  · exact abides_pure _
  · split
    · exact abides_store.bind fun _ => abides_pure _
    · split
      · exact abides_freshToken.bind fun _ => abides_pure _
      · exact abides_pure _
  · split
    · exact abides_pure _
    · split
      · exact abides_freshToken.bind fun _ => abides_pure _
      · exact abides_pure _
  · split
    · split
      · exact abides_freshToken.bind fun _ => abides_pure _
      · exact abides_pure _
    · exact abides_pure _

theorem abides_element (container key : Value) : Abides d E (Members.element container key) := by
  unfold Members.element
  split
  · exact abides_store.bind fun _ => abides_pure _
  · exact abides_pure _
  · exact (abides_display hE _).bind fun _ => abides_pure _
  · exact (abides_display hE _).bind fun _ => abides_complain hE _
  · exact abides_pure _

theorem abides_writeAt (ref : ListRef) (i : Nat) (v : Value) :
    Abides d E (Members.writeAt ref i v) := by
  refine abides_store.bind fun st => ?_
  split
  · exact abides_throw (hE _ nofun)
  · exact abides_setStore _

theorem abides_storeAt (ref : ListRef) (key v : Value) :
    Abides d E (Members.storeAt ref key v) := by
  unfold Members.storeAt
  refine (abides_ofMishap hE _).bind fun i => ?_
  split
  · exact (abides_ofMishap hE _).bind fun _ =>
      (abides_complain hE _).bind fun _ => abides_writeAt hE _ _ _
  · exact abides_writeAt hE _ _ _

theorem abides_callList (ref : ListRef) (m : ListMember) (args : List Value) :
    Abides d E (Members.callList ref m args) := by
  refine (abides_ofMishap hE _).bind fun _ => abides_store.bind fun st => ?_
  split
  · exact (abides_setStore _).bind fun _ => abides_pure _
  · exact (abides_setStore _).bind fun _ => abides_pure _
  · exact abides_pure _
  · exact abides_pure _
  · split
    · refine (abides_mapM (fun v => ?_) _).bind fun _ => abides_pure _
      split
      · exact abides_pure _
      · exact abides_display hE _
    · exact abides_throw (hE _ (by rintro ⟨⟩))

theorem abides_callText (s : String) (m : TextMember) (args : List Value) :
    Abides d E (Members.callText s m args) := by
  refine (abides_ofMishap hE _).bind fun _ => ?_
  have part : Abides d E (do return (← display (args.headD .null)).toList) :=
    (abides_display hE _).bind fun _ => abides_pure _
  split
  · exact abides_pure _
  · exact abides_pure _
  · exact part.bind fun _ => abides_pure _
  · exact part.bind fun _ => abides_pure _
  · exact (abides_ofMishap hE _).bind fun _ => abides_pure _

theorem abides_callToFixed (n : Number) (args : List Value) :
    Abides d E (Members.callToFixed n args) :=
  (abides_ofMishap hE _).bind fun _ => (abides_ofMishap hE _).bind fun _ =>
    (abides_ofMishap hE _).bind fun _ => abides_pure _

theorem abides_callMath (chance : Abides d E (ask .chance)) (f : MathFunction) (args : List Value) :
    Abides d E (Members.callMath f args) := by
  refine (abides_ofMishap hE _).bind fun _ => ?_
  split
  · exact abides_freshToken.bind fun _ => abides_pure _
  · split
    · exact chance.bind fun _ => abides_pure _
    · exact abides_pure _

end Members

/-! ### Steps -/

section Loops

variable {b : Binding} {fuel : Nat} (h : Abiding b d E fuel)
include h

/-- A round, when the test has been made. -/
theorem abides_forRound (scope : ScopeRef) (test update : Option Node) (body : Node) (goes : Bool) :
    Abides d E (if goes then do
      if ← Eval.loopBody (Running.exec b fuel scope body) then
        match update with
        | some e => let _ ← Running.evaluate b fuel scope e
        | none => pure ()
        Running.forLoop b fuel scope test update body
      else pure () else pure ()) := by
  split
  · refine (h.exec _ _).loopBody.bind fun _ => ?_
    split
    · cases update with
      | some e => exact (h.evaluate _ _).bind fun _ => h.forLoop _ _ _ _
      | none => exact (abides_pure _).bind fun _ => h.forLoop _ _ _ _
    · exact abides_pure _
  · exact abides_pure _

theorem abides_forLoop_succ (scope : ScopeRef) (test update : Option Node) (body : Node) :
    Abides d E (forLoop b (fuel + 1) scope test update body) := by
  rw [forLoop.eq_def]
  have round := abides_forRound h scope test update body
  cases test with
  | some e => exact (h.evaluate _ _).bind fun _ => (abides_pure _).bind round
  | none => exact (abides_pure _).bind round

theorem abides_whileLoop_succ (scope : ScopeRef) (test body : Node) :
    Abides d E (whileLoop b (fuel + 1) scope test body) := by
  unfold whileLoop
  refine (h.evaluate _ _).bind fun _ => ?_
  split
  · refine (h.exec _ _).loopBody.bind fun _ => ?_
    split
    · exact h.whileLoop _ _ _
    · exact abides_pure _
  · exact abides_pure _

theorem abides_doLoop_succ (scope : ScopeRef) (test body : Node) :
    Abides d E (doLoop b (fuel + 1) scope test body) := by
  unfold doLoop
  refine (h.exec _ _).loopBody.bind fun _ => ?_
  split
  · refine (h.evaluate _ _).bind fun _ => ?_
    split
    · exact h.doLoop _ _ _
    · exact abides_pure _
  · exact abides_pure _

end Loops

section Steps

variable {b : Binding} {fuel : Nat} (hE : Ordinary E)
include hE

theorem abides_hoist (scope : ScopeRef) (body : List Node) : Abides d E (hoist scope body) := by
  fun_induction hoist scope body with
  | case1 => exact abides_pure _
  | case2 _ _ _ _ _ _ ih =>
    exact abides_store.bind fun _ => (abides_ofComplaint hE _).bind fun _ =>
      (abides_setStore _).bind fun _ => ih
  | case3 _ _ _ ih => exact ih

theorem abides_declare (scope : ScopeRef) (name : String) (v : Value) (constant : Bool) :
    Abides d E (declare scope name v constant) :=
  abides_store.bind fun _ => (abides_ofComplaint hE _).bind fun _ => abides_setStore _

theorem abides_bindParams (scope : ScopeRef) (names : List String) (args : List Value) :
    Abides d E (bindParams scope names args) := by
  induction names generalizing args with
  | nil => exact abides_pure _
  | cons name names ih =>
    exact abides_store.bind fun _ => (abides_ofComplaint hE _).bind fun _ =>
      (abides_setStore _).bind fun _ => ih _

theorem abides_unaryOperator (op : String) (v : Value) : Abides d E (unaryOperator op v) := by
  unfold unaryOperator
  split
  all_goals first | exact abides_pure _ | exact abides_complain hE _

theorem abides_refusedCallee (callee : Node) (f : Value) :
    Abides d E (refusedCallee callee f) := by
  unfold refusedCallee
  split
  · exact abides_pure _
  · exact abides_display hE f

theorem abiding_zero : Abiding b d E 0 := by
  have spent {α : Type} : Abides d E (throw .spent : Eval α) := abides_throw (hE _ nofun)
  constructor <;> intros
  all_goals
    simp only [exec, execPlain, execBody, execAll, declareAll, forLoop, whileLoop, doLoop, evaluate,
      evaluateAll, templateText, assign, call, callFunction]
    exact spent

variable (h : Abiding b d E fuel)
include h

theorem abides_execPlain_succ (scope : ScopeRef) (s : Node) :
    Abides d E (execPlain b (fuel + 1) scope s) := by
  unfold execPlain
  split
  · exact (h.evaluate _ _).bind fun _ => abides_pure _
  · exact h.declareAll _ _ _
  · exact abides_pure _
  · exact abides_pure _
  · exact (abides_newScope _).bind fun _ => h.execBody _ _
  · refine (h.evaluate _ _).bind fun _ => ?_
    split
    · exact h.exec _ _
    · split
      · exact h.exec _ _
      · exact abides_pure _
  · refine (abides_newScope _).bind fun _ => ?_
    split
    · exact (h.exec _ _).bind fun _ => h.forLoop _ _ _ _
    · exact (abides_pure _).bind fun _ => h.forLoop _ _ _ _
  · exact h.whileLoop _ _ _
  · exact h.doLoop _ _ _
  · split
    · exact abides_throw (hE _ (by rintro ⟨⟩))
    · exact (h.evaluate _ _).bind fun _ => abides_throw (hE _ (by rintro ⟨⟩))
  · exact abides_throw (hE _ (by rintro ⟨⟩))
  · exact abides_throw (hE _ (by rintro ⟨⟩))
  · exact abides_complain hE _

theorem abides_evaluate_succ (scope : ScopeRef) (e : Node) :
    Abides d E (evaluate b (fuel + 1) scope e) := by
  unfold evaluate
  split
  · exact abides_pure _
  · exact abides_store.bind fun _ => abides_ofComplaint hE _
  · exact (h.templateText _ _).bind fun _ => abides_pure _
  · exact (h.evaluateAll _ _).bind fun _ => abides_newList _
  · exact (h.evaluate _ _).bind fun _ => abides_unaryOperator hE _ _
  · exact (h.evaluate _ _).bind fun _ => (h.evaluate _ _).bind fun _ =>
      abides_store.bind fun _ => abides_ofFault hE _
  · refine (h.evaluate _ _).bind fun _ => ?_
    split
    · exact h.evaluate _ _
    · exact abides_pure _
  · refine (h.evaluate _ _).bind fun _ => ?_
    split
    · exact h.evaluate _ _
    · exact h.evaluate _ _
  · -- an assignment, whose value is stored last
    have stored (target : Node) (v : Value) :
        Abides d E (do assign b fuel scope target v; return v) :=
      (h.assign _ _ _).bind fun _ => abides_pure _
    split
    · exact (h.evaluate _ _).bind fun _ => stored _ _
    · exact (h.evaluate _ _).bind fun _ => (h.evaluate _ _).bind fun _ =>
        abides_store.bind fun _ => (abides_ofFault hE _).bind fun _ => stored _ _
  · exact (h.evaluate _ _).bind fun _ => (abides_ofMishap hE _).bind fun _ =>
      (h.assign _ _ _).bind fun _ => abides_pure _
  · exact h.call _ _ _ _ _
  · exact h.call _ _ _ _ _
  · exact h.evaluate _ _
  · exact (h.evaluate _ _).bind fun _ => abides_memberGet hE _ _
  · exact (h.evaluate _ _).bind fun _ => (h.evaluate _ _).bind fun _ => abides_element hE _ _
  · exact abides_complain hE _

theorem abides_declareAll_succ (scope : ScopeRef) (constant : Bool)
    (ds : List (String × Option Node)) : Abides d E (declareAll b (fuel + 1) scope constant ds) := by
  have declared (name : String) (ds : List (String × Option Node)) (v : Value) :
      Abides d E (do
        declare scope name v constant
        declareAll b fuel scope constant ds) :=
    (abides_declare hE _ _ _ _).bind fun _ => h.declareAll _ _ _
  rcases ds with _ | ⟨⟨name, _ | e⟩, ds⟩ <;> rw [declareAll]
  · exact abides_pure _
  · exact (abides_pure _).bind fun _ => declared _ _ _
  · exact (h.evaluate _ _).bind fun _ => declared _ _ _

theorem abides_templateText_succ (scope : ScopeRef) (parts : List (String ⊕ Node)) :
    Abides d E (templateText b (fuel + 1) scope parts) := by
  rcases parts with _ | ⟨s | e, parts⟩ <;> rw [templateText]
  · exact abides_pure _
  · exact (abides_pure _).bind fun _ => (h.templateText _ _).bind fun _ => abides_pure _
  · exact (h.evaluate _ _).bind fun _ => (abides_display hE _).bind fun _ =>
      (h.templateText _ _).bind fun _ => abides_pure _

theorem abides_assign_succ (scope : ScopeRef) (target : Node) (v : Value) :
    Abides d E (assign b (fuel + 1) scope target v) := by
  unfold assign
  split
  · exact abides_store.bind fun _ => (abides_ofComplaint hE _).bind fun _ => abides_setStore _
  · refine (h.evaluate _ _).bind fun _ => ?_
    split
    · exact (h.evaluate _ _).bind fun _ => abides_storeAt hE _ _ _
    · exact abides_complain hE _
  · exact abides_complain hE _
  · exact abides_complain hE _

/-- A call of a function, when the limit has been looked at. -/
theorem abides_entered (home : ScopeRef) (name : String) (args : List Value) :
    Abides d E (do
      match (← store).closure? home name with
      | none => return .null
      | some c =>
        let inner ← newScope home
        bindParams inner c.params args
        withFrame ⟨name, args⟩ do returning (execBody b fuel inner (bodyOf c.body))) := by
  refine abides_store.bind fun st => ?_
  split
  · exact abides_pure _
  · exact (abides_newScope _).bind fun _ => (abides_bindParams hE _ _ _).bind fun _ =>
      ((h.execBody _ _).returning).withFrame _

theorem abides_callFunction_succ (home : ScopeRef) (name : String) (args : List Value) :
    Abides d E (callFunction b (fuel + 1) home name args) := by
  unfold callFunction
  have entered := abides_entered hE h home name args
  refine abides_get.bind fun m => ?_
  split
  · exact (abides_throw (hE (.mishap .tooDeep) (by rintro ⟨⟩))).bind fun _ => entered
  · exact entered

theorem abides_call_succ
    (host : ∀ fuel callee f args, Abides d E (callHost b fuel callee f args))
    (scope : ScopeRef) (loc : Option Loc) (callee : Node) (args : List Node) (awaited : Bool) :
    Abides d E (call b (fuel + 1) scope loc callee args awaited) := by
  unfold call
  refine (h.evaluate _ _).bind fun f => (h.evaluateAll _ _).bind fun vs => ?_
  split
  · exact h.callFunction _ _ _
  · refine (Abides.inCall hE ?_ _ _).withFrame _
    split
    · exact (abides_complain hE _).bind fun _ => host _ _ _ _
    · exact host _ _ _ _

theorem abiding_succ
    (host : ∀ fuel callee f args, Abides d E (callHost b fuel callee f args)) :
    Abiding b d E (fuel + 1) where
  exec _ _ := by
    unfold Running.exec
    exact (h.execPlain _ _).inStatement hE _
  execPlain := abides_execPlain_succ hE h
  execBody _ _ := by
    unfold Running.execBody
    exact (abides_hoist hE _ _).bind fun _ => h.execAll _ _
  execAll _ body := by
    cases body with
    | nil => rw [Running.execAll]; exact abides_pure _
    | cons => rw [Running.execAll]; exact (h.exec _ _).bind fun _ => h.execAll _ _
  declareAll := abides_declareAll_succ hE h
  forLoop := abides_forLoop_succ h
  whileLoop := abides_whileLoop_succ h
  doLoop := abides_doLoop_succ h
  evaluate := abides_evaluate_succ hE h
  evaluateAll _ es := by
    cases es with
    | nil => rw [Running.evaluateAll]; exact abides_pure _
    | cons =>
      rw [Running.evaluateAll]
      exact (h.evaluate _ _).bind fun _ => (h.evaluateAll _ _).bind fun _ => abides_pure _
  templateText := abides_templateText_succ hE h
  assign := abides_assign_succ hE h
  call := abides_call_succ hE h host
  callFunction := abides_callFunction_succ hE h

end Steps

/-- **What the library abides by, the evaluator abides by.** -/
theorem abiding {b : Binding} (hE : Ordinary E)
    (host : ∀ fuel callee f args, Abides d E (callHost b fuel callee f args)) (fuel : Nat) :
    Abiding b d E fuel := by
  induction fuel with
  | zero => exact abiding_zero hE
  | succ fuel ih => exact abiding_succ hE ih host

end Running
end LedSketch
