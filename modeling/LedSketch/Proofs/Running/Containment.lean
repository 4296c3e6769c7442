import LedSketch.Proofs.Running.Scoping
import LedSketch.Proofs.Running.Upholding
import LedSketch.Proofs.Syntax.StaticRules
import LedSketch.Proofs.Syntax.Runnable

/-!
# Jumps stay where they belong

A statement that can be run jumps only to what it stands in: with `break` and `continue` to a loop
around it, with `return` to its function. So loops and functions catch all jumps that are meant for
them and no others, and whatever contains expressions alone lets none out. Nor does the evaluator
ever meet a statement, an operator or a target that it does not know.

This holds in memories all of whose functions have bodies that can be run, and running what can be
run leads from such memories to such memories.

* `Memory.Sound`: the memories in question.
* `Interrupt.Within`: how what stands in some setting may end early.
* `Running.Contained`, `Running.contained`: every function of the evaluator, by induction on the
  bound on nested steps.
-/

namespace LedSketch

open HostText (Setting)
open Eval

/-! ## Operators that are known -/

namespace Store

variable {st : Store} {a b : Value} {op : String}

/-- The operators of programs are known. -/
theorem binaryOperator_ne_sketch (h : op ∈ "," :: HostText.binaryOperators) (e : SketchError) :
    st.binaryOperator op a b ≠ .error (.sketch e) := by
  simp only [HostText.binaryOperators, List.mem_cons, List.not_mem_nil, or_false] at h
  rcases h with rfl | rfl | rfl | rfl | rfl | rfl | rfl | rfl | rfl | rfl | rfl | rfl | rfl | rfl |
    rfl | rfl | rfl | rfl | rfl
  all_goals simp [binaryOperator, plus_ne_sketch, numeric_ne_sketch]

end Store

namespace Running

/-- The operator of a compound assignment is known. -/
theorem compoundOperator_mem : ∀ op ∈ HostText.assignOperators, op ≠ "=" →
    compoundOperator op ∈ "," :: HostText.binaryOperators := by
  decide

end Running

/-! ## Sound memories -/

/-- A function whose body can be run. -/
def Closure.Runnable (c : Closure) : Prop :=
  ∃ l body, c.body = .block l body ∧ ∀ s ∈ body, s.Runnable ⟨some c.isAsync, false⟩

/-- **A memory in which every function can be run.** -/
def Memory.Sound (m : Memory) : Prop := ∀ i, ∀ f ∈ (m.store.scope i).functions, f.2.Runnable

namespace Memory

variable {m : Memory} {st : Store}

theorem ofScopes_sound : OfScopes Sound := by
  intro m m' _ hscopes h i
  rw [Store.scope, hscopes]
  exact h i

/-- Soundness is about the functions alone. -/
theorem Sound.of_functions (h : m.Sound)
    (hst : ∀ i, (st.scope i).functions = (m.store.scope i).functions) :
    Sound { m with store := st } := by
  intro i
  rw [hst]
  exact h i

theorem Sound.newScope (h : m.Sound) (parent : Option ScopeRef) :
    Sound { m with store := (m.store.newScope parent).2 } := by
  intro i f hf
  rw [Store.scope_newScope] at hf
  split_ifs at hf
  · cases hf
  · exact h i f hf

theorem Sound.declareFunction {ref : ScopeRef} {name : String} {c : Closure} (h : m.Sound)
    (hc : c.Runnable) (hst : m.store.declareFunction ref name c = .ok st) :
    Sound { m with store := st } := by
  intro i f hf
  rcases Store.mem_functions_declareFunction hst hf with rfl | hf
  · exact hc
  · exact h i f hf

theorem Sound.closure {home : ScopeRef} {name : String} {c : Closure} (h : m.Sound)
    (hc : m.store.closure? home name = some c) : c.Runnable := by
  obtain ⟨_, _, hfs, -⟩ := List.lookup_eq_some_iff.mp hc
  exact h home (name, c) (hfs ▸ List.mem_append_right _ (List.mem_cons_self ..))

end Memory

/-! ## Early ends -/

/-- **How a statement may end early** that stands in the setting `p`: it jumps only out of a loop
or a function around it, and makes no defensive complaint. -/
def Interrupt.Within (p : Setting) : Interrupt → Prop
  | sketch e => ¬ e.complaint.Defensive
  | breakLoop | continueLoop => p.looping = true
  | returned _ => p.function ≠ none
  | mishap _ | unwind | cancelled | spent => True

/-- The setting of what stands in no loop and no function. -/
abbrev HostText.Setting.outside : Setting := ⟨none, false⟩

/-- The setting behind a loop: its jumps do not reach it. -/
def HostText.Setting.unlooped (p : Setting) : Setting := { p with looping := false }

namespace Interrupt

variable {p : Setting} {i : Interrupt}

theorem Plain.within (h : i.Plain) : i.Within p := by
  cases i with
  | sketch e => exact h.2.2
  | breakLoop | continueLoop | returned => exact h.elim
  | mishap | unwind | cancelled | spent => trivial

theorem Within.of_outside (h : i.Within .outside) : i.Within p := by
  cases i with
  | sketch e => exact h
  | breakLoop | continueLoop => exact nomatch h
  | returned => exact absurd rfl h
  | mishap | unwind | cancelled | spent => trivial

theorem Within.of_unlooped (h : i.Within p.unlooped) : i.Within p := by
  cases i with
  | sketch e => exact h
  | breakLoop | continueLoop => exact nomatch h
  | returned => exact h
  | mishap | unwind | cancelled | spent => trivial

end Interrupt

namespace Eval

open Memory (Sound)
open Interrupt (Within)

variable {α : Type} {p : Setting} {x : Eval α}

/-- In sound memories, an evaluation ends early only as what stands in the setting `p` may. -/
abbrev Stays (p : Setting) (x : Eval α) : Prop := Upholds Sound (Within p) x

theorem Upholds.stays (h : Upholds Sound Interrupt.Plain x) : Stays p x :=
  h.mono fun _ => Interrupt.Plain.within

theorem Stays.outside (h : Stays .outside x) : Stays p x :=
  h.mono fun _ => Interrupt.Within.of_outside

theorem Stays.unlooped (h : Stays p.unlooped x) : Stays p x :=
  h.mono fun _ => Interrupt.Within.of_unlooped

theorem Stays.bind_outside {β : Type} {f : α → Eval β} (hx : Stays .outside x)
    (hf : ∀ a, Stays p (f a)) : Stays p (x >>= f) :=
  Upholds.bind hx.outside hf

theorem stays_newScope (parent : ScopeRef) : Stays p (newScope parent) :=
  fun _ hm => ⟨hm.newScope _, not_early⟩

/-! ## Constructs that catch -/

theorem stays_throwAt (loc : Option Loc) {e : SketchError} (he : ¬ e.complaint.Defensive) :
    Stays p (throwAt loc e : Eval α) :=
  upholds_get.bind fun _ => upholds_throw he

theorem Stays.inStatement (hx : Stays p x) (loc : Option Loc) : Stays p (inStatement loc x) := by
  refine Upholds.tryCatch hx fun i hi => ?_
  split
  · exact stays_throwAt loc hi
  · exact stays_throwAt loc (by exact not_false)
  · exact stays_throwAt loc (by exact not_false)
  · exact upholds_throw hi

theorem Stays.inCall (hx : Stays p x) (name : String) (loc : Option Loc) :
    Stays p (inCall name loc x) := by
  refine Upholds.tryCatch hx fun i hi => ?_
  split
  · exact stays_throwAt loc hi
  · exact stays_throwAt loc (by exact not_false)
  · exact upholds_throw hi

theorem Stays.withFrame (hx : Stays p x) (f : Frame) : Stays p (withFrame f x) := by
  intro m hm
  rw [runFrom_withFrame]
  exact (hx { m with calls := f :: m.calls } hm).bind fun _ hr => hr

/-- A loop catches the jumps of its body. -/
theorem Stays.loopBody {x : Eval Unit} (hx : Stays p.looped x) : Stays p.unlooped (loopBody x) := by
  refine Upholds.tryCatch (Upholds.bind hx fun _ => upholds_pure true) fun i hi => ?_
  cases i with
  | breakLoop => exact upholds_pure false
  | continueLoop => exact upholds_pure true
  | _ => exact upholds_throw hi

/-- A function catches its returns, and no other jump can reach it. -/
theorem Stays.returning {isAsync : Bool} {x : Eval Unit} (hx : Stays ⟨some isAsync, false⟩ x) :
    Stays .outside (returning x) := by
  refine Upholds.tryCatch (Upholds.bind hx fun _ => upholds_pure Value.null) fun i hi => ?_
  cases i with
  | returned v => exact upholds_pure v
  | _ => exact upholds_throw hi

end Eval

/-! ## The evaluator -/

namespace Running

open Memory (Sound)
open Interrupt (Within)

variable {p : Setting}

/-- **What every function of the evaluator does** with nodes that can be run, within a bound on
nested steps: expressions and calls let no jump out, loops those of functions only, and statements
those of what they stand in. -/
structure Contained (b : Binding) (fuel : Nat) : Prop where
  exec : ∀ {p : Setting} scope {s}, s.Runnable p → Stays p (exec b fuel scope s)
  execPlain : ∀ {p : Setting} scope {s}, s.Runnable p → Stays p (execPlain b fuel scope s)
  execBody : ∀ {p : Setting} scope {body}, (∀ s ∈ body, s.Runnable p) → Stays p (execBody b fuel scope body)
  execAll : ∀ {p : Setting} scope {body}, (∀ s ∈ body, s.Runnable p) → Stays p (execAll b fuel scope body)
  declareAll : ∀ scope constant {ds}, (∀ d ∈ ds, ∀ e, d.2 = some e → e.Evaluable) →
    Stays .outside (declareAll b fuel scope constant ds)
  forLoop : ∀ {p : Setting} scope {test update body}, (∀ e, test = some e → e.Evaluable) →
    (∀ e, update = some e → e.Evaluable) → body.Runnable p.looped →
    Stays p.unlooped (forLoop b fuel scope test update body)
  whileLoop : ∀ {p : Setting} scope {test body}, test.Evaluable → body.Runnable p.looped →
    Stays p.unlooped (whileLoop b fuel scope test body)
  doLoop : ∀ {p : Setting} scope {test body}, test.Evaluable → body.Runnable p.looped →
    Stays p.unlooped (doLoop b fuel scope test body)
  evaluate : ∀ scope {e}, e.Evaluable → Stays .outside (evaluate b fuel scope e)
  evaluateAll : ∀ scope {es}, (∀ e ∈ es, e.Evaluable) → Stays .outside (evaluateAll b fuel scope es)
  templateText : ∀ scope {parts}, (∀ e, .inr e ∈ parts → e.Evaluable) →
    Stays .outside (templateText b fuel scope parts)
  assign : ∀ scope {target} v, target.isAssignable = true → target.Evaluable →
    Stays .outside (assign b fuel scope target v)
  call : ∀ scope loc {callee args} awaited, callee.Evaluable → (∀ e ∈ args, e.Evaluable) →
    Stays .outside (call b fuel scope loc callee args awaited)
  callFunction : ∀ home name args, Stays .outside (callFunction b fuel home name args)

variable {b : Binding} {fuel : Nat}

theorem contained_zero : Contained b 0 := by
  have spent {p} {α : Type} : Stays p (throw .spent : Eval α) := upholds_throw trivial
  constructor <;> intros
  all_goals
    simp only [exec, execPlain, execBody, execAll, declareAll, forLoop, whileLoop, doLoop, evaluate,
      evaluateAll, templateText, assign, call, callFunction]
    exact spent

/-! ### Binding names -/

/-- A change of the store that keeps it sound, if it is made at all. -/
theorem stays_update {α : Type} {r : Store → Except Complaint Store} {x : Eval α}
    (refused : ∀ st c, r st = .error c → ¬ c.Defensive)
    (made : ∀ m st, Sound m → r m.store = .ok st → Sound { m with store := st })
    (hx : Stays p x) : Stays p (do
      setStore (← ofComplaint (r (← store)))
      x) := by
  refine upholds_store_bind fun m hm => ?_
  cases hr : r m.store with
  | error c =>
    have thrown : Stays p (throw (.sketch { complaint := c }) : Eval α) :=
      upholds_throw (refused _ _ hr)
    exact thrown m hm
  | ok st => exact hx _ (made m st hm hr)

theorem not_defensive_declare {st : Store} {ref : ScopeRef} {key : String} {v : Value}
    {constant : Bool} {c : Complaint} (h : st.declare ref key v constant = .error c) :
    ¬ c.Defensive := by
  unfold Store.declare at h
  dsimp only at h
  split_ifs at h
  cases h
  exact not_false

theorem not_defensive_declareFunction {st : Store} {ref : ScopeRef} {name : String} {f : Closure}
    {c : Complaint} (h : st.declareFunction ref name f = .error c) : ¬ c.Defensive := by
  unfold Store.declareFunction at h
  cases hd : st.declare ref name (.function ref name) false <;> rw [hd] at h <;> cases h
  exact not_defensive_declare hd

theorem not_defensive_assign {st : Store} {ref : ScopeRef} {key : String} {v : Value}
    {c : Complaint} (h : st.assign ref key v = .error c) : ¬ c.Defensive := by
  unfold Store.assign at h
  split at h
  · cases h
    exact not_false
  · split_ifs at h
    cases h
    exact not_false

theorem not_defensive_get {st : Store} {ref : ScopeRef} {key : String} {c : Complaint}
    (h : st.get ref key = .error c) : ¬ c.Defensive := by
  unfold Store.get at h
  split at h <;> cases h
  exact not_false

theorem stays_hoist {body : List Node} (h : ∀ s ∈ body, s.Runnable p) (scope : ScopeRef) :
    Stays p (hoist scope body) := by
  induction body with
  | nil => exact upholds_pure _
  | cons s rest ih =>
    have hrest := ih fun s hs => h s (List.mem_cons_of_mem _ hs)
    cases s with
    | functionDecl l name params body isAsync =>
      cases h _ (List.mem_cons_self ..) with
      | functionDecl hbody =>
        rw [hoist]
        exact stays_update (fun _ _ => not_defensive_declareFunction)
          (fun _ _ hm => hm.declareFunction ⟨_, _, rfl, hbody⟩) hrest
    | _ => exact hrest

theorem stays_declare (scope : ScopeRef) (name : String) (v : Value) (constant : Bool) :
    Stays p (declare scope name v constant) := by
  have declared := stays_update (p := p) (r := (·.declare scope name v constant))
    (fun _ _ => not_defensive_declare)
    (fun _ _ hm hd => hm.of_functions (Store.functions_declare hd)) (upholds_pure ())
  rw [declare]
  simpa only [bind_pure_unit] using declared

theorem stays_bindParams (scope : ScopeRef) (names : List String) (args : List Value) :
    Stays p (bindParams scope names args) := by
  induction names generalizing args with
  | nil => exact upholds_pure _
  | cons name names ih =>
    rw [bindParams]
    exact stays_update (fun _ _ => not_defensive_declare)
      (fun _ _ hm hd => hm.of_functions (Store.functions_declare hd)) (ih _)

theorem stays_unaryOperator {op : String} (h : op ∈ HostText.unaryOperators) (v : Value) :
    Stays p (unaryOperator op v) := by
  simp only [HostText.unaryOperators, List.mem_cons, List.not_mem_nil, or_false] at h
  rcases h with rfl | rfl | rfl | rfl | rfl <;> exact upholds_pure _

theorem stays_binaryOperator {op : String} (h : op ∈ "," :: HostText.binaryOperators)
    (st : Store) (x y : Value) : Stays p (ofFault (st.binaryOperator op x y)) := by
  match hr : st.binaryOperator op x y with
  | .ok v => exact upholds_pure v
  | .error (.sketch e) => exact absurd hr (Store.binaryOperator_ne_sketch h e)
  | .error (.mishap m) => exact upholds_throw trivial

/-! ### Steps -/

section Steps

variable (h : Contained b fuel)
include h

theorem stays_execPlain_succ (scope : ScopeRef) {s : Node} (hs : s.Runnable p) :
    Stays p (execPlain b (fuel + 1) scope s) := by
  unfold execPlain
  cases hs with
  | exprStmt hx => exact (h.evaluate scope hx).bind_outside fun _ => upholds_pure _
  | varDecl hds => exact (h.declareAll scope _ hds).outside
  | functionDecl => exact upholds_pure _
  | block hbody => exact (stays_newScope scope).bind fun inner => h.execBody inner hbody
  | ifElse ht hy hn =>
    refine (h.evaluate scope ht).bind_outside fun v => ?_
    split
    · exact h.exec scope hy
    · split
      · exact h.exec scope (hn _ rfl)
      · exact upholds_pure _
  | forLoop hi ht hs hb =>
    refine (stays_newScope scope).bind fun inner => ?_
    dsimp only
    split
    · exact Upholds.bind (h.exec inner (hi _ rfl)) fun _ => (h.forLoop inner ht hs hb).unlooped
    · exact (h.forLoop inner ht hs hb).unlooped
  | whileLoop ht hb => exact (h.whileLoop scope ht hb).unlooped
  | doWhile hb ht => exact (h.doLoop scope ht hb).unlooped
  | returnStmt hp hv =>
    dsimp only
    split
    · exact upholds_throw hp
    · exact (h.evaluate scope (hv _ rfl)).bind_outside fun _ => upholds_throw hp
  | breakStmt hp => exact upholds_throw hp
  | continueStmt hp => exact upholds_throw hp
  | empty => exact upholds_pure _

theorem stays_declareAll_succ (scope : ScopeRef) (constant : Bool)
    {ds : List (String × Option Node)} (hds : ∀ d ∈ ds, ∀ e, d.2 = some e → e.Evaluable) :
    Stays .outside (declareAll b (fuel + 1) scope constant ds) := by
  have hrest {d} {ds : List (String × Option Node)}
      (hds : ∀ d' ∈ d :: ds, ∀ e, d'.2 = some e → e.Evaluable) :
      Stays .outside (declareAll b fuel scope constant ds) :=
    h.declareAll scope constant fun d' hd => hds d' (List.mem_cons_of_mem _ hd)
  rcases ds with _ | ⟨⟨name, _ | e⟩, ds⟩ <;> rw [declareAll]
  · exact upholds_pure _
  · exact (upholds_pure _).bind fun _ => (stays_declare _ _ _ _).bind fun _ => hrest hds
  · exact (h.evaluate scope (hds _ (List.mem_cons_self ..) e rfl)).bind fun _ =>
      (stays_declare _ _ _ _).bind fun _ => hrest hds

/-- A round, when the test has been made. -/
theorem stays_forRound (scope : ScopeRef) {test update : Option Node} {body : Node}
    (ht : ∀ e, test = some e → e.Evaluable) (hu : ∀ e, update = some e → e.Evaluable)
    (hb : body.Runnable p.looped) (goes : Bool) :
    Stays p.unlooped (if goes then do
      if ← Eval.loopBody (Running.exec b fuel scope body) then
        match update with
        | some e => let _ ← Running.evaluate b fuel scope e
        | none => pure ()
        Running.forLoop b fuel scope test update body
      else pure () else pure ()) := by
  split
  · refine (h.exec scope hb).loopBody.bind fun _ => ?_
    split
    · cases update with
      | some e => exact (h.evaluate scope (hu e rfl)).bind_outside fun _ => h.forLoop scope ht hu hb
      | none => exact h.forLoop scope ht hu hb
    · exact upholds_pure _
  · exact upholds_pure _

theorem stays_forLoop_succ (scope : ScopeRef) {test update : Option Node} {body : Node}
    (ht : ∀ e, test = some e → e.Evaluable) (hu : ∀ e, update = some e → e.Evaluable)
    (hb : body.Runnable p.looped) :
    Stays p.unlooped (forLoop b (fuel + 1) scope test update body) := by
  rw [forLoop.eq_def]
  have round := stays_forRound h scope ht hu hb
  cases test with
  | some e => exact (h.evaluate scope (ht e rfl)).bind_outside fun _ => (upholds_pure _).bind round
  | none => exact (upholds_pure _).bind round

theorem stays_whileLoop_succ (scope : ScopeRef) {test body : Node} (ht : test.Evaluable)
    (hb : body.Runnable p.looped) :
    Stays p.unlooped (whileLoop b (fuel + 1) scope test body) := by
  rw [whileLoop]
  refine (h.evaluate scope ht).bind_outside fun _ => ?_
  split
  · refine (h.exec scope hb).loopBody.bind fun _ => ?_
    split
    · exact h.whileLoop scope ht hb
    · exact upholds_pure _
  · exact upholds_pure _

theorem stays_doLoop_succ (scope : ScopeRef) {test body : Node} (ht : test.Evaluable)
    (hb : body.Runnable p.looped) :
    Stays p.unlooped (doLoop b (fuel + 1) scope test body) := by
  rw [doLoop]
  refine (h.exec scope hb).loopBody.bind fun _ => ?_
  split
  · refine (h.evaluate scope ht).bind_outside fun _ => ?_
    split
    · exact h.doLoop scope ht hb
    · exact upholds_pure _
  · exact upholds_pure _

theorem stays_evaluate_succ (scope : ScopeRef) {e : Node} (he : e.Evaluable) :
    Stays .outside (evaluate b (fuel + 1) scope e) := by
  unfold evaluate
  cases he with
  | literal => exact upholds_pure _
  | template hparts => exact (h.templateText scope hparts).bind fun _ => upholds_pure _
  | identifier =>
    refine upholds_store.bind fun st => ?_
    exact (upholds_ofComplaint fun _ => not_defensive_get).stays
  | array hitems =>
    exact (h.evaluateAll scope hitems).bind fun _ =>
      (upholds_newList Memory.ofScopes_sound _).stays
  | unary ho hx => exact (h.evaluate scope hx).bind fun _ => stays_unaryOperator ho _
  | binary ho hx hy =>
    exact (h.evaluate scope hx).bind fun _ => (h.evaluate scope hy).bind fun _ =>
      upholds_store.bind fun _ => stays_binaryOperator ho _ _ _
  | logical ho hx hy =>
    refine (h.evaluate scope hx).bind fun _ => ?_
    split
    · exact h.evaluate scope hy
    · exact upholds_pure _
  | conditional hx hy hz =>
    refine (h.evaluate scope hx).bind fun _ => ?_
    split
    · exact h.evaluate scope hy
    · exact h.evaluate scope hz
  | assign ho ht hx hy =>
    have stored (v : Value) := (h.assign scope v ht hx).bind fun _ => upholds_pure v
    dsimp only
    split
    · exact (h.evaluate scope hy).bind stored
    · rename_i hop
      have compound := compoundOperator_mem _ ho fun heq => hop (by rw [heq]; rfl)
      exact (h.evaluate scope hx).bind fun _ => (h.evaluate scope hy).bind fun _ =>
        upholds_store.bind fun _ => (stays_binaryOperator compound _ _ _).bind stored
  | update ho ht hx =>
    exact (h.evaluate scope hx).bind fun _ => (upholds_ofMishap _).stays.bind fun _ =>
      (h.assign scope _ ht hx).bind fun _ => upholds_pure _
  | call hf hargs => exact h.call scope _ false hf hargs
  | member hx =>
    exact (h.evaluate scope hx).bind fun _ => (upholds_memberGet Memory.ofScopes_sound _ _).stays
  | index hx hk =>
    exact (h.evaluate scope hx).bind fun _ => (h.evaluate scope hk).bind fun _ =>
      (upholds_element _ _).stays
  | await hx =>
    have awaited := h.evaluate scope hx
    cases hx with
    | call hf hargs => exact h.call scope _ true hf hargs
    | _ => exact awaited

theorem stays_templateText_succ (scope : ScopeRef) {parts : List (String ⊕ Node)}
    (hparts : ∀ e, .inr e ∈ parts → e.Evaluable) :
    Stays .outside (templateText b (fuel + 1) scope parts) := by
  have hrest {part} {parts : List (String ⊕ Node)}
      (hparts : ∀ e, .inr e ∈ part :: parts → e.Evaluable) :
      Stays .outside (templateText b fuel scope parts) :=
    h.templateText scope fun e he => hparts e (List.mem_cons_of_mem _ he)
  rcases parts with _ | ⟨s | e, parts⟩ <;> rw [templateText]
  · exact upholds_pure _
  · exact (upholds_pure _).bind fun _ => (hrest hparts).bind fun _ => upholds_pure _
  · exact (h.evaluate scope (hparts e (List.mem_cons_self ..))).bind fun _ =>
      (upholds_display _).stays.bind fun _ => (hrest hparts).bind fun _ => upholds_pure _

theorem stays_assign_succ (scope : ScopeRef) {target : Node} (v : Value)
    (ht : target.isAssignable = true) (he : target.Evaluable) :
    Stays .outside (assign b (fuel + 1) scope target v) := by
  unfold assign
  cases he with
  | @identifier _ name =>
    have assigned := stays_update (p := .outside) (r := (·.assign scope name v))
      (fun _ _ => not_defensive_assign)
      (fun _ _ hm hd => hm.of_functions (Store.functions_assign hd)) (upholds_pure ())
    simpa only [bind_pure_unit] using assigned
  | index hx hk =>
    refine (h.evaluate scope hx).bind fun w => ?_
    split
    · exact (h.evaluate scope hk).bind fun _ => (upholds_storeAt Memory.ofScopes_sound _ _ _).stays
    · exact Upholds.stays (upholds_complain not_false)
  | member => exact Upholds.stays (upholds_complain not_false)
  | _ => cases ht

theorem stays_call_succ (scope : ScopeRef) (loc : Option Loc) {callee : Node} {args : List Node}
    (awaited : Bool) (hf : callee.Evaluable) (hargs : ∀ e ∈ args, e.Evaluable) :
    Stays .outside (call b (fuel + 1) scope loc callee args awaited) := by
  rw [call]
  refine (h.evaluate scope hf).bind fun f => (h.evaluateAll scope hargs).bind fun vs => ?_
  have host : Stays .outside (callHost b fuel callee f vs) :=
    (upholds_callHost Memory.ofScopes_sound _ _ _ _ _).stays
  split
  · exact h.callFunction _ _ _
  · refine Stays.withFrame (Stays.inCall ?_ _ _) _
    split
    · exact .bind (Upholds.stays (upholds_complain not_false)) fun _ => host
    · exact host

/-- A call of a function, when the limit has been looked at. -/
theorem stays_entered (home : ScopeRef) (name : String) (args : List Value) :
    Stays .outside (do
      match (← store).closure? home name with
      | none => return .null
      | some c =>
        let inner ← newScope home
        bindParams inner c.params args
        withFrame ⟨name, args⟩ do returning (execBody b fuel inner (bodyOf c.body))) := by
  refine upholds_store_bind fun m hm => ?_
  cases hc : m.store.closure? home name with
  | none => exact ⟨hm, not_early⟩
  | some c =>
    obtain ⟨l, body, hbody, hrun⟩ := hm.closure hc
    have called : Stays .outside (do
        let inner ← newScope home
        bindParams inner c.params args
        withFrame ⟨name, args⟩ do returning (execBody b fuel inner (bodyOf c.body))) := by
      refine (stays_newScope home).bind fun inner => (stays_bindParams _ _ _).bind fun _ => ?_
      rw [hbody]
      exact (Stays.returning (h.execBody inner hrun)).withFrame _
    exact called m hm

theorem stays_callFunction_succ (home : ScopeRef) (name : String) (args : List Value) :
    Stays .outside (callFunction b (fuel + 1) home name args) := by
  rw [callFunction]
  have entered := stays_entered h home name args
  refine upholds_get.bind fun m => ?_
  split
  · exact (upholds_throw trivial).bind fun _ => entered
  · exact entered

theorem contained_succ : Contained b (fuel + 1) where
  exec scope s hs := by
    rw [Running.exec]
    exact (h.execPlain scope hs).inStatement _
  execPlain scope _ hs := stays_execPlain_succ h scope hs
  execBody scope body hbody := by
    rw [Running.execBody]
    exact (stays_hoist hbody scope).bind fun _ =>
      h.execAll scope fun s hs => hbody s (List.mem_filter.mp hs).1
  execAll scope body hbody := by
    cases body with
    | nil => rw [Running.execAll]; exact upholds_pure _
    | cons s rest =>
      rw [Running.execAll]
      exact (h.exec scope (hbody s (List.mem_cons_self ..))).bind fun _ =>
        h.execAll scope fun s hs => hbody s (List.mem_cons_of_mem _ hs)
  declareAll scope constant _ hds := stays_declareAll_succ h scope constant hds
  forLoop scope _ _ _ ht hu hb := stays_forLoop_succ h scope ht hu hb
  whileLoop scope _ _ ht hb := stays_whileLoop_succ h scope ht hb
  doLoop scope _ _ ht hb := stays_doLoop_succ h scope ht hb
  evaluate scope _ he := stays_evaluate_succ h scope he
  evaluateAll scope es hes := by
    cases es with
    | nil => rw [Running.evaluateAll]; exact upholds_pure _
    | cons e rest =>
      rw [Running.evaluateAll]
      exact (h.evaluate scope (hes e (List.mem_cons_self ..))).bind fun _ =>
        (h.evaluateAll scope fun e he => hes e (List.mem_cons_of_mem _ he)).bind fun _ =>
          upholds_pure _
  templateText scope _ hparts := stays_templateText_succ h scope hparts
  assign scope _ v ht he := stays_assign_succ h scope v ht he
  call scope loc _ _ awaited hf hargs := stays_call_succ h scope loc awaited hf hargs
  callFunction := stays_callFunction_succ h

end Steps

/-- **Jumps stay where they belong**, within every bound on nested steps. -/
theorem contained (b : Binding) (fuel : Nat) : Contained b fuel := by
  induction fuel with
  | zero => exact contained_zero
  | succ fuel ih => exact contained_succ ih

end Running

end LedSketch
