import LedSketch.Proofs.Program.Refusals
import LedSketch.Proofs.Running.Placing

/-!
# How the runs of a program end

A program that has been compiled is one whose statements can be run. So no jump leaves its
top-level code, its functions or a loop that it does not belong to, and the evaluator never meets a
node that it has no use for. Every run ends in one of few ways, with the calls that were active at
its start; and if it ends with an error, then that has a place, and a stack that lists the calls
that were active when it was raised.

* `Compiled.Reaches`: the memories in which a program is left by its runs.
* `jumps_contained`: where jumps and defensive complaints can be met, namely nowhere.
* `runs_settle`: how runs end.
-/

namespace LedSketch

open Eval Running
open HostText (Setting)
open BoardFunctions (globalScope)
open Program (freshMemory)
open Interrupt (Quiet Within)

/-! ## Ends -/

/-- What a computation may end with, for some replies and some ways in which its rests end. -/
inductive Act.Ends {α : Type} : Act α → α → Prop
  | done (a : α) : Ends (.done a) a
  | ask (r : Request) {k : r.Reply → Act α} (reply : r.Reply) {a : α} (h : Ends (k reply) a) :
    Ends (.ask r k) a
  | rest (nap : Nap) {k : Wake → Act α} (wake : Wake) {a : α} (h : Ends (k wake) a) :
    Ends (.rest nap k) a

theorem Act.Always.ends {α : Type} {P : α → Prop} {x : Act α} {a : α} (h : x.Always P)
    (hx : x.Ends a) : P a := by
  induction hx with
  | done a => exact h
  | ask r reply _ ih => exact ih (h.2 reply trivial)
  | rest nap wake _ ih => exact ih (h.2 wake)

theorem Act.Alike.ends {α β : Type} {R : α → β → Prop} {x : Act α} {y : Act β} {a : α}
    (h : Alike R x y) (hx : x.Ends a) : ∃ b, y.Ends b ∧ R a b := by
  induction h with
  | done h => cases hx; exact ⟨_, .done _, h⟩
  | ask r _ ih =>
    cases hx with
    | ask _ reply hx =>
      obtain ⟨b, hb, hab⟩ := ih reply hx
      exact ⟨b, .ask r reply hb, hab⟩
  | rest nap _ ih =>
    cases hx with
    | rest _ wake hx =>
      obtain ⟨b, hb, hab⟩ := ih wake hx
      exact ⟨b, .rest nap wake hb, hab⟩

/-- **The memories that the runs of a program leave behind**: its top-level code runs in a fresh
memory, and then its functions are called without arguments, however a run has ended. -/
inductive Compiled.Reaches (p : Compiled) : Memory → Prop
  | top (b : Binding) (fuel : Nat) {r : Except Interrupt Unit} {m : Memory}
    (h : ((execBody b fuel globalScope p.statements).runFrom freshMemory).Ends (r, m)) : Reaches p m
  | call (b : Binding) (fuel : Nat) (e : EntryPoint) {r : Except Interrupt Value} {m m' : Memory}
    (hm : Reaches p m) (h : ((callFunction b fuel e.home e.name []).runFrom m).Ends (r, m')) :
    Reaches p m'

/-! ## Compiled programs can be run -/

theorem runnable_of_compile {source : String} {p : Compiled} (h : compile source = .ok p) :
    ∀ s ∈ p.statements, s.Runnable .outside := by
  obtain ⟨t, n, ht, hn, hstatements, -⟩ := compile_eq_ok h
  have hrun := elaborate_parsed ht
  rw [hn] at hrun
  obtain ⟨l, body, rfl, hbody⟩ := hrun
  rw [← hstatements]
  exact hbody

theorem exists_of_isOk {ε α : Type} {x : Except ε α} (h : x.isOk = true) : ∃ a, x = .ok a := by
  cases x with
  | ok a => exact ⟨a, rfl⟩
  | error e => cases h

/-! ## Fresh memories -/

/-- The names that every sketch starts with are bound, and nothing else is done. -/
theorem scope_storeWith_congr {α : Type} (data : Scope → α)
    (hput : ∀ s key v, data (Scope.put s key v) = data s) (names : List (String × Value))
    (i : ScopeRef) : data ((BoardFunctions.storeWith names).scope i) = data {} := by
  have bound (st : Store) : data ((names.foldl (fun st p => st.put globalScope p.1 p.2) st).scope i)
      = data (st.scope i) := by
    induction names generalizing st with
    | nil => rfl
    | cons p ps ih =>
      exact (ih _).trans
        (Store.scope_modifyScope_congr data (·.put p.1 p.2) (fun s => hput s _ _) st globalScope i)
  refine (bound _).trans ?_
  rw [Store.scope_newScope]
  split_ifs <;> rfl

theorem sound_freshMemory : freshMemory.Sound := by
  intro i f hf
  have none : (freshMemory.store.scope i).functions = [] :=
    scope_storeWith_congr Scope.functions (fun _ _ _ => rfl) BoardFunctions.globals i
  rw [none] at hf
  cases hf

theorem open_freshMemory : freshMemory.store.Open globalScope :=
  scope_storeWith_congr Scope.constants (fun _ _ _ => rfl) BoardFunctions.globals globalScope

/-! ## Jumps -/

variable {source : String} {p : Compiled}

theorem sound_of_reaches (h : compile source = .ok p) {m : Memory} (hm : p.Reaches m) :
    m.Sound := by
  induction hm with
  | top b fuel hr =>
    have top := (contained b fuel).execBody globalScope (runnable_of_compile h) _ sound_freshMemory
    exact (top.ends hr).1
  | call b fuel e _ hr ih =>
    exact (((contained b fuel).callFunction e.home e.name [] _ ih).ends hr).1

/-- **No jump leaves what it belongs to**, and no defensive complaint is ever made. All statements
of a program that has been compiled can be run, and in every memory that its runs reach all
functions can be. There, whatever is bound and whatever is replied, expressions and calls let no
jump out, loops no `break` and no `continue`, and statements only what something around them
catches; so top-level code and calls of functions end without a jump. -/
theorem jumps_contained (h : compile source = .ok p) (b : Binding) (fuel : Nat) :
    (∀ s ∈ p.statements, s.Runnable .outside) ∧ (∀ m, p.Reaches m → m.Sound) ∧ Contained b fuel ∧
    ((execBody b fuel globalScope p.statements).runFrom freshMemory).Always
      (fun r => ∀ i, r.1 = .error i → i.Within .outside) ∧
    ∀ m, p.Reaches m → ∀ e : EntryPoint, ((callFunction b fuel e.home e.name []).runFrom m).Always
      fun r => ∀ i, r.1 = .error i → i.Within .outside :=
  have contained := contained b fuel
  ⟨runnable_of_compile h, fun _ hm => sound_of_reaches h hm, contained,
    (contained.execBody globalScope (runnable_of_compile h) _ sound_freshMemory).mono fun _ hr => hr.2,
    fun m hm e =>
      (contained.callFunction e.home e.name [] m (sound_of_reaches h hm)).mono fun _ hr => hr.2⟩

/-- A loop that is left, a loop that is gone on with, and a function that returns early. -/
theorem jumps_contained_search :
    let source := "function first(n) \x7b while (true) \x7b if (n > 9) \x7b return n; \x7d n++; \x7d \x7d
      async function setup() \x7b for (;;) \x7b break; \x7d \x7d
      async function loop() \x7b do \x7b continue; \x7d while (first(0) < 9); \x7d"
    ∃ p, compile source = .ok p ∧
      (∀ s ∈ p.statements, s.Runnable .outside) ∧ (∀ m, p.Reaches m → m.Sound) ∧
      Contained {} stepBound ∧
      ((execBody {} stepBound globalScope p.statements).runFrom freshMemory).Always
        (fun r => ∀ i, r.1 = .error i → i.Within .outside) ∧
      ∀ m, p.Reaches m → ∀ e : EntryPoint,
        ((callFunction {} stepBound e.home e.name []).runFrom m).Always
          fun r => ∀ i, r.1 = .error i → i.Within .outside := by
  intro source
  obtain ⟨p, hp⟩ : ∃ p, compile source = .ok p := exists_of_isOk (by decide +kernel)
  exact ⟨p, hp, jumps_contained hp {} stepBound⟩

/-! ## Outcomes -/

/-- **How a run settles** that starts from the memory `m`, and how its bare counterpart ends then.
The active calls are again what they were. The run has come to its end or has been told to end, and
so has the bare one; or it reports an error at a place, which is what the bare one has stopped with,
and lists the calls that were active there, the outermost first. -/
structure Settles {α : Type} (m : Memory) (r s : Except Interrupt α × Memory) : Prop where
  calls : r.2.calls = m.calls
  store : s.2.store = r.2.store
  ends : match r.1 with
    | .ok _ | .error .unwind | .error .cancelled | .error .spent => s.1 = r.1
    | .error (.sketch e) => e.place ≠ none ∧ e.stack = some s.2.calls.reverse ∧
      ∃ raised, s.1 = .error raised ∧ raised.ReportedAs e.complaint
    | .error _ => False

theorem settles_of_reports {α : Type} {m : Memory} {r s : Except Interrupt α × Memory}
    (hr : Reports Quiet m r s) (hjumps : ∀ i, r.1 = .error i → i.Within .outside)
    (hplaces : ∀ i, r.1 = .error i → i.Placed) : Settles m r s where
  calls := hr.calls
  store := hr.store
  ends := by
    obtain ⟨hs, -, hquiet⟩ | ⟨e, i, he, hs, hi, hstack⟩ := hr.ends
    · -- what both end with is neither an error nor a jump
      match hr₁ : r.1 with
      | .ok _ => exact hs.trans hr₁
      | .error .unwind | .error .cancelled | .error .spent => exact hs.trans hr₁
      | .error (.sketch e) | .error (.mishap mi) => exact (hquiet _ hr₁).elim
      | .error .breakLoop | .error .continueLoop => exact absurd (hjumps _ hr₁) Bool.false_ne_true
      | .error (.returned v) => exact absurd rfl (hjumps _ hr₁)
    · rw [he]
      exact ⟨hplaces _ he, hstack, i, hs, hi⟩

theorem settles_top (h : compile source = .ok p) (b : Binding) (fuel : Nat) :
    Act.Alike (Settles freshMemory)
      ((execBody b fuel globalScope p.statements).runFrom freshMemory)
      ((Bare.execBody b fuel globalScope p.statements).runFrom freshMemory) := by
  have hrunnable := runnable_of_compile h
  have jumps := (contained b fuel).execBody globalScope hrunnable _ sound_freshMemory
  have places : PlacesAt (execBody b fuel globalScope p.statements) freshMemory :=
    placesAt_execBody fuel open_freshMemory fun s hs => (hrunnable s hs).loc
  have reports := (tracked b fuel).entered globalScope p.statements _ open_freshMemory
  exact ((reports.and_always jumps).and_always places).mono fun _ _ ⟨⟨hr, hj⟩, hp⟩ =>
    settles_of_reports hr hj.2 hp

theorem settles_call (h : compile source = .ok p) (b : Binding) (fuel : Nat) {m : Memory}
    (hm : p.Reaches m) (hcalls : m.calls = []) (e : EntryPoint) :
    Act.Alike (Settles m) ((callFunction b fuel e.home e.name []).runFrom m)
      ((Bare.callFunction b fuel e.home e.name []).runFrom m) := by
  have hsound := sound_of_reaches h hm
  have hdeep : m.calls.length < callLimit := by rw [hcalls]; decide
  have jumps := (contained b fuel).callFunction e.home e.name [] m hsound
  have places : PlacesAt (callFunction b fuel e.home e.name []) m :=
    placesAt_callFunction fuel e.home e.name [] hsound hdeep
  have reports := (tracked b fuel).called e.home e.name [] m hdeep
  exact ((reports.and_always jumps).and_always places).mono fun _ _ ⟨⟨hr, hj⟩, hp⟩ =>
    settles_of_reports hr hj.2 hp

/-- Between runs no call is active. -/
theorem calls_of_reaches (h : compile source = .ok p) {m : Memory} (hm : p.Reaches m) :
    m.calls = [] := by
  induction hm with
  | top b fuel hr =>
    obtain ⟨s, -, settles⟩ := (settles_top h b fuel).ends hr
    exact settles.calls
  | call b fuel e hm hr ih =>
    obtain ⟨s, -, settles⟩ := (settles_call h b fuel hm ih e).ends hr
    exact settles.calls.trans ih

/-- **How the runs of a compiled program end**, whatever they are bound to, whatever is replied and
however their rests end: top-level code that runs in a fresh memory, and any function of the sketch
that is called afterwards. -/
theorem runs_settle (h : compile source = .ok p) (b : Binding) (fuel : Nat) :
    Act.Alike (Settles freshMemory)
      ((execBody b fuel globalScope p.statements).runFrom freshMemory)
      ((Bare.execBody b fuel globalScope p.statements).runFrom freshMemory) ∧
    ∀ m, p.Reaches m → ∀ e : EntryPoint, Act.Alike (Settles m)
      ((callFunction b fuel e.home e.name []).runFrom m)
      ((Bare.callFunction b fuel e.home e.name []).runFrom m) :=
  ⟨settles_top h b fuel, fun _ hm e => settles_call h b fuel hm (calls_of_reaches h hm) e⟩

/-- A function that gives a command for a pin that does not exist, and a callee that is none. -/
theorem runs_settle_refused :
    let source := "function light(pin) \x7b digitalWrite(pin, HIGH); \x7d
      async function setup() \x7b light(-1); \x7d
      async function loop() \x7b HIGH(); await delay(1); \x7d"
    ∃ p, compile source = .ok p ∧
      Act.Alike (Settles freshMemory)
        ((execBody {} stepBound globalScope p.statements).runFrom freshMemory)
        ((Bare.execBody {} stepBound globalScope p.statements).runFrom freshMemory) ∧
      ∀ m, p.Reaches m → ∀ e : EntryPoint, Act.Alike (Settles m)
        ((callFunction {} stepBound e.home e.name []).runFrom m)
        ((Bare.callFunction {} stepBound e.home e.name []).runFrom m) := by
  intro source
  obtain ⟨p, hp⟩ : ∃ p, compile source = .ok p := exists_of_isOk (by decide +kernel)
  exact ⟨p, hp, runs_settle hp {} stepBound⟩

end LedSketch
