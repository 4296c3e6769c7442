import LedSketch.Proofs.Running.Abiding

/-!
# Invariants of evaluation

An evaluation upholds an invariant if it leads from memories that satisfy it to memories that
satisfy it, whatever the board replies and however it ends. What is moreover said is in which ways
it may end early.

The library upholds every invariant that looks at the scopes and the active calls alone: it has
lists and tokens of its own to change, and nothing else. It ends early with what nobody has located
yet, and never jumps.

* `Act.Always` — what all runs of a computation end with;
* `Eval.Upholds` — keeping an invariant, and ending early in allowed ways only;
* `Interrupt.Plain` — how the library may end early;
* `Running.upholds_callHost` — what the library upholds.
-/

namespace LedSketch

/-- The terms that allow everything. -/
def Terms.free : Terms := ⟨fun _ => True, fun _ _ => True, True⟩

/-- **Every run** of a computation ends with a result that satisfies `P`: whatever is replied, and
however its rests end. -/
abbrev Act.Always {α : Type} (P : α → Prop) (x : Act α) : Prop := x.Abides .free P

namespace Act

variable {α β : Type} {P Q : α → Prop}

theorem Always.mono {x : Act α} (h : x.Always P) (hPQ : ∀ a, P a → Q a) : x.Always Q := by
  rw [← bind_done x]
  exact Abides.bind h hPQ

theorem always_true (x : Act α) : x.Always fun _ => True := by
  induction x with
  | done a => trivial
  | ask r k ih => exact ⟨trivial, fun reply _ => ih reply⟩
  | rest nap k ih => exact ⟨trivial, ih⟩

theorem Always.and {x : Act α} (h : x.Always P) (h' : x.Always Q) :
    x.Always fun a => P a ∧ Q a := by
  induction x with
  | done a => exact ⟨h, h'⟩
  | ask r k ih => exact ⟨trivial, fun reply t => ih reply (h.2 reply t) (h'.2 reply t)⟩
  | rest nap k ih => exact ⟨trivial, fun wake => ih wake (h.2 wake) (h'.2 wake)⟩

end Act

/-- What ends well does not end early. -/
theorem not_early {α : Type} {E : Interrupt → Prop} {a : α} :
    ∀ i, (Except.ok a : Except Interrupt α) = .error i → E i := by
  rintro _ ⟨⟩

namespace Eval

variable {α β : Type} {I : Memory → Prop} {E F : Interrupt → Prop}

/-- **Upholds the invariant `I`** in every run, and ends early only in ways that `E` allows. -/
def Upholds (I : Memory → Prop) (E : Interrupt → Prop) (x : Eval α) : Prop :=
  ∀ m, I m → (x.runFrom m).Always fun r => I r.2 ∧ ∀ i, r.1 = .error i → E i

theorem Upholds.mono {x : Eval α} (h : Upholds I E x) (hEF : ∀ i, E i → F i) : Upholds I F x :=
  fun m hm => (h m hm).mono fun _ hr => ⟨hr.1, fun i hi => hEF i (hr.2 i hi)⟩

theorem upholds_pure (a : α) : Upholds I E (pure a) := fun _ hm => ⟨hm, not_early⟩

theorem upholds_throw {i : Interrupt} (h : E i) : Upholds I E (throw i : Eval α) := by
  refine fun m hm => ⟨hm, ?_⟩
  rintro _ ⟨⟩
  exact h

theorem Upholds.bind {x : Eval α} {f : α → Eval β} (hx : Upholds I E x)
    (hf : ∀ a, Upholds I E (f a)) : Upholds I E (x >>= f) := by
  intro m hm
  rw [runFrom_bind]
  refine (hx m hm).bind ?_
  rintro ⟨i | a, m'⟩ h
  · exact upholds_throw (h.2 i rfl) m' h.1
  · exact hf a m' h.1

theorem Upholds.tryCatch {x : Eval α} {h : Interrupt → Eval α} (hx : Upholds I E x)
    (hh : ∀ i, E i → Upholds I F (h i)) : Upholds I F (tryCatch x h) := by
  intro m hm
  rw [runFrom_tryCatch]
  refine (hx m hm).bind ?_
  rintro ⟨i | a, m'⟩ hi
  · exact hh i (hi.2 i rfl) m' hi.1
  · exact upholds_pure a m' hi.1

theorem upholds_get : Upholds I E (get : Eval Memory) := fun _ hm => ⟨hm, not_early⟩

theorem upholds_store : Upholds I E store := fun _ hm => ⟨hm, not_early⟩

theorem upholds_modify {f : Memory → Memory} (hf : ∀ m, I m → I (f m)) :
    Upholds I E (modify f : Eval Unit) := fun m hm => ⟨hf m hm, not_early⟩

theorem upholds_ask (r : Request) : Upholds I E (ask r) :=
  fun _ hm => ⟨trivial, fun _ _ => ⟨hm, not_early⟩⟩

theorem upholds_rest (h : E .cancelled) (nap : Nap) : Upholds I E (rest nap) := by
  refine fun m hm => ⟨trivial, ?_⟩
  rintro (_ | _)
  · exact ⟨hm, not_early⟩
  · exact upholds_throw h m hm

theorem upholds_mapM {f : α → Eval β} (hf : ∀ a, Upholds I E (f a)) (as : List α) :
    Upholds I E (as.mapM f) := by
  induction as with
  | nil => exact upholds_pure _
  | cons a as ih =>
    rw [List.mapM_cons]
    exact (hf a).bind fun _ => ih.bind fun _ => upholds_pure _

end Eval

/-! ## Plain ends -/

/-- The complaints that only a program makes which could not have been compiled. -/
def Complaint.Defensive : Complaint → Prop
  | unknownStatement _ | cannotEvaluate _ | unsupportedOperator _ | badAssignmentTarget => True
  | _ => False

/-- An early end that nobody has located, that is no jump, and no defensive complaint. -/
def Interrupt.Plain : Interrupt → Prop
  | sketch e => e.place = none ∧ e.stack = none ∧ ¬ e.complaint.Defensive
  | breakLoop | continueLoop | returned _ => False
  | mishap _ | unwind | cancelled | spent => True

/-- An invariant that looks at the scopes and the active calls only. -/
def Memory.OfScopes (I : Memory → Prop) : Prop :=
  ∀ m m' : Memory, m'.calls = m.calls → m'.store.scopes = m.store.scopes → I m → I m'

namespace Eval

variable {α : Type} {I : Memory → Prop}

theorem upholds_complain {c : Complaint} (h : ¬ c.Defensive) :
    Upholds I Interrupt.Plain (complain c : Eval α) := upholds_throw ⟨rfl, rfl, h⟩

theorem upholds_ofMishap (r : Except Mishap α) : Upholds I Interrupt.Plain (ofMishap r) := by
  cases r with
  | ok a => exact upholds_pure a
  | error m => exact upholds_throw trivial

theorem upholds_ofComplaint {r : Except Complaint α} (h : ∀ c, r = .error c → ¬ c.Defensive) :
    Upholds I Interrupt.Plain (ofComplaint r) := by
  cases r with
  | ok a => exact upholds_pure a
  | error c => exact upholds_complain (h c rfl)

theorem upholds_display (v : Value) : Upholds I Interrupt.Plain (display v) :=
  upholds_store.bind fun _ => upholds_ofMishap _

/-- What is done with the store may rely on the invariant. -/
theorem upholds_store_bind {f : Store → Eval α} {E : Interrupt → Prop}
    (hf : ∀ m, I m → ((f m.store).runFrom m).Always fun r => I r.2 ∧ ∀ i, r.1 = .error i → E i) :
    Upholds I E (store >>= f) := by
  intro m hm
  rw [runFrom_bind]
  exact hf m hm

section Scopes

variable (hI : Memory.OfScopes I)
include hI

theorem upholds_freshToken : Upholds I Interrupt.Plain freshToken :=
  fun m hm => ⟨hI m _ rfl rfl hm, not_early⟩

theorem upholds_newList (vs : List Value) : Upholds I Interrupt.Plain (newList vs) :=
  fun m hm => ⟨hI m _ rfl rfl hm, not_early⟩

end Scopes

end Eval

/-! ## Operators -/

namespace Store

variable {st : Store} {a b : Value} {op : String}

theorem numeric_ne_sketch (r : Except Mishap Number) (e : SketchError) :
    numeric r ≠ .error (.sketch e) := by
  cases r <;> exact nofun

theorem plus_ne_sketch (e : SketchError) : st.plus a b ≠ .error (.sketch e) := by
  unfold plus
  split
  · cases st.display a with
    | error m => exact nofun
    | ok s => cases st.display b <;> exact nofun
  · exact numeric_ne_sketch _ _

/-- The only complaint about an operator is that it is not known. -/
theorem eq_of_binaryOperator_sketch {e : SketchError}
    (h : st.binaryOperator op a b = .error (.sketch e)) :
    e = { complaint := .unsupportedOperator op } := by
  unfold binaryOperator at h
  split at h
  all_goals first
    | exact absurd h (numeric_ne_sketch _ e)
    | exact absurd h (plus_ne_sketch e)
    | (injection h with h; injection h with h; exact h.symm)
    | injection h

end Store

/-! ## The library -/

namespace Running

open Eval

variable {I : Memory → Prop}

section Members

variable (hI : Memory.OfScopes I)

include hI in
theorem upholds_memberGet (object : Value) (name : String) :
    Upholds I Interrupt.Plain (Members.get object name) := by
  have fresh (f : Nat → Value) : Upholds I Interrupt.Plain (do return f (← freshToken)) :=
    (upholds_freshToken hI).bind fun _ => upholds_pure _
  unfold Members.get
  split
  · exact upholds_complain not_false
  · exact upholds_pure _
  · split
    · exact upholds_store.bind fun _ => upholds_pure _
    · split
      · exact fresh _
      · exact upholds_pure _
  · split
    · exact upholds_pure _
    · split
      · exact fresh _
      · exact upholds_pure _
  · split
    · split
      · exact fresh _
      · exact upholds_pure _
    · exact upholds_pure _

theorem upholds_element (container key : Value) :
    Upholds I Interrupt.Plain (Members.element container key) := by
  unfold Members.element
  split
  · exact upholds_store.bind fun _ => upholds_pure _
  · exact upholds_pure _
  · exact (upholds_display _).bind fun _ => upholds_pure _
  · exact (upholds_display _).bind fun _ => upholds_complain not_false
  · exact upholds_pure _

include hI

theorem upholds_writeAt (ref : ListRef) (i : Nat) (v : Value) :
    Upholds I Interrupt.Plain (Members.writeAt ref i v) := by
  refine upholds_store_bind fun m hm => ?_
  split
  · exact upholds_throw trivial m hm
  · exact ⟨hI m _ rfl rfl hm, not_early⟩

theorem upholds_storeAt (ref : ListRef) (key v : Value) :
    Upholds I Interrupt.Plain (Members.storeAt ref key v) := by
  unfold Members.storeAt
  refine (upholds_ofMishap _).bind fun i => ?_
  split
  · exact (upholds_ofMishap _).bind fun _ =>
      .bind (upholds_complain not_false) fun _ => upholds_writeAt hI _ _ _
  · exact upholds_writeAt hI _ _ _

theorem upholds_callList (ref : ListRef) (m : ListMember) (args : List Value) :
    Upholds I Interrupt.Plain (Members.callList ref m args) := by
  refine (upholds_ofMishap _).bind fun _ => ?_
  cases m with
  | push => exact fun m hm => ⟨hI m _ rfl rfl hm, not_early⟩
  | pop => exact fun m hm => ⟨hI m _ rfl rfl hm, not_early⟩
  | includes => exact upholds_store.bind fun _ => upholds_pure _
  | indexOf => exact upholds_store.bind fun _ => upholds_pure _
  | join =>
    refine upholds_store.bind fun st => ?_
    dsimp only
    split
    · refine (upholds_mapM (fun v => ?_) _).bind fun _ => upholds_pure _
      split
      · exact upholds_pure _
      · exact upholds_display _
    · exact upholds_throw trivial

omit hI in
theorem upholds_callText (s : String) (m : TextMember) (args : List Value) :
    Upholds I Interrupt.Plain (Members.callText s m args) := by
  refine (upholds_ofMishap _).bind fun _ => ?_
  have part : Upholds I Interrupt.Plain (do return (← display (args.headD .null)).toList) :=
    (upholds_display _).bind fun _ => upholds_pure _
  cases m with
  | toUpperCase => exact upholds_pure _
  | toLowerCase => exact upholds_pure _
  | includes => exact part.bind fun _ => upholds_pure _
  | indexOf => exact part.bind fun _ => upholds_pure _
  | charAt => exact (upholds_ofMishap _).bind fun _ => upholds_pure _

omit hI in
theorem upholds_callToFixed (n : Number) (args : List Value) :
    Upholds I Interrupt.Plain (Members.callToFixed n args) :=
  (upholds_ofMishap _).bind fun _ => (upholds_ofMishap _).bind fun _ =>
    (upholds_ofMishap _).bind fun _ => upholds_pure _

theorem upholds_callMath (f : MathFunction) (args : List Value) :
    Upholds I Interrupt.Plain (Members.callMath f args) := by
  refine (upholds_ofMishap _).bind fun _ => ?_
  split
  · exact (upholds_freshToken hI).bind fun _ => upholds_pure _
  · split
    · exact (upholds_ask _).bind fun _ => upholds_pure _
    · exact upholds_pure _

end Members

/-! ### Board functions -/

section Board

theorem not_defensive_refusal {st : Store} {r : Strip.Refusal} {c : Complaint}
    (h : r.complaint st = .ok c) : ¬ c.Defensive := by
  cases r with
  | invalidPin index last =>
    cases hp : st.plain index <;> rw [Strip.Refusal.complaint, hp] at h <;> cases h
    exact not_false
  | notOutput pin => cases h; exact not_false
  | unknownMode mode =>
    cases hp : st.shown mode <;> rw [Strip.Refusal.complaint, hp] at h <;> cases h
    exact not_false

/-- A refusal of the board is reported in its words. -/
theorem upholds_refuse {α : Type} (r : Strip.Refusal) : Upholds I Interrupt.Plain
    (do complain (← ofMishap (r.complaint (← store))) : Eval α) := by
  refine upholds_store.bind fun st => ?_
  cases h : r.complaint st with
  | ok c => exact upholds_complain (not_defensive_refusal h)
  | error m => exact upholds_throw trivial

theorem upholds_granted (reply : Except Denial Unit) :
    Upholds I Interrupt.Plain (granted reply) := by
  match reply with
  | .ok () => exact upholds_pure _
  | .error .dead => exact upholds_throw trivial
  | .error (.refused r) => exact upholds_refuse r

theorem upholds_checkLive : Upholds I Interrupt.Plain checkLive := by
  refine (upholds_ask _).bind fun live => ?_
  split
  · exact upholds_pure _
  · exact upholds_throw trivial

open BoardFunctions

theorem upholds_command (c : Strip.Command) : Upholds I Interrupt.Plain (command c) :=
  (upholds_ask _).bind fun _ => (upholds_granted _).bind fun _ => upholds_pure _

theorem upholds_level (pin : Value) : Upholds I Interrupt.Plain (level pin) := by
  refine (upholds_ask _).bind fun reply => ?_
  split
  · exact upholds_pure _
  · exact upholds_refuse _

theorem upholds_waiting (b : Binding) (fuel : Nat) (s : Wait.State Float) :
    Upholds I Interrupt.Plain (waiting b fuel s) := by
  induction fuel generalizing s with
  | zero => exact upholds_throw trivial
  | succ fuel ih =>
    rw [waiting]
    refine (upholds_ask _).bind fun _ => (upholds_ask _).bind fun _ => ?_
    split
    · exact upholds_throw trivial
    · exact upholds_pure _
    · exact (upholds_rest trivial _).bind fun _ => ih _
    · exact (upholds_rest trivial _).bind fun _ => ih _

theorem upholds_drawn (width offset : Number) : Upholds I Interrupt.Plain (drawn width offset) := by
  refine (upholds_ask _).bind fun _ => (upholds_ofMishap _).bind fun x => ?_
  split
  · exact upholds_pure _
  · split
    · exact upholds_pure _
    · exact (upholds_ofMishap _).bind fun _ => upholds_pure _

theorem upholds_random (low high : Value) : Upholds I Interrupt.Plain (random low high) := by
  unfold BoardFunctions.random
  split
  · refine (upholds_ofMishap _).bind fun _ => ?_
    split
    · exact .bind (upholds_complain not_false) fun _ => upholds_drawn _ _
    · exact upholds_drawn _ _
  · -- both bounds are looked at before the number is drawn
    have between (lo hi : Number) : Upholds I Interrupt.Plain
        (do drawn (← ofMishap (hi.sub lo)) lo) :=
      (upholds_ofMishap _).bind fun _ => upholds_drawn _ _
    have above (lo hi : Number) : Upholds I Interrupt.Plain (do
        if !(← finite hi) || hi.le lo then complain .randomNeedsRange
        drawn (← ofMishap (hi.sub lo)) lo) := by
      refine (upholds_ofMishap _).bind fun _ => ?_
      split
      · exact .bind (upholds_complain not_false) fun _ => between _ _
      · exact between _ _
    refine (upholds_ofMishap _).bind fun _ => ?_
    split
    · exact .bind (upholds_complain not_false) fun _ => above _ _
    · exact above _ _

theorem upholds_callBoard (b : Binding) (fuel : Nat) (f : BoardFunction) (args : List Value) :
    Upholds I Interrupt.Plain (BoardFunctions.call b fuel f args) := by
  refine (upholds_ofMishap _).bind fun _ => ?_
  cases f with
  | pinMode | digitalWrite | analogWrite | toggle | setAll | shiftLeft | shiftRight =>
    exact upholds_command _
  | digitalRead | analogRead => exact (upholds_level _).bind fun _ => upholds_pure _
  | delay =>
    exact ((upholds_ofMishap _).bind fun _ => upholds_waiting _ _ _).bind fun _ => upholds_pure _
  | millis => exact (upholds_ask _).bind fun _ => (upholds_ofMishap _).bind fun _ => upholds_pure _
  | random => exact upholds_random _ _
  | constrain => exact upholds_pure _
  | map =>
    have mapped (x inMin inMax outMin outMax : Number) : Upholds I Interrupt.Plain
        (do return .num (← ofMishap (mapRange x inMin inMax outMin outMax)) : Eval Value) :=
      (upholds_ofMishap _).bind fun _ => upholds_pure _
    dsimp only
    split
    · exact .bind (upholds_complain not_false) fun _ => mapped _ _ _ _ _
    · exact mapped _ _ _ _ _
  | print =>
    exact upholds_checkLive.bind fun _ => (upholds_mapM upholds_display _).bind fun _ =>
      (upholds_ask _).bind fun _ => (upholds_granted _).bind fun _ => upholds_pure _

end Board

theorem upholds_refusedCallee (callee : Node) (f : Value) :
    Upholds I Interrupt.Plain (refusedCallee callee f) := by
  unfold refusedCallee
  split
  · exact upholds_pure _
  · exact upholds_display f

/-- **The library** upholds whatever depends on the scopes and the active calls alone, and ends
early in plain ways only. -/
theorem upholds_callHost (hI : Memory.OfScopes I) (b : Binding) (fuel : Nat) (callee : Node)
    (f : Value) (args : List Value) :
    Upholds I Interrupt.Plain (callHost b fuel callee f args) := by
  unfold callHost
  split
  · exact upholds_callBoard _ _ _ _
  · exact upholds_callMath hI _ _
  · exact upholds_callList hI _ _ _
  · exact upholds_callText _ _ _
  · exact upholds_callToFixed _ _
  · exact (upholds_refusedCallee _ _).bind fun _ => upholds_complain not_false

end Running
end LedSketch
