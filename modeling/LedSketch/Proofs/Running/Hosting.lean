import LedSketch.Proofs.Running.Abiding

/-!
# What the library keeps to

The functions of the library meet the board in few ways: they ask and go on with the reply, look
whether the sketch is live, and wait. A discipline that admits these admits the whole library, and
with it every run of every sketch.

* `Discipline.Admits` — what a discipline has to admit;
* `Admits.callHost` — then it admits the library;
* `Admits.runTop`, `Admits.callEntry` — and every run of a sketch.
-/

namespace LedSketch

open Eval BoardFunctions

/-- A discipline admits what the library does, if the board replies in certain ways only. -/
structure Discipline.Admits (d : Discipline) (E : Interrupt → Prop)
    (replies : (r : Request) → r.Reply → Prop) : Prop where
  ordinary : Ordinary E
  asking : ∀ (r : Request) {α : Type} {f : r.Reply → Eval α},
    (∀ reply, replies r reply → Abides d E (f reply)) → Abides d E (ask r >>= f)
  /-- A sketch unwinds when it is told that it is not live. -/
  command : ∀ c, replies (.command c) (.error .dead) → E .unwind
  print : ∀ text, replies (.print text) (.error .dead) → E .unwind
  checkLive : Abides d E checkLive
  waiting : ∀ b fuel s, Abides d E (waiting b fuel s)

namespace Discipline.Admits

variable {d : Discipline} {E : Interrupt → Prop} {replies : (r : Request) → r.Reply → Prop}
  (h : d.Admits E replies)
include h

/-! ## Board functions -/

theorem granted {reply : Except Denial Unit} (hd : reply = .error .dead → E .unwind) :
    Abides d E (granted reply) := by
  match reply with
  | .ok () => exact abides_pure _
  | .error .dead => exact abides_throw (hd rfl)
  | .error (.refused _) =>
    exact abides_store.bind fun _ => (abides_ofMishap h.ordinary _).bind fun _ =>
      abides_complain h.ordinary _

theorem commanding (c : Strip.Command) : Abides d E (BoardFunctions.command c) :=
  h.asking _ fun _ hr => (h.granted fun hd => h.command c (hd ▸ hr)).bind fun _ => abides_pure _

theorem level (pin : Value) : Abides d E (level pin) := by
  refine h.asking _ fun reply _ => ?_
  split
  · exact abides_pure _
  · exact abides_store.bind fun _ => (abides_ofMishap h.ordinary _).bind fun _ =>
      abides_complain h.ordinary _

theorem delay (b : Binding) (fuel : Nat) (ms : Number) : Abides d E (delay b fuel ms) :=
  (abides_ofMishap h.ordinary _).bind fun _ => h.waiting _ _ _

theorem drawn (width offset : Number) : Abides d E (drawn width offset) := by
  refine h.asking _ fun share _ => (abides_ofMishap h.ordinary _).bind fun x => ?_
  split
  · exact abides_pure _
  · split
    · exact abides_pure _
    · exact (abides_ofMishap h.ordinary _).bind fun _ => abides_pure _

theorem finite (n : Number) : Abides d E (finite n) := abides_ofMishap h.ordinary _

theorem random (low high : Value) : Abides d E (random low high) := by
  have hE := h.ordinary
  unfold BoardFunctions.random
  split
  · refine (h.finite _).bind fun _ => ?_
    split
    · exact (abides_complain hE _).bind fun _ => h.drawn _ _
    · exact h.drawn _ _
  · -- both bounds are looked at before the number is drawn
    have between (lo hi : Number) : Abides d E
        (do BoardFunctions.drawn (← ofMishap (hi.sub lo)) lo) :=
      (abides_ofMishap hE _).bind fun _ => h.drawn _ _
    have above (lo hi : Number) : Abides d E (do
        if !(← BoardFunctions.finite hi) || hi.le lo then complain .randomNeedsRange
        BoardFunctions.drawn (← ofMishap (hi.sub lo)) lo) := by
      refine (h.finite _).bind fun _ => ?_
      split
      · exact (abides_complain hE _).bind fun _ => between _ _
      · exact between _ _
    refine (h.finite _).bind fun _ => ?_
    split
    · exact (abides_complain hE _).bind fun _ => above _ _
    · exact above _ _

theorem call (b : Binding) (fuel : Nat) (f : BoardFunction) (args : List Value) :
    Abides d E (call b fuel f args) := by
  have hE := h.ordinary
  refine (abides_ofMishap hE _).bind fun _ => ?_
  cases f with
  | pinMode | digitalWrite | analogWrite | toggle | setAll | shiftLeft | shiftRight =>
    exact h.commanding _
  | digitalRead | analogRead => exact (h.level _).bind fun _ => abides_pure _
  | delay => exact (h.delay _ _ _).bind fun _ => abides_pure _
  | millis => exact h.asking _ fun _ _ => (abides_ofMishap hE _).bind fun _ => abides_pure _
  | random => exact h.random _ _
  | constrain => exact abides_pure _
  | map =>
    have mapped (x inMin inMax outMin outMax : Number) : Abides d E
        (do return .num (← ofMishap (mapRange x inMin inMax outMin outMax)) : Eval Value) :=
      (abides_ofMishap hE _).bind fun _ => abides_pure _
    dsimp only
    split
    · exact (abides_complain hE _).bind fun _ => mapped _ _ _ _ _
    · exact mapped _ _ _ _ _
  | print =>
    exact h.checkLive.bind fun _ => (abides_mapM (fun _ => abides_display hE _) _).bind fun _ =>
      h.asking _ fun _ hr => (h.granted fun hd => h.print _ (hd ▸ hr)).bind fun _ => abides_pure _

/-- **What admits the ways to meet the board admits the library.** -/
theorem callHost (b : Binding) (fuel : Nat) (callee : Node) (f : Value) (args : List Value) :
    Abides d E (Running.callHost b fuel callee f args) := by
  have hE := h.ordinary
  have chance : Abides d E (ask .chance) := by
    have asked := h.asking .chance (f := pure) fun _ _ => abides_pure _
    rwa [bind_pure] at asked
  unfold Running.callHost
  split
  · exact h.call _ _ _ _
  · exact Running.abides_callMath hE chance _ _
  · exact Running.abides_callList hE _ _ _
  · exact Running.abides_callText hE _ _ _
  · exact Running.abides_callToFixed hE _ _
  · exact (Running.abides_refusedCallee hE _ _).bind fun _ => abides_complain hE _

/-! ## Programs -/

theorem running (b : Binding) (fuel : Nat) : Running.Abiding b d E fuel :=
  Running.abiding h.ordinary (h.callHost b) fuel

theorem runTop (b : Binding) (statements : List Node) :
    Abides d E (Program.runTop b statements) :=
  (h.running b _).execBody _ _

theorem entryPoint (name : String) : Abides d E (Program.entryPoint name) := by
  refine abides_store.bind fun _ => (abides_ofComplaint h.ordinary _).bind fun _ => ?_
  split
  · exact abides_pure _
  · exact abides_complain h.ordinary _

theorem instantiate (b : Binding) (p : Compiled) : Abides d E (Program.instantiate b p) :=
  (h.runTop b _).bind fun _ => (h.entryPoint _).bind fun _ => (h.entryPoint _).bind fun _ =>
    abides_pure _

theorem callEntry (b : Binding) (e : EntryPoint) : Abides d E (Program.callEntry b e) :=
  (h.running b _).callFunction _ _ _

/-- The same where nobody asks for the result. -/
theorem enter (b : Binding) (e : EntryPoint) : Abides d E (do let _ ← Program.callEntry b e) :=
  (h.callEntry b e).bind fun _ => abides_pure _

end Discipline.Admits
end LedSketch
