import LedSketch.Proofs.Running.Hosting
import LedSketch.Session.Drive

/-!
# Sketches that are live

As long as the replies of the board say that a sketch is live, its evaluation never ends early as if
it were not. The library gives up only in answer to the board, and the evaluator hands on what the
library says; so an evaluation that unwinds has been told to.

The pause between two rounds moreover writes nothing.

* `Program.abides_instantiate`, `Program.abides_callEntry` — evaluation unwinds only when told to;
* `abides_delay` — the same for the pause, which asks for no line to be written.
-/

namespace LedSketch

/-- Whether a reply is one that a live sketch gets. -/
def Request.LiveReply : (r : Request) → r.Reply → Prop
  | .isLive, live => live = true
  | .command _, reply | .print _, reply => reply ≠ .error .dead
  | .now, _ | .draw, _ | .chance, _ | .read _, _ => True

/-- The terms of a live sketch that asks only for what it may. -/
def Terms.live (asks : Request → Prop) : Terms := ⟨asks, Request.LiveReply, True⟩

/-- The discipline of keeping to them. -/
abbrev Discipline.live (asks : Request → Prop) : Discipline := Terms.live asks

/-- Whether a request writes no line. -/
def Request.Hushed : Request → Prop
  | .print _ => False
  | _ => True

open Eval

/-- Whether evaluation ends early in another way than as if its session were not current. -/
def Interrupt.Wanted (i : Interrupt) : Prop := i ≠ .unwind

theorem ordinary_wanted : Ordinary Interrupt.Wanted := fun _ h => h

variable {asks : Request → Prop}

theorem abides_ask_bind {α : Type} {r : Request} {f : r.Reply → Eval α} (h : asks r)
    (hf : ∀ reply, r.LiveReply reply → Abides (.live asks) Interrupt.Wanted (f reply)) :
    Abides (.live asks) Interrupt.Wanted (ask r >>= f) := by
  intro m
  rw [runFrom_bind]
  exact ⟨h, fun reply granted => hf reply granted m⟩

theorem abides_checkLive (h : asks .isLive) : Abides (.live asks) Interrupt.Wanted checkLive := by
  refine abides_ask_bind h fun live (hlive : live = true) => ?_
  rw [hlive]
  exact abides_pure _

/-! ## Waiting -/

theorem Wait.step_of_live {τ : Type} [Add τ] [Sub τ] [LE τ] [DecidableLE τ] [Min τ] [OfNat τ 0]
    (tick : τ) (yields : Bool) (s : State τ) (now : τ) : step tick yields s true now ≠ .unwound := by
  unfold step await
  grind

namespace BoardFunctions

theorem abides_waiting (live : asks .isLive) (now : asks .now) (b : Binding) (fuel : Nat)
    (s : Wait.State Float) : Abides (.live asks) Interrupt.Wanted (waiting b fuel s) := by
  induction fuel generalizing s with
  | zero => exact abides_throw (ordinary_wanted .spent nofun)
  | succ fuel ih =>
    rw [waiting]
    refine abides_ask_bind live fun l (hl : l = true) => abides_ask_bind now fun t _ => ?_
    rw [hl]
    have rested (nap : Nap) : Abides (.live asks) Interrupt.Wanted (rest nap) :=
      abides_rest trivial (ordinary_wanted .cancelled nofun) nap
    split
    · next unwound => exact absurd unwound (Wait.step_of_live _ _ _ _)
    · exact abides_pure _
    · exact (rested _).bind fun _ => ih _
    · exact (rested _).bind fun _ => ih _

theorem abides_delay (live : asks .isLive) (now : asks .now) (b : Binding) (fuel : Nat)
    (ms : Number) : Abides (.live asks) Interrupt.Wanted (delay b fuel ms) :=
  (abides_ofMishap ordinary_wanted _).bind fun _ => abides_waiting live now _ _ _

/-! ## Runs -/

/-- What a sketch may ask for in a run: everything. -/
abbrev Open : Terms := .live fun _ => True

theorem admits_open : Discipline.Admits Open Interrupt.Wanted Request.LiveReply where
  ordinary := ordinary_wanted
  asking _ _ _ hf := abides_ask_bind trivial hf
  command _ h := absurd rfl h
  print _ h := absurd rfl h
  checkLive := abides_checkLive trivial
  waiting := abides_waiting trivial trivial

end BoardFunctions

namespace Program

open BoardFunctions (Open admits_open)

theorem abides_instantiate (b : Binding) (p : Compiled) :
    Abides Open Interrupt.Wanted (instantiate b p) :=
  admits_open.instantiate b p

theorem abides_callEntry (b : Binding) (e : EntryPoint) :
    Abides Open Interrupt.Wanted (do let _ ← callEntry b e) :=
  admits_open.enter b e

end Program
end LedSketch
