import LedSketch.Proofs.Running.Hosting
import LedSketch.Session.Bench

/-!
# Sketches that are not live

A sketch that is not live is denied every command and every line, and a wait that learns of it
unwinds. So whatever is left of the sketch runs to its end at once: it never rests again, and all
that it takes from the bench are numbers that it draws. This holds of evaluation that starts when
the sketch is not live any more, and of evaluation that is woken then.

* `Discipline.heeding`, `admits_heeding` — every run of a sketch heeds whether it is live;
* `Act.Abides.advance_of_dead` — what is left of it changes nothing;
* `Program.frozen_of_dead` — no run of a sketch that is not live reaches the strip or the console.
-/

namespace LedSketch

/-! ## Heeding -/

/-- Whether a reply is one that a sketch gets that is not live. -/
def Request.DeadReply : (r : Request) → r.Reply → Prop
  | .isLive, live => live = false
  | .command _, reply | .print _, reply => reply = .error .dead
  | .now, _ | .draw, _ | .chance, _ | .read _, _ => True

/-- The terms of a sketch that is not live: it may ask for anything and must not rest. -/
def Terms.dead : Terms := ⟨fun _ => True, Request.DeadReply, False⟩

namespace Act

variable {α β : Type} {P : α → Prop} {Q : β → Prop}

/-- Whatever the board has replied, the computation keeps to the terms of a sketch that is not live
if that is what it finds when it is woken. -/
def Heedful (P : α → Prop) : Act α → Prop
  | done a => P a
  | ask _ k => ∀ reply, (k reply).Heedful P
  | rest _ k => ∀ wake, (k wake).Abides .dead P ∧ (k wake).Heedful P

theorem Heedful.bind {x : Act α} {f : α → Act β} (h : x.Heedful P)
    (hf : ∀ a, P a → (f a).Abides .dead Q ∧ (f a).Heedful Q) : (x.bind f).Heedful Q := by
  induction x with
  | done a => exact (hf a h).2
  | ask r k ih => exact fun reply => ih reply (h reply)
  | rest nap k ih => exact fun wake => ⟨(h wake).1.bind fun a ha => (hf a ha).1, ih wake (h wake).2⟩

end Act

/-- The discipline of heeding whether one is live, at the start and whenever one is woken. -/
def Discipline.heeding : Discipline where
  Keeps P x := x.Abides .dead P ∧ x.Heedful P
  done h := ⟨h, h⟩
  bind h hf := ⟨h.1.bind fun a ha => (hf a ha).1, h.2.bind hf⟩

/-! ## The library -/

namespace BoardFunctions

open Eval

/-- Evaluation may end in any way. -/
abbrev Anyhow : Interrupt → Prop := fun _ => True

variable {α : Type}

theorem heeds_ask {r : Request} {f : r.Reply → Eval α}
    (hf : ∀ reply, Abides .heeding Anyhow (f reply)) : Abides .heeding Anyhow (ask r >>= f) := by
  intro m
  rw [runFrom_bind]
  exact ⟨⟨trivial, fun reply _ => (hf reply m).1⟩, fun reply => (hf reply m).2⟩

/-- An evaluation heeds whenever it is woken, but takes for granted that it is live at the start. -/
def Trusting (x : Eval α) : Prop :=
  ∀ m, (x.runFrom m).Heedful fun r => ∀ i, r.1 = .error i → Anyhow i

theorem trusting_ask {r : Request} {f : r.Reply → Eval α} (hf : ∀ reply, Trusting (f reply)) :
    Trusting (ask r >>= f) := by
  intro m
  rw [runFrom_bind]
  exact fun reply => hf reply m

theorem trusting_rest {x : Eval α} (hx : Abides .heeding Anyhow x) (nap : Nap) :
    Trusting (do rest nap; x) := by
  intro m
  rw [runFrom_bind]
  rintro (_ | _)
  · exact hx m
  · exact ⟨fun _ _ => trivial, fun _ _ => trivial⟩

/-- Who has asked whether it is live may take it for granted. -/
theorem heeds_isLive {f : Request.isLive.Reply → Eval α}
    (dead : Abides .heeding Anyhow (f (false : Bool))) (live : Trusting (f (true : Bool))) :
    Abides .heeding Anyhow (ask .isLive >>= f) := by
  intro m
  rw [runFrom_bind]
  constructor
  · refine ⟨trivial, ?_⟩
    rintro _ rfl
    exact (dead m).1
  · rintro (_ | _)
    · exact (dead m).2
    · exact live m

/-- A wait rests only behind a look at whether it is live. -/
theorem heeds_waiting (b : Binding) (fuel : Nat) (s : Wait.State Float) :
    Abides .heeding Anyhow (waiting b fuel s) := by
  induction fuel generalizing s with
  | zero => exact abides_throw trivial
  | succ fuel ih =>
    rw [waiting]
    refine heeds_isLive (heeds_ask fun (now : Float) => ?_) (trusting_ask fun (now : Float) => ?_)
    · rw [Wait.step_of_dead]
      exact abides_throw trivial
    · split
      · exact fun _ _ _ => trivial
      · exact fun _ _ _ => trivial
      · exact trusting_rest (ih _) _
      · exact trusting_rest (ih _) _

theorem admits_heeding : Discipline.Admits .heeding Anyhow fun _ _ => True where
  ordinary _ _ := trivial
  asking _ _ _ hf := heeds_ask fun reply => hf reply trivial
  command _ _ := trivial
  print _ _ := trivial
  checkLive := heeds_ask fun live => by
    cases live
    · exact abides_throw trivial
    · exact abides_pure _
  waiting := heeds_waiting

end BoardFunctions

/-! ## The bench -/

namespace Bench

variable {w : Wiring} {b b' b'' : Bench}

/-- Two benches differ at most in the numbers that have been drawn. -/
def Drawn (b b' : Bench) : Prop := b' = { b with draws := b'.draws, chances := b'.chances }

theorem Drawn.refl (b : Bench) : Drawn b b := rfl

theorem Drawn.trans (h : Drawn b b') (h' : Drawn b' b'') : Drawn b b'' := by
  rw [Drawn] at h h' ⊢
  rw [h', h]

theorem Drawn.isLive (h : Drawn b b') (w : Wiring) : b'.isLive w = b.isLive w := by
  rw [h]
  rfl

theorem drawn_perform (hd : b.isLive w = false) (r : Request) : Drawn b (b.perform w r).2 := by
  cases r <;> simp [Drawn, perform, hd]

theorem deadReply_perform (hd : b.isLive w = false) (r : Request) :
    r.DeadReply (b.perform w r).1 := by
  cases r with
  | isLive => exact hd
  | now | draw | chance | read => trivial
  | command | print =>
    simp only [perform, hd, Request.DeadReply, Bool.false_eq_true, if_false]
    rfl

end Bench

/-- What keeps to the terms of a sketch that is not live runs to its end without a rest. -/
theorem Act.Abides.advance_of_dead {α : Type} {P : α → Prop} {act : Act α} {w : Wiring} {b : Bench}
    (h : act.Abides .dead P) (hd : b.isLive w = false) :
    ∃ a b', b.advance w act = (.done a, b') ∧ P a ∧ b.Drawn b' := by
  induction act generalizing b with
  | done a => exact ⟨a, b, rfl, h, .refl b⟩
  | rest nap k => exact h.1.elim
  | ask r k ih =>
    have drawn := Bench.drawn_perform hd r
    obtain ⟨a, b', advanced, ha, drawn'⟩ :=
      ih _ (h.2 _ (Bench.deadReply_perform hd r)) ((drawn.isLive w).trans hd)
    exact ⟨a, b', advanced, ha, drawn.trans drawn'⟩

/-! ## Runs of sketches -/

namespace Act

variable {α : Type}

/-- What is left of a computation when one of its rests ends, whatever the board has replied. -/
inductive Remains : Act α → Act α → Prop
  | woken (nap : Nap) (k : Wake → Act α) (wake : Wake) : Remains (.rest nap k) (k wake)
  | rest (nap : Nap) (k : Wake → Act α) (wake : Wake) {x : Act α} :
    Remains (k wake) x → Remains (.rest nap k) x
  | ask (r : Request) (k : r.Reply → Act α) (reply : r.Reply) {x : Act α} :
    Remains (k reply) x → Remains (.ask r k) x

theorem Heedful.remains {P : α → Prop} {x y : Act α} (h : x.Heedful P) (hy : x.Remains y) :
    y.Abides .dead P := by
  induction hy with
  | woken nap k wake => exact (h wake).1
  | rest nap k wake _ ih => exact ih (h wake).2
  | ask r k reply _ ih => exact ih (h reply)

/-- A computation, and whatever is left of it behind a rest, is over at once and changes neither
strips nor consoles. -/
def Frozen (w : Wiring) (b : Bench) (act : Act α) : Prop :=
  ∀ x, x = act ∨ act.Remains x → ∃ a b', b.advance w x = (.done a, b') ∧
    b'.strips = b.strips ∧ b'.consoles = b.consoles

end Act

open BoardFunctions in
theorem Eval.Abides.frozen {α : Type} {x : Eval α} (h : Abides .heeding Anyhow x) {w : Wiring}
    {b : Bench} (hd : b.isLive w = false) (m : Memory) : (x.runFrom m).Frozen w b := by
  intro y hy
  have abides : y.Abides .dead fun r => ∀ i, r.1 = .error i → Anyhow i := by
    rcases hy with rfl | hy
    · exact (h m).1
    · exact (h m).2.remains hy
  obtain ⟨a, b', advanced, -, drawn⟩ := abides.advance_of_dead hd
  refine ⟨a, b', advanced, ?_, ?_⟩ <;> rw [drawn]

namespace Program

open BoardFunctions

variable {w : Wiring} {bench : Bench}

/-- **A sketch that is not live has no effect.** From whatever memory and in whatever scope its
top-level code runs, or `setup` or `loop` are called, and from whichever of their rests they are
woken: if the sketch is not live, then they are over without another rest, in whatever way, and the
levels and modes of the strip and the lines of the console are what they were. -/
theorem frozen_of_dead (hd : bench.isLive w = false) (b : Binding) (p : Compiled) (fuel : Nat)
    (scope : ScopeRef) (e : EntryPoint) (m : Memory) :
    ((instantiate b p).runFrom m).Frozen w bench ∧
    ((Running.execBody b fuel scope p.statements).runFrom m).Frozen w bench ∧
    ((callEntry b e).runFrom m).Frozen w bench :=
  ⟨(admits_heeding.instantiate b p).frozen hd m,
    ((admits_heeding.running b fuel).execBody scope p.statements).frozen hd m,
    (admits_heeding.callEntry b e).frozen hd m⟩

/-- A program that lights its strip and waits. -/
def lighting : Compiled :=
  ⟨"setAll(HIGH); delay(1);",
    [.exprStmt none (.call none (.identifier none "setAll") [.identifier none "HIGH"]),
      .exprStmt none (.await none (.call none (.identifier none "delay")
        [.literal none (.int 1)]))]⟩

/-- The second generation of a clock has replaced the one that keeps the sketch live. -/
theorem frozen_lighting :
    Bench.isLive { clocks := ⟨[⟨2, some 2⟩]⟩ } ⟨0, 0, some (0, 1)⟩ = false ∧
      ((runTop {} lighting.statements).runFrom freshMemory).Frozen ⟨0, 0, some (0, 1)⟩
        { clocks := ⟨[⟨2, some 2⟩]⟩ } :=
  have dead : Bench.isLive { clocks := ⟨[⟨2, some 2⟩]⟩ } ⟨0, 0, some (0, 1)⟩ = false := by decide
  ⟨dead, (frozen_of_dead dead {} lighting stepBound globalScope ⟨0, "setup"⟩ freshMemory).2.1⟩

end Program
end LedSketch
