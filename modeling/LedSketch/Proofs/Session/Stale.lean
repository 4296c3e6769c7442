import LedSketch.Proofs.Session.Workshop

/-!
# Stale sessions and the strips

A session whose generation is not current gives no command to a strip any more, whatever is left of
its sketch: every command is refused, and no stage of a turn reaches a strip by itself. There is one
exception. The first turn of a session clears the strip as soon as the program has been looked up,
without asking whether the session is still current; so a session that is stopped before its first
turn still darkens the strip, under the hands of whoever uses it by then.

* `Drive.Clears` — whether a turn clears the strip;
* `strips_resume_of_dead` — a turn of a stale session changes the strips in this way only;
* `Workshop.clears_stale` — and it does.
-/

namespace LedSketch

namespace Bench

variable {b b' : Bench} {s : Nat}

/-! ## What is dead stays dead -/

theorem Forth.dead (h : Forth b b') (hd : b.live s = false) : b'.live s = false := by
  rw [Bool.eq_false_iff] at hd ⊢
  exact fun hl => hd (h.live hl)

theorem Forth.isLive (h : Forth b b') {w : Wiring} (hl : b'.isLive w = true) :
    b.isLive w = true := by
  unfold Bench.isLive at hl ⊢
  split
  · rfl
  · next lease =>
    rw [lease] at hl
    exact h.current _ _ hl

/-! ## Turns of a stale session -/

/-- A sketch that is not live reaches no strip, however long it goes on. -/
theorem strips_advance_of_dead {α : Type} {w : Wiring} (act : Act α) (hd : b.isLive w = false) :
    (b.advance w act).2.strips = b.strips := by
  induction act generalizing b with
  | done | rest => rfl
  | ask r k ih =>
    have still : (b.perform w r).2.isLive w = false := by
      rw [Bool.eq_false_iff] at hd ⊢
      exact fun hl => hd ((onward_perform w b r).isLive hl)
    exact (ih _ still).trans (perform_of_dead hd r).1

theorem strips_proceed_of_dead (loop : EntryPoint) (fuel : Nat) (stage : Stage)
    (act : Act (Except Interrupt Unit × Memory)) (hd : b.live s = false) :
    (proceed s loop fuel stage act b).2.strips = b.strips := by
  induction fuel generalizing stage act b with
  | zero => rfl
  | succ fuel ih =>
    rw [proceed]
    have kept := strips_advance_of_dead act (isLive_wiring.trans hd)
    have dead := (onward_advance (b.sessions.get s).wiring act b).dead hd
    generalize b.advance (b.sessions.get s).wiring act = r at kept dead ⊢
    refine Eq.trans ?_ kept
    obtain ⟨⟨i | ⟨⟩, m⟩ | ⟨nap, k⟩, b'⟩ := r
    · exact strips_conclude b' s m.store i
    · cases stage with
      | setup =>
        exact (ih _ _ ((onward_inform b' s loopLine).dead dead)).trans (strips_inform _ _ _)
      | gap => exact ih _ _ dead
      | loop =>
        have counted := (aside_counted b' s).dead dead
        dsimp only
        split
        · exact (strips_close _ s).trans (strips_stopOwned _ s)
        · split
          · exact strips_fail _ s _ _
          · split
            · exact ih _ _ counted
            · rfl
    · rfl

theorem strips_openProgram_of_dead (act : Act (Except Interrupt EntryPoints × Memory))
    (hd : b.live s = false) : (openProgram s act b).2.strips = b.strips := by
  unfold openProgram
  dsimp only
  have kept := strips_advance_of_dead act (isLive_wiring.trans hd)
  have dead := (onward_advance (b.sessions.get s).wiring act b).dead hd
  generalize b.advance (b.sessions.get s).wiring act = r at kept dead ⊢
  refine Eq.trans ?_ kept
  match r, dead with
  | (.resting nap k, b'), _ => rfl
  | (.done (.error i, m), b'), _ => exact strips_conclude b' s m.store i
  | (.done (.ok entry, m), b'), dead =>
    exact (strips_proceed_of_dead _ _ _ _ ((onward_inform b' s setupLine).dead dead)).trans
      (strips_inform _ _ _)

/-- What the first turn of a session finds when it looks its program up. -/
def program (b : Bench) (s : Nat) : Except Fault Compiled :=
  ((b.introduced s).lookUpProgram (Dialect.toHostForm (b.sessions.get s).source)).1

theorem strips_enter_of_dead (hd : b.live s = false) :
    (b.enter s).2.strips =
      if (b.program s).isOk then b.strips.modify (b.sessions.get s).strip Strip.reset
      else b.strips := by
  rw [enter_eq, program]
  have unmoved := unmoved_lookUpProgram (b.introduced s)
    (Dialect.toHostForm (b.sessions.get s).source)
  generalize (b.introduced s).lookUpProgram _ = r at unmoved ⊢
  have strips : r.2.strips = b.strips := unmoved.strips
  have dead : r.2.live s = false := by
    refine ((onward_introduced b s).trans ?_).dead hd
    exact .of_eq unmoved.sessions unmoved.clocks unmoved.schedulers
  obtain ⟨f | program, b'⟩ := r
  · exact (strips_fail b' s {} f).trans strips
  · have cleared : live { b' with strips := b'.strips.modify (b.sessions.get s).strip Strip.reset }
        s = false := dead
    refine (strips_openProgram_of_dead _ cleared).trans ?_
    change b'.strips.modify _ _ = b.strips.modify _ _
    rw [show b'.strips = b.strips from strips]

end Bench

/-- Whether a turn clears the strip: the first one of a session whose program is found. -/
def Drive.Clears (s : Nat) (wake : Wake) (b : Bench) : Drive → Bool
  | .fresh => wake = .rested && (b.program s).isOk
  | .opening _ | .midway _ _ _ => false

/-- A turn of a stale session leaves the strips alone, unless it clears that of the session. -/
theorem Bench.strips_resume_of_dead {b : Bench} {s : Nat} (hd : b.live s = false) (d : Drive)
    (wake : Wake) :
    (d.resume s wake b).2.strips =
      if d.Clears s wake b then b.strips.modify (b.sessions.get s).strip Strip.reset
      else b.strips := by
  cases d with
  | fresh =>
    cases wake with
    | rested =>
      have clears : Drive.Clears s .rested b .fresh = (b.program s).isOk := by simp [Drive.Clears]
      rw [clears]
      exact strips_enter_of_dead hd
    | cancelled => rfl
  | opening k => exact strips_openProgram_of_dead _ hd
  | midway stage loop k => exact strips_proceed_of_dead _ _ _ _ hd

namespace Bench

variable {b : Bench} {i s : Nat}

/-! ## Stopping with nobody listening -/

theorem writeWithin_of_nobody {c : Nat} (h : b.listeners.get c = .nobody) (depth : Nat)
    (l : ConsoleLine) : b.writeWithin depth c l.severity l.text = b.append c l := by
  cases depth with
  | zero => rw [writeWithin_zero, h]
  | succ depth => rw [writeWithin_succ, h]

theorem stop_of_nobody (hr : (b.schedulers.get i).state = .running)
    (hs : (b.schedulers.get i).session = some s)
    (hl : b.listeners.get (b.schedulers.get i).console = .nobody) :
    (b.stop i).2 =
      ((((b.invalidate (b.schedulers.get i).clock (b.sessions.get s).generation).finish s .stopped
        none).append (b.schedulers.get i).console Remark.stopped.line).note
        ["scheduler", s!"stop generation={(b.sessions.get s).generation}"]) := by
  have written := writeWithin_of_nobody (b := (b.invalidate (b.schedulers.get i).clock
    (b.sessions.get s).generation).finish s .stopped none) hl b.depth Remark.stopped.line
  unfold stop
  rw [stopWithin, hr, hs, ← written]
  rfl

end Bench

open Bench

namespace Workshop

variable {s : Nat}

/-- Whether a session rests and its turn would clear its strip. -/
def Clears (w : Workshop) (s : Nat) (wake : Wake) : Prop :=
  ∃ d, w.tasks s = some (.inl d) ∧ d.Clears s wake w.bench = true

/-- **A stale session touches no strip but by clearing it.** Whatever has happened, a turn of a
session whose generation is not current changes no strip, unless it is the first turn of the session
and its program is found; then it clears the strip of the session and does nothing else to it. -/
theorem strips_turn_of_stale (w : Workshop) (moves : List Move) (wake : Wake)
    (hd : (w.run moves).bench.live s = false) :
    (¬ (w.run moves).Clears s wake →
      ((w.run moves).move (.turn s wake)).bench.strips = (w.run moves).bench.strips) ∧
    ((w.run moves).Clears s wake →
      ((w.run moves).move (.turn s wake)).bench.strips =
        (w.run moves).bench.strips.modify ((w.run moves).bench.sessions.get s).strip
          Strip.reset) := by
  generalize w.run moves = w at hd ⊢
  rw [move]
  cases hs : w.tasks s with
  | none =>
    refine ⟨fun _ => rfl, ?_⟩
    rintro ⟨d, hd, -⟩
    simp [hs] at hd
  | some task =>
    cases task with
    | inr e =>
      refine ⟨fun _ => rfl, ?_⟩
      rintro ⟨d, hd, -⟩
      simp [hs] at hd
    | inl d =>
      have strips := strips_resume_of_dead hd d wake
      refine ⟨fun h => strips.trans (if_neg fun hc => h ⟨d, hs, hc⟩), ?_⟩
      rintro ⟨d', hd', hc⟩
      cases hs.symm.trans hd'
      exact strips.trans (if_pos hc)

/-- A bench with a strip of two lights that are fully on. -/
def lit : Workshop := { bench := { strips := ⟨[⟨List.replicate 2 ⟨Strip.fullLevel, .output⟩⟩]⟩ } }

/-- A sketch is started and stopped before its first turn. -/
def brief : List Move := [.start 0 "void setup()\x7b\x7d void loop()\x7b\x7d" 0 0 {}, .stop 0]

theorem run_brief : (lit.run brief).bench.live 0 = false ∧
    ((lit.run brief).bench.strips.get 0).levels = [255, 255] ∧
    ((lit.run brief).bench.strips.modify ((lit.run brief).bench.sessions.get 0).strip
      Strip.reset |>.get 0).levels = [0, 0] ∧
    ((lit.run brief).bench.program 0).isOk = true := by
  have stopped : (lit.run brief).bench = _ :=
    stop_of_nobody (b := (lit.run (brief.take 1)).bench) (i := 0) (s := 0) rfl rfl rfl
  rw [stopped]
  decide +kernel

/-- A session that is cancelled before its first turn leaves the strip alone. -/
theorem strips_turn_of_cancelled :
    ((lit.run brief).move (.turn 0 .cancelled)).bench.strips = (lit.run brief).bench.strips := by
  refine (strips_turn_of_stale lit brief .cancelled run_brief.1).1 ?_
  rintro ⟨d, -, clears⟩
  cases d <;> simp [Drive.Clears] at clears

/-- A session that has been stopped before its first turn takes it nevertheless: the strip is dark
then. -/
theorem clears_stale : (lit.run brief).bench.live 0 = false ∧
    ((lit.run brief).bench.strips.get 0).levels = [255, 255] ∧
    (((lit.run brief).move (.turn 0 .rested)).bench.strips.get 0).levels = [0, 0] := by
  obtain ⟨dead, before, after, found⟩ := run_brief
  have clears : Drive.Clears 0 .rested (lit.run brief).bench .fresh = true := by
    simp [Drive.Clears, found]
  have strips : ((lit.run brief).move (.turn 0 .rested)).bench.strips = _ :=
    (strips_resume_of_dead dead .fresh .rested).trans (if_pos clears)
  rw [strips]
  exact ⟨dead, before, after⟩

end Workshop
end LedSketch
