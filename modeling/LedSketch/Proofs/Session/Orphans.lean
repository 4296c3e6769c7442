import LedSketch.Proofs.Session.Generations
import LedSketch.Proofs.Session.Stale
import Mathlib.Data.List.Induction

/-!
# Orphaned sessions

A driver that is done has brought its session to an end, so its scheduler is free to start another
one. Two ways out are not guarded. A session that is cancelled before its first turn never enters
its driver; and when the report of an error fails, the driver is left on the spot. In both cases the
scheduler goes on to be running a session that nobody drives.

* `Workshop.Abandons` — a turn is such a way out;
* `Workshop.settled_run` — there is no other one, and these leave an orphan;
* `Workshop.orphaned_brief` — a session that is cancelled as soon as it is started.
-/

namespace LedSketch.Workshop

open Bench

variable {w : Workshop} {s : Nat}

/-- Whether a turn ends a session without ending its record: the session, which owns its scheduler,
is cancelled before its first turn, or the report of its error fails. -/
structure Abandons (w : Workshop) (s : Nat) (wake : Wake) : Prop where
  owned : w.bench.owns s = true
  unguarded : ∃ d, w.tasks s = some (.inl d) ∧
    ((d = .fresh ∧ wake = .cancelled) ∨ ∃ m, (d.resume s wake w.bench).1 = .ended (.failed m))

/-! ## What a move does to a session that is done -/

/-- Who is done behind a move was done before, or has taken his last turn. -/
theorem done_move {m : Move} {e : Ending} (h : (w.move m).tasks s = some (.inr e)) :
    w.tasks s = some (.inr e) ∨
      ∃ d wake, m = .turn s wake ∧ w.tasks s = some (.inl d) ∧
        (d.resume s wake w.bench).1 = .ended e ∧
        (w.move m).bench = (d.resume s wake w.bench).2 := by
  cases m with
  | start i source strip console settings =>
    rw [move] at h
    split at h
    · next t _ _ =>
      dsimp only at h
      by_cases hts : s = t
      · rw [hts, Function.update_self] at h
        cases h
      · rw [Function.update_of_ne hts] at h
        exact .inl h
    · exact .inl h
  | stop | reset | pass => exact .inl h
  | turn t wake =>
    rw [move] at h ⊢
    split at h
    · next d hd =>
      dsimp only at h
      by_cases hts : s = t
      · subst hts
        rw [Function.update_self] at h
        refine .inr ⟨d, wake, rfl, hd, ?_, rfl⟩
        generalize (d.resume s wake w.bench).1 = turn at h ⊢
        cases turn with
        | rests nap d => cases h
        | ended e => cases h; rfl
      · rw [Function.update_of_ne hts] at h
        exact .inl h
    · exact .inl h

/-- A session that is over stays over. -/
theorem gone_move (hs : s < w.bench.sessions.size) (h : w.bench.owns s = false) (m : Move) :
    (w.move m).bench.owns s = false := by
  rcases move_cases w m with forth | ⟨i, source, strip, console, settings, -, started⟩
  · exact forth.gone h
  · exact (started.owns_old hs).trans h

/-- A turn that ends a session abandons it, or the session is over. -/
theorem owns_of_ended {d : Drive} {wake : Wake} {e : Ending} (hd : w.tasks s = some (.inl d))
    (he : (d.resume s wake w.bench).1 = .ended e) :
    (d.resume s wake w.bench).2.owns s = false ∨ w.Abandons s wake := by
  by_cases ho : (d.resume s wake w.bench).2.owns s = true
  · refine .inr ⟨(aside_resume s d wake w.bench).owns s ho, d, hd, ?_⟩
    by_cases early : d = .fresh ∧ wake = .cancelled
    · exact .inl early
    · obtain ⟨m, rfl⟩ := (settled_resume early w.bench _ he).1 ho
      exact .inr ⟨m, he⟩
  · exact .inl (Bool.eq_false_iff.2 ho)

/-- A session that is done is over, or it has been abandoned. -/
theorem Unused.owns_of_done (h : w.Unused) {e : Ending} (moves : List Move)
    (done : (w.run moves).tasks s = some (.inr e)) :
    (w.run moves).bench.owns s = false ∨
      ∃ before wake after, moves = before ++ .turn s wake :: after ∧
        (w.run before).Abandons s wake := by
  induction moves using List.reverseRecOn generalizing e with
  | nil => simp [run, h.tasks] at done
  | append_singleton moves m ih =>
    rw [run_append] at done ⊢
    rcases done_move done with done | ⟨d, wake, rfl, hd, he, bench⟩
    · rcases ih done with gone | ⟨before, wake, after, rfl, abandons⟩
      · exact .inl (gone_move ((h.sound.run moves).started s (by rw [done]; rfl)) gone m)
      · exact .inr ⟨before, wake, after ++ [m], by simp, abandons⟩
    · rcases owns_of_ended hd he with gone | abandons
      · exact .inl (bench ▸ gone)
      · exact .inr ⟨moves, wake, [], rfl, abandons⟩

/-- A turn that abandons a session changes nothing about its being run. -/
theorem Abandons.orphaned {wake : Wake} (h : w.Abandons s wake) :
    (∃ e, (w.move (.turn s wake)).tasks s = some (.inr e)) ∧
      (w.move (.turn s wake)).bench.owns s = true := by
  obtain ⟨owned, d, hd, unguarded⟩ := h
  rw [move, hd]
  dsimp only
  rw [Function.update_self]
  rcases unguarded with ⟨rfl, rfl⟩ | ⟨m, hm⟩
  · exact ⟨⟨_, rfl⟩, owned⟩
  · refine ⟨⟨_, by rw [hm]; rfl⟩, ?_⟩
    have guarded : ¬ (d = .fresh ∧ wake = .cancelled) := by
      rintro ⟨rfl, rfl⟩
      cases hm
    exact (settled_resume guarded w.bench _ hm).2 ⟨m, rfl⟩

/-- **A driver that is done leaves no orphan, unless a turn abandons the session.** When the driver
of the session of a scheduler is done, the scheduler is not running and the session has an end,
provided that no turn of the session has abandoned it. A turn that does so leaves the scheduler
running a session that has no end, though its driver is done. -/
theorem settled_run (h : w.Unused) (moves : List Move) {i s : Nat}
    (hs : ((w.run moves).bench.schedulers.get i).session = some s) :
    (∀ e, (w.run moves).tasks s = some (.inr e) →
      (∀ before wake after, moves = before ++ .turn s wake :: after →
        ¬ (w.run before).Abandons s wake) →
      ((w.run moves).bench.schedulers.get i).state ≠ .running ∧
        ((w.run moves).bench.sessions.get s).endedAt.isSome) ∧
    ∀ wake, (w.run moves).Abandons s wake →
      (∃ e, (w.run (moves ++ [.turn s wake])).tasks s = some (.inr e)) ∧
      ((w.run (moves ++ [.turn s wake])).bench.schedulers.get i).session = some s ∧
      ((w.run (moves ++ [.turn s wake])).bench.schedulers.get i).state = .running ∧
      ((w.run (moves ++ [.turn s wake])).bench.sessions.get s).endedAt = none := by
  have known (moves) : ∃ p, Faithful w.bench.consoles ([] ++ w.transcript moves)
      (w.run moves).bench p := by
    obtain ⟨p, faithful, -⟩ := (h.sound.run moves).faithful
    exact ⟨p, faithful⟩
  obtain ⟨p, faithful⟩ := known moves
  have scheduler := faithful.orderly.scheduler_eq i s hs
  have size := faithful.orderly.session_lt i s hs
  refine ⟨fun e done guarded => ?_, fun wake abandons => ?_⟩
  · have gone : (w.run moves).bench.owns s = false := by
      refine (h.owns_of_done moves done).resolve_right ?_
      rintro ⟨before, wake, after, split, abandons⟩
      exact guarded before wake after split abandons
    obtain ⟨st, -, recorded⟩ := faithful.recorded s size
    obtain ⟨o, -, -, -, ended⟩ := recorded.ended gone
    refine ⟨fun running => ?_, ended⟩
    have owned : (w.run moves).bench.owns s = true := owns_iff.2 ⟨scheduler ▸ hs, scheduler ▸ running⟩
    rw [gone] at owned
    cases owned
  · obtain ⟨p', faithful'⟩ := known (moves ++ [.turn s wake])
    rw [run_append] at faithful' ⊢
    obtain ⟨done, owned⟩ := abandons.orphaned
    have size' := faithful'.orderly.lt_of_owns owned
    obtain ⟨st, -, recorded⟩ := faithful'.recorded s size'
    obtain ⟨session, running⟩ := owns_iff.1 owned
    have scheduler' : (((w.run moves).move (.turn s wake)).bench.sessions.get s).scheduler = i := by
      rcases move_cases (w.run moves) (.turn s wake) with forth | ⟨_, _, _, _, _, absurd, _⟩
      · rw [forth.scheduler, scheduler]
      · cases absurd
    rw [scheduler'] at session running
    exact ⟨done, session, running, (recorded.underway owned).2⟩

/-- A sketch that is stopped before its first turn and then cancelled is no orphan. -/
theorem settled_brief :
    (run { bench := {} } [.start 0 "" 0 0 {}, .stop 0, .turn 0 .cancelled]).tasks 0 =
        some (.inr .cancelled) ∧
      ((run { bench := {} } [.start 0 "" 0 0 {}, .stop 0, .turn 0 .cancelled]).bench.schedulers.get
        0).state ≠ .running ∧
      ((run { bench := {} } [.start 0 "" 0 0 {}, .stop 0, .turn 0 .cancelled]).bench.sessions.get
        0).endedAt.isSome := by
  have gone : (run { bench := {} } [.start 0 "" 0 0 {}, .stop 0]).bench.owns 0 = false := by
    have stopped : (run { bench := {} } [.start 0 "" 0 0 {}, .stop 0]).bench = _ :=
      stop_of_nobody (b := (run { bench := {} } [.start 0 "" 0 0 {}]).bench) (i := 0) (s := 0)
        rfl rfl rfl
    rw [stopped]
    rfl
  have session : ((run { bench := {} } [.start 0 "" 0 0 {}, .stop 0, .turn 0 .cancelled]
      ).bench.schedulers.get 0).session = some 0 :=
    (onward_stop (run { bench := {} } [.start 0 "" 0 0 {}]).bench 0).session 0
  have done : (run { bench := {} } [.start 0 "" 0 0 {}, .stop 0, .turn 0 .cancelled]).tasks 0 =
      some (.inr .cancelled) := rfl
  refine ⟨done, (settled_run (w := { bench := {} })
    ⟨rfl, fun _ => rfl, fun _ => rfl, fun _ => rfl, fun _ => rfl⟩ _ session).1 _ done ?_⟩
  intro before wake after split abandons
  -- the only turn is the last move, and the session is over by then
  match before, split with
  | [], split => cases split
  | [_], split => cases split
  | [_, _], split =>
    cases split
    exact absurd abandons.owned (by rw [gone]; nofun)
  | _ :: _ :: _ :: before, split =>
    simp at split

/-- A sketch that is cancelled before its first turn is done, and its scheduler is still running
it. -/
theorem orphaned_brief :
    (run { bench := {} } [.start 0 "" 0 0 {}, .turn 0 .cancelled]).tasks 0 =
        some (.inr .cancelled) ∧
      ((run { bench := {} } [.start 0 "" 0 0 {}, .turn 0 .cancelled]).bench.schedulers.get
        0).session = some 0 ∧
      ((run { bench := {} } [.start 0 "" 0 0 {}, .turn 0 .cancelled]).bench.schedulers.get
        0).state = .running ∧
      ((run { bench := {} } [.start 0 "" 0 0 {}, .turn 0 .cancelled]).bench.sessions.get
        0).endedAt = none :=
  ⟨rfl, rfl, rfl, rfl⟩

end LedSketch.Workshop
