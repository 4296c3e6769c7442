import LedSketch.Proofs.Session.Workshop

/-!
# Generations over time

A clock never goes back: what it issues later is greater, and a generation that is not current any
more never becomes current again. And a scheduler that has its clock to itself keeps the clock, its
own state and its session in step, whatever happens: it is running exactly while the generation of
its session is current, and otherwise no generation is.

* `Clock.Later`, `Workshop.later_run` — clocks only go on;
* `Governed` — a scheduler and its clock are in step;
* `Workshop.governed_run` — they stay in step.
-/

namespace LedSketch

/-- A clock has gone on: what has become current since has been issued since. -/
structure Clock.Later (c c' : Clock) : Prop where
  lastIssued_le : c.lastIssued ≤ c'.lastIssued
  fresh : ∀ g, c'.current = some g → c.current = some g ∨ c.lastIssued < g

namespace Clock.Later

variable {c c' c'' : Clock}

theorem refl (c : Clock) : c.Later c := ⟨Nat.le_refl _, fun _ h => .inl h⟩

theorem trans (h : c.Later c') (h' : c'.Later c'') : c.Later c'' where
  lastIssued_le := Nat.le_trans h.lastIssued_le h'.lastIssued_le
  fresh g hg := by
    rcases h'.fresh g hg with hg | hg
    · exact h.fresh g hg
    · exact .inr (Nat.lt_of_le_of_lt h.lastIssued_le hg)

theorem issue (c : Clock) : c.Later c.issue.2 where
  lastIssued_le := Nat.le_succ _
  fresh _ hg := .inr (Nat.lt_of_succ_le (Nat.le_of_eq (Option.some.inj hg)))

/-- A generation that has been issued and is not current will not be again. -/
theorem not_current (h : c.Later c') {g : Nat} (hg : g ≤ c.lastIssued) (hc : c.current ≠ some g) :
    c'.current ≠ some g := by
  intro hg'
  rcases h.fresh g hg' with h | h
  · exact hc h
  · exact absurd hg (Nat.not_le_of_lt h)

end Clock.Later

namespace Bench

variable {b b' : Bench} {i : Nat}

theorem Forth.later (h : Forth b b') (c : Nat) : (b.clocks.get c).Later (b'.clocks.get c) where
  lastIssued_le := Nat.le_of_eq (h.issued c).symm
  fresh g hg := .inl ((isCurrent_iff c g).1 (h.current c g ((isCurrent_iff c g).2 hg)))

theorem Started.later {j strip console : Nat} {source : String}
    (h : Started b j source strip console b') (c : Nat) :
    (b.clocks.get c).Later (b'.clocks.get c) := by
  rw [h.get_clock]
  split
  · next hc =>
    rw [hc]
    exact .issue _
  · exact .refl _

theorem Started.timekeeper {j strip console : Nat} {source : String}
    (h : Started b j source strip console b') (i : Nat) :
    (b'.schedulers.get i).clock = (b.schedulers.get i).clock := by
  rw [h.get_scheduler]
  split
  · next hji => rw [hji]
  · rfl

/-- What is current has been issued. -/
theorem Orderly.le_lastIssued (h : Orderly b) {c g : Nat} (hg : (b.clocks.get c).current = some g) :
    g ≤ (b.clocks.get c).lastIssued := by
  obtain ⟨s, hs, rfl, rfl⟩ := h.holder c g hg
  exact h.issued s hs

/-! ## A scheduler and its clock -/

/-- A scheduler, its session and its clock are in step. -/
structure Governed (b : Bench) (i : Nat) : Prop where
  /-- A scheduler is running exactly while the generation of its session is current, -/
  running_iff : (b.schedulers.get i).state = .running ↔
    ∃ s, (b.schedulers.get i).session = some s ∧
      (b.clockOf i).current = some (b.sessions.get s).generation
  /-- and otherwise no generation is. -/
  rests : (b.schedulers.get i).state ≠ .running → (b.clockOf i).current = none

/-- What keeps a scheduler in step with its clock: nobody else has used the clock, and it has not
been taken from the scheduler while that is running. -/
structure Steady (b : Bench) (i : Nat) : Prop where
  orderly : Orderly b
  sole : b.Sole i
  held : (b.schedulers.get i).state = .running →
    ∃ s, (b.schedulers.get i).session = some s ∧
      (b.clockOf i).current = some (b.sessions.get s).generation

theorem Orderly.sole (h : Orderly b)
    (alone : ∀ j s, (b.schedulers.get j).session = some s →
      (b.schedulers.get j).clock = (b.schedulers.get i).clock → j = i) : b.Sole i where
  alone := alone
  scheduler := h.scheduler_eq
  clock j s hj := by rw [h.clock_eq s (h.session_lt j s hj), h.scheduler_eq j s hj]

namespace Steady

variable (h : Steady b i)
include h

/-- Whose generation is current on the clock of the scheduler is its running session. -/
theorem running_of_current {s : Nat} (hs : s < b.sessions.size)
    (hc : (b.sessions.get s).clock = (b.schedulers.get i).clock)
    (hg : (b.clockOf i).current = some (b.sessions.get s).generation) :
    (b.schedulers.get i).state = .running := by
  have live : b.live s = true := by
    rw [Bench.live, hc]
    exact (isCurrent_iff _ _).2 hg
  obtain ⟨session, running⟩ := owns_iff.1 (h.orderly.owner s hs live)
  have : (b.sessions.get s).scheduler = i :=
    h.sole.alone _ s session ((h.orderly.clock_eq s hs).symm.trans hc)
  rwa [this] at running

theorem governed : Governed b i where
  running_iff := by
    refine ⟨h.held, fun ⟨s, hs, hg⟩ => ?_⟩
    exact h.running_of_current (h.orderly.session_lt i s hs) (h.sole.clock i s hs) hg
  rests hr := by
    cases hg : (b.clockOf i).current with
    | none => rfl
    | some g =>
      obtain ⟨s, hs, hc, rfl⟩ := h.orderly.holder _ g hg
      exact absurd (h.running_of_current hs hc hg) hr

theorem forth (hf : Forth b b') (ho : Orderly b') : Steady b' i where
  orderly := ho
  sole := hf.sole h.sole
  held hr := by
    obtain ⟨hr, hc⟩ := hf.holds i h.sole hr
    obtain ⟨s, hs, hg⟩ := h.held hr
    refine ⟨s, (hf.session i).trans hs, ?_⟩
    rw [hc, hg, (wiring_eq_iff.1 (hf.wiring s)).2.2.2]

/-- Starting a session keeps the scheduler in step, unless another scheduler starts it on the same
clock. -/
theorem started {j strip console : Nat} {source : String}
    (hb : Started b j source strip console b')
    (hj : (b.schedulers.get j).clock = (b.schedulers.get i).clock → j = i) : Steady b' i where
  orderly := hb.orderly h.orderly
  sole := by
    refine (hb.orderly h.orderly).sole fun k s hs hc => ?_
    rw [hb.timekeeper, hb.timekeeper] at hc
    rw [hb.get_scheduler] at hs
    split at hs
    · next hjk =>
      subst hjk
      exact hj hc
    · exact h.sole.alone k s hs hc
  held hr := by
    obtain ⟨config, new⟩ := hb.get_new
    rw [clockOf, hb.timekeeper, hb.get_clock]
    rw [hb.get_scheduler] at hr ⊢
    by_cases hji : j = i
    · subst hji
      refine ⟨b.sessions.size, by rw [if_pos rfl], ?_⟩
      rw [if_pos rfl, new]
      rfl
    · rw [if_neg hji] at hr ⊢
      rw [if_neg fun hc => hji (hj hc)]
      obtain ⟨s, hs, hg⟩ := h.held hr
      refine ⟨s, hs, ?_⟩
      rw [hb.get_old (h.orderly.session_lt i s hs)]
      exact hg

end Steady

/-- What refuses to start changes nothing that sketches share. -/
theorem start_refused (b : Bench) (i : Nat) (source : String) (strip console : Nat)
    (settings : Settings) :
    ((b.schedulers.get i).state = .running →
      (b.start i source strip console settings).1 = .ok none ∧
        Unmoved b (b.start i source strip console settings).2) ∧
    (∀ problem, (b.schedulers.get i).state ≠ .running → settings.config = .error problem →
      b.start i source strip console settings = (.error problem, b)) := by
  refine ⟨fun hr => ?_, fun problem hr hp => ?_⟩
  · rw [start, if_pos hr]
    exact ⟨rfl, rfl, rfl, rfl, rfl, rfl⟩
  · rw [start, if_neg hr, hp]

end Bench

open Bench

/-- Whether a move does not start another scheduler with the clock of a scheduler. -/
def Move.Spares (b : Bench) (i : Nat) : Move → Prop
  | .start j _ _ _ _ => (b.schedulers.get j).clock = (b.schedulers.get i).clock → j = i
  | .stop _ | .reset _ | .turn _ _ | .pass _ => True

namespace Workshop

variable {w : Workshop} {i : Nat}

/-- A move starts a session, or nothing becomes current. -/
theorem move_cases (w : Workshop) (m : Move) :
    Forth w.bench (w.move m).bench ∨
      ∃ i source strip console settings, m = .start i source strip console settings ∧
        Started w.bench i source strip console (w.move m).bench := by
  cases m with
  | start i source strip console settings =>
    rw [move]
    have cases := start_cases w.bench i source strip console settings
    generalize w.bench.start i source strip console settings = r at cases ⊢
    obtain ⟨answer, b⟩ := r
    rcases cases with ⟨refused, unmoved⟩ | ⟨rfl, started⟩
    · have forth : Forth w.bench b :=
        (Onward.of_eq unmoved.sessions unmoved.clocks unmoved.schedulers).toForth
      obtain _ | _ | s := answer
      · exact .inl forth
      · exact .inl forth
      · exact absurd rfl (refused s)
    · exact .inr ⟨i, source, strip, console, settings, rfl, started⟩
  | stop i => exact .inl (onward_stop _ i).toForth
  | reset i => exact .inl (onward_reset _ i).toForth
  | turn s wake =>
    refine .inl ?_
    rw [move]
    split
    · exact (aside_resume s _ wake w.bench).toForth
    · exact .refl _
  | pass now =>
    have onward : Onward w.bench (w.move (.pass now)).bench := .of_eq rfl rfl rfl
    exact .inl onward.toForth

theorem timekeeper_move (w : Workshop) (m : Move) (i : Nat) :
    ((w.move m).bench.schedulers.get i).clock = (w.bench.schedulers.get i).clock := by
  rcases move_cases w m with forth | ⟨j, source, strip, console, settings, -, started⟩
  · exact forth.timekeeper i
  · exact started.timekeeper i

theorem later_move (w : Workshop) (m : Move) (c : Nat) :
    (w.bench.clocks.get c).Later ((w.move m).bench.clocks.get c) := by
  rcases move_cases w m with forth | ⟨j, source, strip, console, settings, -, started⟩
  · exact forth.later c
  · exact started.later c

/-- Clocks only go on. -/
theorem later_run (w : Workshop) (moves : List Move) (c : Nat) :
    (w.bench.clocks.get c).Later ((w.run moves).bench.clocks.get c) := by
  induction moves generalizing w with
  | nil => exact .refl _
  | cons m moves ih => exact (later_move w m c).trans (ih (w.move m))

theorem timekeeper_run (w : Workshop) (moves : List Move) (i : Nat) :
    ((w.run moves).bench.schedulers.get i).clock = (w.bench.schedulers.get i).clock := by
  induction moves generalizing w with
  | nil => rfl
  | cons m moves ih => exact (ih (w.move m)).trans (timekeeper_move w m i)

theorem run_append (w : Workshop) (moves moves' : List Move) :
    w.run (moves ++ moves') = (w.run moves).run moves' :=
  List.foldl_append

theorem Unused.orderly_run (h : w.Unused) (moves : List Move) : Orderly (w.run moves).bench := by
  obtain ⟨p, faithful, -⟩ := (h.sound.run moves).faithful
  exact faithful.orderly

theorem Unused.steady (h : w.Unused) (i : Nat) : Steady w.bench i where
  orderly := h.orderly_run []
  sole := (h.orderly_run []).sole fun j s hs => by
    rw [run, List.foldl_nil, h.session] at hs
    cases hs
  held hr := by
    rw [h.idle] at hr
    cases hr

theorem steady_move {m : Move} (h : Steady w.bench i) (ho : Orderly (w.move m).bench)
    (hm : m.Spares w.bench i) : Steady (w.move m).bench i := by
  rcases move_cases w m with forth | ⟨j, source, strip, console, settings, rfl, started⟩
  · exact h.forth forth ho
  · exact h.started started hm

theorem spares_move {m m' : Move} (h : m'.Spares w.bench i) : m'.Spares (w.move m).bench i := by
  cases m' with
  | start j =>
    intro hc
    rw [timekeeper_move, timekeeper_move] at hc
    exact h hc
  | stop | reset | turn | pass => trivial

theorem steady_run {before : Shelf Console} {log : List Entry} (hs : w.Sound before log)
    (h : Steady w.bench i) {moves : List Move} (hm : ∀ m ∈ moves, m.Spares w.bench i) :
    Steady (w.run moves).bench i := by
  induction moves generalizing w log with
  | nil => exact h
  | cons m moves ih =>
    have sound := hs.move m
    obtain ⟨p, faithful, -⟩ := sound.faithful
    refine ih sound (steady_move h faithful.orderly (hm m List.mem_cons_self)) fun m' hm' => ?_
    exact spares_move (hm m' (List.mem_cons_of_mem m hm'))

/-- **A scheduler that has its clock to itself stays in step with it.** Whatever has happened, it is
running exactly while the generation of its session is current, and otherwise no generation is
current. Later sessions have got greater generations, a generation that has stopped being current
does not become current again, and a start that is refused changes nothing. -/
theorem governed_run (h : w.Unused) (i : Nat) {moves : List Move}
    (hm : ∀ m ∈ moves, m.Spares w.bench i) :
    Governed (w.run moves).bench i ∧
    (∀ s t, s < t → t < (w.run moves).bench.sessions.size →
      ((w.run moves).bench.sessions.get s).scheduler = i →
      ((w.run moves).bench.sessions.get t).scheduler = i →
      ((w.run moves).bench.sessions.get s).generation <
        ((w.run moves).bench.sessions.get t).generation) ∧
    (∀ g before between after, before ++ between ++ after = moves →
      ((w.run before).bench.clockOf i).current = some g →
      ((w.run (before ++ between)).bench.clockOf i).current ≠ some g →
      ((w.run moves).bench.clockOf i).current ≠ some g) ∧
    ∀ source strip console settings,
      (((w.run moves).bench.schedulers.get i).state = .running →
        ((w.run moves).bench.start i source strip console settings).1 = .ok none ∧
          Unmoved (w.run moves).bench
            ((w.run moves).bench.start i source strip console settings).2) ∧
      (∀ problem, ((w.run moves).bench.schedulers.get i).state ≠ .running →
        settings.config = .error problem →
        (w.run moves).bench.start i source strip console settings =
          (.error problem, (w.run moves).bench)) := by
  have orderly := h.orderly_run moves
  have clock (s) (hs : s < (w.run moves).bench.sessions.size)
      (hi : ((w.run moves).bench.sessions.get s).scheduler = i) :
      ((w.run moves).bench.sessions.get s).clock =
        ((w.run moves).bench.schedulers.get i).clock := by
    rw [orderly.clock_eq s hs, hi]
  refine ⟨(steady_run h.sound (h.steady i) hm).governed, fun s t hst ht hs' ht' => ?_,
    fun g before between after hsplit hg hgone => ?_, start_refused _ i⟩
  · exact orderly.ascending s t hst ht
      ((clock s (Nat.lt_trans hst ht) hs').trans (clock t ht ht').symm)
  · subst hsplit
    simp only [clockOf, timekeeper_run] at hg hgone ⊢
    have issued := (h.orderly_run before).le_lastIssued hg
    rw [run_append] at hgone
    rw [run_append w (before ++ between), run_append]
    have first := later_run (w.run before) between (w.bench.schedulers.get i).clock
    exact (later_run _ after _).not_current (Nat.le_trans issued first.lastIssued_le) hgone

/-- A sketch that is started, cancelled in its first turn, and stopped. -/
theorem governed_brief :
    Governed (run { bench := {} } [.start 0 "" 0 0 {}, .turn 0 .cancelled, .stop 0]).bench 0 := by
  refine (governed_run ⟨rfl, fun _ => rfl, fun _ => rfl, fun _ => rfl, fun _ => rfl⟩ 0 ?_).1
  intro m hm
  simp only [List.mem_cons, List.not_mem_nil, or_false] at hm
  rcases hm with rfl | rfl | rfl
  · exact fun _ => rfl
  · trivial
  · trivial

end Workshop
end LedSketch
