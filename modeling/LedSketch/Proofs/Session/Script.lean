import LedSketch.Proofs.Session.Workshop
import Mathlib.Data.List.Induction

/-!
# The script of a session

Whatever happens, the lines of a session follow one script: what its top-level code writes, the line
in front of `setup`, what `setup` writes, the line in front of `loop`, and what the rounds of `loop`
write one after another. The session may leave the script at any point; then one last line tells how
it has ended, and nothing is written for it any more. What its driver reports agrees with that line.

* `script` — the whole script;
* `Standing.Told` — what is read about a session, and the part of the script that has been written;
* `Workshop.scripted_run` — every session keeps to its script, in every workshop.
-/

namespace LedSketch

/-! ## Scripts -/

/-- The lines that the rounds of `loop` write, the first of which is behind `n` others. -/
def roundsScript : Nat → List (List String) → List Remark
  | _, [] => []
  | n, texts :: rounds => texts.map (.said (.round n)) ++ roundsScript (n + 1) rounds

/-- All lines of a session that is not ended: those of its top-level code, of `setup` and of the
rounds of `loop`, and the two lines between them. -/
def script (top setup : List String) (rounds : List (List String)) : List Remark :=
  top.map (.said .opening) ++ .setup :: setup.map (.said .setup) ++ .loop :: roundsScript 0 rounds

theorem roundsScript_append (rounds rounds' : List (List String)) (n : Nat) :
    roundsScript n (rounds ++ rounds') =
      roundsScript n rounds ++ roundsScript (n + rounds.length) rounds' := by
  induction rounds generalizing n with
  | nil => rfl
  | cons texts rounds ih =>
    simp only [List.cons_append, roundsScript, ih, List.length_cons, List.append_assoc]
    rw [Nat.add_right_comm, Nat.add_assoc]

theorem script_append (top setup : List String) (rounds rounds' : List (List String)) :
    script top setup (rounds ++ rounds') =
      script top setup rounds ++ roundsScript rounds.length rounds' := by
  simp [script, roundsScript_append]

/-- What has been written of a script when a part of the sketch may write next. -/
def Phase.Told : Phase → List Remark → Prop
  | .opening, rs => ∃ top : List String, rs = top.map (.said .opening)
  | .setup, rs =>
    ∃ top setup : List String, rs = top.map (.said .opening) ++ .setup :: setup.map (.said .setup)
  | .round n, rs => ∃ top setup rounds texts, rounds.length = n ∧
    rs = script top setup (rounds ++ [texts])
  | .pause _, _ => False

/-- The number of rounds behind which a part of the sketch writes. -/
def Phase.rounds : Phase → Nat
  | .opening | .setup => 0
  | .round n | .pause n => n

namespace Phase.Told

variable {p q : Phase} {r : Remark} {rs : List Remark}

/-- A line in its turn goes on with the script. -/
theorem next (h : p.Told rs) (hq : p.next r = some q) : q.Told (rs ++ [r]) := by
  cases r with
  | said p' text =>
    simp only [Phase.next, Option.ite_none_right_eq_some, Option.some.injEq] at hq
    obtain ⟨rfl, rfl⟩ := hq
    cases p' with
    | opening =>
      obtain ⟨top, rfl⟩ := h
      exact ⟨top ++ [text], by simp⟩
    | setup =>
      obtain ⟨top, setup, rfl⟩ := h
      exact ⟨top, setup ++ [text], by simp⟩
    | round n =>
      obtain ⟨top, setup, rounds, texts, rfl, rfl⟩ := h
      refine ⟨top, setup, rounds, texts ++ [text], rfl, ?_⟩
      simp [script_append, roundsScript]
    | pause n => exact h.elim
  | setup =>
    simp only [Phase.next, Option.ite_none_right_eq_some, Option.some.injEq] at hq
    obtain ⟨rfl, rfl⟩ := hq
    obtain ⟨top, rfl⟩ := h
    exact ⟨top, [], rfl⟩
  | loop =>
    simp only [Phase.next, Option.ite_none_right_eq_some, Option.some.injEq] at hq
    obtain ⟨rfl, rfl⟩ := hq
    obtain ⟨top, setup, rfl⟩ := h
    exact ⟨top, setup, [], [], rfl, rfl⟩
  | stopped | failed => cases hq

/-- The next round goes on with the script. -/
theorem later (h : p.Told rs) : p.later.Told rs := by
  cases p with
  | round n =>
    obtain ⟨top, setup, rounds, texts, rfl, rfl⟩ := h
    refine ⟨top, setup, rounds ++ [texts], [], by simp, ?_⟩
    rw [script_append top setup (rounds ++ [texts])]
    simp [roundsScript]
  | opening | setup | pause => exact h

/-- What has been written is the beginning of a script. -/
theorem prefixed (h : p.Told rs) :
    ∃ top setup rounds, rs <+: script top setup rounds ∧ rounds.length ≤ p.rounds + 1 := by
  cases p with
  | opening =>
    obtain ⟨top, rfl⟩ := h
    refine ⟨top, [], [], ?_, Nat.zero_le _⟩
    simp only [script, List.append_assoc]
    exact List.prefix_append _ _
  | setup =>
    obtain ⟨top, setup, rfl⟩ := h
    exact ⟨top, setup, [], List.prefix_append _ _, Nat.zero_le _⟩
  | round n =>
    obtain ⟨top, setup, rounds, texts, rfl, rfl⟩ := h
    exact ⟨top, setup, rounds ++ [texts], List.prefix_rfl, by simp [Phase.rounds]⟩
  | pause n => exact h.elim

end Phase.Told

theorem Phase.rounds_next {p q : Phase} {r : Remark} (h : p.next r = some q) :
    q.rounds ≤ p.rounds := by
  cases r <;> simp only [Phase.next, Option.ite_none_right_eq_some, Option.some.injEq, reduceCtorEq]
    at h
  all_goals
    obtain ⟨rfl, rfl⟩ := h
    exact Nat.le_refl _

theorem Phase.rounds_later (p : Phase) : p.later.rounds ≤ p.rounds + 1 := by
  cases p <;> simp [Phase.later, Phase.rounds]

/-! ## What has been told -/

/-- The line that an event tells of, if any. -/
def Event.remark? : Event → Option Remark
  | .wrote _ r => some r
  | .completed => none

/-- The lines that are written for a session. -/
def remarksOf (log : List Entry) (s : Nat) : List Remark := (eventsOf log s).filterMap Event.remark?

/-- The number of rounds that a session has completed. -/
def completedBy (log : List Entry) (s : Nat) : Nat := (eventsOf log s).count .completed

/-- The lines of a session are the beginning of a script, and behind them the last line if the
session has ended. -/
structure Scripted (remarks : List Remark) (rounds : Nat) (o : Option Outcome) : Prop where
  kept : ∃ body top setup texts, remarks = body ++ (o.map Outcome.remark).toList ∧
    body <+: script top setup texts ∧ texts.length ≤ rounds + 1

/-- What has been read about a session tells which part of its script has been written. -/
def Standing.Told (st : Standing) (remarks : List Remark) : Prop :=
  ∃ p body, remarks = body ++ (st.outcome.map Outcome.remark).toList ∧ p.Told body ∧
    p.rounds ≤ st.rounds ∧ (st.outcome = none → st.phase = p)

namespace Standing.Told

variable {st st' : Standing} {remarks : List Remark}

theorem scripted (h : st.Told remarks) : Scripted remarks st.rounds st.outcome := by
  obtain ⟨p, body, split, told, rounds, -⟩ := h
  obtain ⟨top, setup, texts, start, length⟩ := told.prefixed
  exact ⟨body, top, setup, texts, split, start,
    Nat.le_trans length (Nat.add_le_add_right rounds 1)⟩

theorem completed (h : st.Told remarks) (hn : st.next .completed = some st') :
    st'.Told remarks := by
  cases hn
  obtain ⟨p, body, split, told, rounds, known⟩ := h
  refine ⟨p.later, body, split, told.later, ?_, fun ho => by rw [known ho]⟩
  exact Nat.le_trans p.rounds_later (Nat.add_le_add_right rounds 1)

theorem ended (h : st.Told remarks) {o : Outcome} (hn : st.ended o = some st') :
    st'.Told (remarks ++ [o.remark]) := by
  simp only [Standing.ended, Option.ite_none_right_eq_some, Option.some.injEq] at hn
  obtain ⟨hopen, rfl⟩ := hn
  obtain ⟨p, body, rfl, told, rounds, -⟩ := h
  exact ⟨p, body, by simp [hopen], told, rounds, by rintro ⟨⟩⟩

/-- A line of the script itself. -/
theorem next (h : st.Told remarks) (ho : st.outcome = none) {r : Remark} {q : Phase}
    (hq : st.phase.next r = some q) : Standing.Told { st with phase := q } (remarks ++ [r]) := by
  obtain ⟨p, body, rfl, told, rounds, known⟩ := h
  rw [known ho] at hq
  exact ⟨q, body ++ [r], by simp [ho], told.next hq,
    Nat.le_trans (Phase.rounds_next hq) rounds, fun _ => rfl⟩

theorem wrote (h : st.Told remarks) {c : Nat} {r : Remark}
    (hn : st.next (.wrote c r) = some st') : st'.Told (remarks ++ [r]) := by
  cases r with
  | stopped => exact h.ended (o := .stopped) hn
  | failed text => exact h.ended (o := .failed text) hn
  | said | setup | loop =>
    simp only [Standing.next, Option.ite_none_right_eq_some, Option.map_eq_some_iff] at hn
    obtain ⟨ho, q, hq, rfl⟩ := hn
    exact h.next ho hq

end Standing.Told

/-- A line completes no round. -/
theorem Standing.rounds_wrote {st st' : Standing} {c : Nat} {r : Remark}
    (h : st.next (.wrote c r) = some st') : st'.rounds = st.rounds := by
  cases r <;> simp only [next, ended, Option.ite_none_right_eq_some, Option.map_eq_some_iff,
    Option.some.injEq] at h
  case said | setup | loop =>
    obtain ⟨-, q, -, rfl⟩ := h
    rfl
  case stopped | failed =>
    obtain ⟨-, rfl⟩ := h
    rfl

/-- Reading events tells the script and counts the rounds. -/
theorem Standing.told_of_read {es : List Event} {st : Standing}
    (h : es.foldlM Standing.next {} = some st) :
    st.Told (es.filterMap Event.remark?) ∧ es.count .completed = st.rounds := by
  -- the events are read from the first to the last
  induction es using List.reverseRecOn generalizing st with
  | nil =>
    cases h
    exact ⟨⟨.opening, [], rfl, ⟨[], rfl⟩, Nat.le_refl _, fun _ => rfl⟩, rfl⟩
  | append_singleton es e ih =>
    rw [List.foldlM_append] at h
    obtain ⟨st', read, h⟩ := Option.bind_eq_some_iff.1 h
    obtain ⟨st'', hn, h⟩ := Option.bind_eq_some_iff.1 h
    cases (h : some st'' = some st)
    obtain ⟨told, rounds⟩ := ih read
    rw [List.filterMap_append, List.count_append, rounds]
    cases e with
    | wrote c r =>
      refine ⟨told.wrote hn, ?_⟩
      rw [Standing.rounds_wrote hn]
      rfl
    | completed =>
      have silent : [Event.completed].filterMap Event.remark? = [] := rfl
      rw [silent, List.append_nil]
      refine ⟨told.completed hn, ?_⟩
      cases hn
      rfl

namespace Workshop

variable {w : Workshop}

/-- **Every session keeps to its script, whatever happens.** The transcript accounts for all lines
of all consoles. The lines that are written for a session are the beginning of its script, and
behind them at most one last line, which tells how the session has ended. When the driver of the
session has returned there is that line, and what the session records agrees with it; and the
session has counted the rounds that it has completed. -/
theorem scripted_run (h : w.Unused) (moves : List Move) {s : Nat}
    (hs : s < (w.run moves).bench.sessions.size) :
    (∀ c, ((w.run moves).bench.consoles.get c).lines.toList =
      (w.bench.consoles.get c).lines.toList ++ linesOf (w.transcript moves) c) ∧
    ∃ o : Option Outcome,
      Scripted (remarksOf (w.transcript moves) s) ((w.run moves).bench.sessions.get s).iterations
        o ∧
      ((w.run moves).bench.sessions.get s).iterations = completedBy (w.transcript moves) s ∧
      ((w.run moves).tasks s = some (.inr .finished) → ∃ o', o = some o' ∧
        ((w.run moves).bench.sessions.get s).state = o'.state ∧
        ((w.run moves).bench.sessions.get s).error = o'.error) := by
  have sound := h.sound.run moves
  rw [List.nil_append] at sound
  obtain ⟨p, faithful, -⟩ := sound.faithful
  obtain ⟨st, read, recorded⟩ := faithful.recorded s hs
  obtain ⟨told, rounds⟩ := Standing.told_of_read read
  refine ⟨faithful.lines, st.outcome, ?_, ?_, fun returned => ?_⟩
  · rw [recorded.rounds]
    exact told.scripted
  · exact recorded.rounds.trans rounds.symm
  · obtain ⟨o, ho, state, error, -⟩ := recorded.ended (sound.gone s returned)
    exact ⟨o, ho, state, error⟩

/-- A sketch that writes in `setup` and in every round. -/
def chatter : String :=
  "void setup() \x7b print(\"on\"); \x7d void loop() \x7b print(\"tick\"); delay(5); \x7d"

/-- A sketch completes a round, is stopped in the middle of the next one, and finds that out. -/
def visit : List Move :=
  [.start 0 chatter 0 0 {}, .turn 0 .rested, .pass 1.0, .turn 0 .rested, .pass 2.0, .turn 0 .rested,
    .stop 0, .turn 0 .rested]

/-- The whole script of a session that is stopped in its second round. Its driver has returned and
its record agrees with its last line. -/
theorem scripted_visit :
    Unused { bench := {} } ∧ 0 < (run { bench := {} } visit).bench.sessions.size ∧
    (run { bench := {} } visit).tasks 0 = some (.inr .finished) ∧
    ((run { bench := {} } visit).bench.consoles.get 0).lines.toList =
      linesOf (transcript { bench := {} } visit) 0 ∧
    Scripted [.setup, .said .setup "on", .loop, .said (.round 0) "tick", .said (.round 1) "tick",
      .stopped] 1 (some .stopped) ∧
    completedBy (transcript { bench := {} } visit) 0 = 1 ∧
    ((run { bench := {} } visit).bench.sessions.get 0).state = .stopped ∧
    ((run { bench := {} } visit).bench.sessions.get 0).error = none := by
  have unused : Unused { bench := {} } :=
    ⟨rfl, fun _ => rfl, fun _ => rfl, fun _ => rfl, fun _ => rfl⟩
  obtain ⟨size, returns, remarks, iterations, ended⟩ :
      0 < (run { bench := {} } visit).bench.sessions.size ∧
      ((run { bench := {} } visit).tasks 0).bind Sum.getRight? = some .finished ∧
      remarksOf (transcript { bench := {} } visit) 0 =
        [.setup, .said .setup "on", .loop, .said (.round 0) "tick", .said (.round 1) "tick",
          .stopped] ∧
      ((run { bench := {} } visit).bench.sessions.get 0).iterations = 1 ∧
      ((run { bench := {} } visit).bench.sessions.get 0).state = .stopped := by decide +kernel
  have gone : (run { bench := {} } visit).tasks 0 = some (.inr .finished) := by
    obtain ⟨task, given, ending⟩ := Option.bind_eq_some_iff.mp returns
    rw [given, Sum.getRight?_eq_some_iff.mp ending]
  obtain ⟨lines, o, scripted, rounds, returned⟩ := scripted_run unused visit size
  obtain ⟨o, rfl, state, error⟩ := returned gone
  rw [remarks, iterations] at scripted
  cases o with
  | stopped =>
    exact ⟨unused, size, gone, lines 0, scripted, rounds.symm.trans iterations, state, error⟩
  | failed text => cases ended.symm.trans state

end Workshop
end LedSketch
