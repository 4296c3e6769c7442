import LedSketch.Proofs.Session.Addressing
import LedSketch.Proofs.Session.Departures
import LedSketch.Proofs.Session.Orphans

/-!
# Superseded sessions

A start on a clock that another scheduler uses takes the generation from the session that this one
is running. The session learns of it when it takes its next turn, which is its last, unless somebody
stops it before. It ends as stopped then, and one line is all that is still written for it.

This is so as long as it finds out before it meets an error. An error that comes first is reported,
since only the owner of the scheduler is asked for and not the generation.

* `Workshop.Errs` — an error comes first;
* `Workshop.parting_run` — what is still written for a session that is not live;
* `Workshop.superseded_run` — how a session ends that is superseded;
* `Workshop.errored_rivals` — an error that is reported.
-/

namespace LedSketch

open Bench

/-! ## Last entries -/

/-- An event that may still concern a session that is not live: it is stopped or fails, of which a
line on its console tells, or it completes a round. -/
def Event.Parting (console : Nat) (e : Event) : Prop :=
  e = .completed ∨ ∃ o : Outcome, e = .wrote console o.remark

/-- The lines among some events. -/
def linesAmong (es : List Event) : List Event := es.filter (· ≠ .completed)

/-- Among the last events of a session there is at most one line, which tells how it has ended. -/
theorem Standing.linesAmong_of_parting {c : Nat} {es : List Event} {st st' : Standing}
    (h : ∀ e ∈ es, e.Parting c) (hr : es.foldlM Standing.next st = some st') :
    (∀ o, st.outcome = some o → linesAmong es = [] ∧ st'.outcome = some o) ∧
      (st.outcome = none →
        linesAmong es = (st'.outcome.map fun o => Event.wrote c o.remark).toList) := by
  induction es generalizing st with
  | nil =>
    cases hr
    exact ⟨fun o ho => ⟨rfl, ho⟩, fun ho => by rw [ho]; rfl⟩
  | cons e es ih =>
    rw [List.foldlM_cons] at hr
    obtain ⟨st₁, hn, hr⟩ := Option.bind_eq_some_iff.1 hr
    obtain ⟨closed, underway⟩ := ih (fun e he => h e (List.mem_cons_of_mem _ he)) hr
    rcases h e List.mem_cons_self with rfl | ⟨o, rfl⟩
    · cases hn
      exact ⟨closed, underway⟩
    · cases ho : st.outcome with
      | none =>
        rw [next_outcome ho] at hn
        cases hn
        obtain ⟨silent, ended⟩ := closed o rfl
        refine ⟨nofun, fun _ => ?_⟩
        rw [ended]
        change Event.wrote c o.remark :: linesAmong es = _
        rw [silent]
        rfl
      | some o' =>
        have twice : st.next (.wrote c o.remark) = none := by
          cases o <;> simp [next, ended, Outcome.remark, ho]
        rw [twice] at hn
        cases hn

namespace Bench

variable {s : Nat} {owned : Bool} {fault : Option (Store × Fault)} {r : Turn × Bench}
  {es : List Entry}

theorem Departs.ends (h : Departs s owned fault r es) : r.1.Ends := by
  induction h with
  | unwound | interrupted => exact ⟨_, rfl⟩
  | failed ho st f => exact ends_fail _ _ st f
  | completed _ ih => exact ih

theorem stopped_stopOwnedEntries (b : Bench) (s : Nat) :
    ∀ e ∈ b.stopOwnedEntries s, ∃ c, e.event = .wrote c .stopped := by
  unfold stopOwnedEntries
  split
  · intro e he
    rcases List.mem_cons.1 he with rfl | he
    · exact ⟨_, rfl⟩
    · exact stopped_haltedBy e he
  · exact nofun

/-- A last turn tells of an error only if one has been met. -/
theorem Departs.mem (h : Departs s owned fault r es) :
    ∀ e ∈ es, e.event = .completed ∨ (∃ c, e.event = .wrote c .stopped) ∨
      fault.isSome ∧ ∃ c text, e.event = .wrote c (.failed text) := by
  induction h with
  | unwound => exact fun e he => .inr (.inl (stopped_stopOwnedEntries _ _ e he))
  | interrupted => exact fun e he => .inr (.inl (stopped_stopOwnedEntries _ _ e he))
  | @failed b _ st f =>
    unfold failEntries
    dsimp only
    split
    · split
      · exact nofun
      · intro e he
        rcases List.mem_cons.1 he with rfl | he
        · exact .inr (.inr ⟨rfl, _, _, rfl⟩)
        · exact .inr (.inl (stopped_haltedBy e he))
    · exact nofun
  | completed _ ih =>
    intro e he
    rcases List.mem_cons.1 he with rfl | he
    · exact .inl rfl
    · exact ih e he

theorem Departs.not_failed (h : Departs s owned none r es) (m : Mishap) :
    r.1 ≠ .ended (.failed m) := by
  generalize hnone : none = fault at h
  induction h with
  | unwound | interrupted => nofun
  | failed => cases hnone
  | completed _ ih => exact ih hnone

/-- An error is reported for a session that owns its scheduler, unless the report fails. -/
theorem Departs.reports (h : Departs s true fault r es) (hf : fault.isSome) :
    (∃ m, r.1 = .ended (.failed m)) ∨ ∃ c text, ⟨s, .wrote c (.failed text)⟩ ∈ es := by
  generalize howned : true = owned at h
  induction h with
  | unwound | interrupted => cases hf
  | @failed b ho st f =>
    subst howned
    simp only [fail, failEntries, ho, if_true]
    cases f.report st (b.sessions.get s).transformed [] with
    | error m => exact .inl ⟨m, rfl⟩
    | ok text => exact .inr ⟨_, text, List.mem_cons_self⟩
  | completed _ ih =>
    rcases ih hf with failed | ⟨c, text, told⟩
    · exact .inl failed
    · exact .inr ⟨c, text, List.mem_cons_of_mem _ told⟩

/-! ## Errors with nobody listening -/

variable {b : Bench}

theorem enter_of_error {f : Fault}
    (h : b.program s = .error f) :
    b.enter s = ((b.introduced s).lookUpProgram
      (Dialect.toHostForm (b.sessions.get s).source)).2.fail s {} f := by
  rw [enter_eq]
  unfold program at h
  generalize (b.introduced s).lookUpProgram _ = r at h ⊢
  obtain ⟨r, b'⟩ := r
  cases h
  rfl

theorem fail_of_nobody {st : Store} {f : Fault} {text : String} (ho : b.owns s = true)
    (hr : f.report st (b.sessions.get s).transformed [] = .ok text)
    (hl : b.listeners.get (b.sessions.get s).console = .nobody) :
    (b.fail s st f).2 =
      (((b.invalidate (b.sessions.get s).clock (b.sessions.get s).generation).finish s .errored
        (some text)).append (b.sessions.get s).console ⟨.error, text⟩).close s := by
  simp only [fail, ho, if_true, hr]
  rw [write]
  exact congrArg (close · s) (writeWithin_of_nobody (b := (b.invalidate (b.sessions.get s).clock
    (b.sessions.get s).generation).finish s .errored (some text)) hl _ ⟨.error, text⟩)
end Bench

namespace Workshop

variable {w : Workshop} {s : Nat} {before : Shelf Console} {log : List Entry}

/-! ## Heeding -/

/-- What is left of every sketch heeds whether it is live. -/
def Heeds (w : Workshop) : Prop := ∀ s d, w.tasks s = some (.inl d) → d.Heeds

theorem heeds_move (h : w.Heeds) (m : Move) : (w.move m).Heeds := by
  cases m with
  | start i source strip console settings =>
    intro s d hd
    rw [move] at hd
    split at hd
    · next t _ _ =>
      dsimp only at hd
      by_cases hst : s = t
      · subst hst
        rw [Function.update_self] at hd
        cases hd
        trivial
      · rw [Function.update_of_ne hst] at hd
        exact h s d hd
    · exact h s d hd
  | stop | reset | pass => exact h
  | turn t wake =>
    intro s d hd
    rw [move] at hd
    split at hd
    · next d' hd' =>
      dsimp only at hd
      by_cases hst : s = t
      · subst hst
        rw [Function.update_self] at hd
        have heeds := heeds_resume (h s d' hd') s wake w.bench
        generalize (d'.resume s wake w.bench).1 = turn at hd heeds
        cases turn with
        | rests nap d =>
          cases hd
          exact heeds _ _ rfl
        | ended e => cases hd
      · rw [Function.update_of_ne hst] at hd
        exact h s d hd
    · exact h s d hd

theorem heeds_run (h : w.Heeds) (moves : List Move) : (w.run moves).Heeds := by
  induction moves generalizing w with
  | nil => exact h
  | cons m moves ih => exact ih (heeds_move h m)

theorem Unused.heeds (h : w.Unused) : w.Heeds := fun s d hd => by
  rw [h.tasks] at hd
  cases hd

/-! ## Sessions that are not live -/

theorem dead_move (ho : Orderly w.bench) (hs : s < w.bench.sessions.size)
    (hd : w.bench.live s = false) (m : Move) : (w.move m).bench.live s = false := by
  rcases move_cases w m with forth | ⟨i, source, strip, console, settings, -, started⟩
  · exact forth.dead hd
  · rw [Bool.eq_false_iff] at hd ⊢
    exact fun hl => hd ((started.live_old ho hs).1 hl).1

theorem console_move (hs : s < w.bench.sessions.size) (m : Move) :
    ((w.move m).bench.sessions.get s).console = (w.bench.sessions.get s).console := by
  rcases move_cases w m with forth | ⟨i, source, strip, console, settings, -, started⟩
  · exact forth.console_eq s
  · rw [started.get_old hs]

theorem size_le_move (w : Workshop) (m : Move) :
    w.bench.sessions.size ≤ (w.move m).bench.sessions.size := by
  rcases move_cases w m with forth | ⟨i, source, strip, console, settings, -, started⟩
  · exact forth.size_le
  · rw [started.size]
    exact Nat.le_succ _

theorem console_run (hs : s < w.bench.sessions.size) (moves : List Move) :
    s < (w.run moves).bench.sessions.size ∧
      ((w.run moves).bench.sessions.get s).console = (w.bench.sessions.get s).console := by
  induction moves generalizing w with
  | nil => exact ⟨hs, rfl⟩
  | cons m moves ih =>
    obtain ⟨size, console⟩ := ih (Nat.lt_of_lt_of_le hs (size_le_move w m))
    exact ⟨size, console.trans (console_move hs m)⟩

/-- Whether what is left of a sketch that is not live meets an error in its turn before it finds
that it is not live. -/
def Errs (w : Workshop) (s : Nat) (wake : Wake) : Prop :=
  ∃ d, w.tasks s = some (.inl d) ∧ (d.fault? s wake w.bench).isSome

/-- What a move tells about a session that is not live: that it ends or has completed a round. -/
theorem parting_move (ho : Orderly w.bench) (hh : w.Heeds) (hd : w.bench.live s = false) (m : Move) :
    ∀ e ∈ w.told m, e.session = s → e.event.Parting (w.bench.sessions.get s).console ∧
      ∀ c text, e.event = .wrote c (.failed text) → ∃ wake, m = .turn s wake ∧ w.Errs s wake := by
  have halts {e : Entry} (he : e.Halts w.bench) (hs : e.session = s) :
      e.event.Parting (w.bench.sessions.get s).console ∧
        ∀ c text, e.event = .wrote c (.failed text) → ∃ wake, m = .turn s wake ∧ w.Errs s wake := by
    rw [Entry.Halts, hs] at he
    rw [he]
    exact ⟨.inr ⟨.stopped, rfl⟩, by rintro _ _ ⟨⟩⟩
  cases m with
  | start | reset | pass => rintro _ ⟨⟩
  | stop i => exact fun e he hs => halts (halts_stopEntries ho.console_eq i e he) hs
  | turn t wake =>
    intro e he hs
    rw [told] at he
    split at he
    · next d hdrive =>
      rcases addressed_told ho.console_eq t d wake e he with halted | ⟨rfl, console⟩
      · exact halts halted hs
      · -- the session itself takes its last turn
        subst hs
        have woken : ¬ (d = .fresh ∧ wake = .cancelled) := by
          rintro ⟨rfl, rfl⟩
          cases he
        rcases (departs_resume woken (hh _ d hdrive) hd).mem e he with
          completed | ⟨c, stopped⟩ | ⟨fault, c, text, failed⟩
        · rw [completed]
          exact ⟨.inl rfl, by rintro _ _ ⟨⟩⟩
        · rw [stopped, console c _ stopped]
          exact ⟨.inr ⟨.stopped, rfl⟩, by rintro _ _ ⟨⟩⟩
        · rw [failed, console c _ failed]
          exact ⟨.inr ⟨.failed text, rfl⟩, fun _ _ _ => ⟨wake, rfl, d, hdrive, fault⟩⟩
    · cases he

/-- What some moves tell about a session that is not live. It fails only in a turn in which it meets
an error. -/
theorem parting_run (h : w.Sound before log) (hh : w.Heeds) (hs : s < w.bench.sessions.size)
    (hd : w.bench.live s = false) (moves : List Move) :
    ∀ e ∈ eventsOf (w.transcript moves) s, e.Parting (w.bench.sessions.get s).console ∧
      ∀ c text, e = .wrote c (.failed text) → ∃ earlier wake later,
        moves = earlier ++ .turn s wake :: later ∧ (w.run earlier).Errs s wake := by
  induction moves generalizing w log with
  | nil => exact nofun
  | cons m moves ih =>
    obtain ⟨p, faithful, -⟩ := h.faithful
    have orderly := faithful.orderly
    intro e he
    rw [transcript, eventsOf_append] at he
    rcases List.mem_append.1 he with he | he
    · obtain ⟨entry, told, event⟩ := List.mem_filterMap.1 he
      simp only [Option.ite_none_right_eq_some, Option.some.injEq] at event
      obtain ⟨session, rfl⟩ := event
      obtain ⟨parting, failed⟩ := parting_move orderly hh hd m entry told session
      refine ⟨parting, fun c text ht => ?_⟩
      obtain ⟨wake, rfl, errs⟩ := failed c text ht
      exact ⟨[], wake, moves, rfl, errs⟩
    · obtain ⟨parting, failed⟩ := ih (h.move m) (heeds_move hh m)
        (Nat.lt_of_lt_of_le hs (size_le_move w m)) (dead_move orderly hs hd m) e he
      rw [console_move hs] at parting
      refine ⟨parting, fun c text ht => ?_⟩
      obtain ⟨earlier, wake, later, rfl, errs⟩ := failed c text ht
      exact ⟨m :: earlier, wake, later, rfl, errs⟩

theorem dead_run (h : w.Sound before log) (hs : s < w.bench.sessions.size)
    (hd : w.bench.live s = false) (moves : List Move) : (w.run moves).bench.live s = false := by
  induction moves generalizing w log with
  | nil => exact hd
  | cons m moves ih =>
    obtain ⟨p, faithful, -⟩ := h.faithful
    exact ih (h.move m) (Nat.lt_of_lt_of_le hs (size_le_move w m))
      (dead_move faithful.orderly hs hd m)

/-- A turn of a session that is not live is its last. Afterwards the session owns its scheduler only
if it has met an error. -/
theorem departs_turn (hh : w.Heeds) (hd : w.bench.live s = false) {d : Drive} {wake : Wake}
    (hdrive : w.tasks s = some (.inl d)) (hw : ¬ (d = .fresh ∧ wake = .cancelled)) :
    ∃ e, (w.move (.turn s wake)).tasks s = some (.inr e) ∧
      (¬ w.Errs s wake → (w.move (.turn s wake)).bench.owns s = false) := by
  have departs := departs_resume hw (hh s d hdrive) hd
  obtain ⟨e, ended⟩ := departs.ends
  simp only [move, hdrive, Function.update_self]
  refine ⟨e, by rw [ended]; rfl, fun harmless => ?_⟩
  have flawless : d.fault? s wake w.bench = none := by
    rw [← Option.not_isSome_iff_eq_none]
    exact fun fault => harmless ⟨d, hdrive, fault⟩
  rw [flawless] at departs
  rw [Bool.eq_false_iff]
  intro owned
  obtain ⟨x, rfl⟩ := (settled_resume hw w.bench e ended).1 owned
  exact departs.not_failed x ended

/-- A session that is not live and owns its scheduler is reported to have failed if it meets an
error, unless the report fails. -/
theorem errs_turn (hh : w.Heeds) (hd : w.bench.live s = false) {wake : Wake}
    (he : w.Errs s wake) (ho : w.bench.owns s = true) (ha : ¬ w.Abandons s wake) :
    ∃ c text, ⟨s, .wrote c (.failed text)⟩ ∈ w.told (.turn s wake) := by
  obtain ⟨d, hdrive, fault⟩ := he
  have woken : ¬ (d = .fresh ∧ wake = .cancelled) := by
    rintro ⟨rfl, rfl⟩
    cases fault
  have departs := departs_resume woken (hh s d hdrive) hd
  rw [ho] at departs
  simp only [told, hdrive]
  refine (departs.reports fault).resolve_left ?_
  rintro ⟨x, failed⟩
  exact ha ⟨ho, d, hdrive, .inr ⟨x, failed⟩⟩

/-- The transcript of some moves accounts for the lines that they write. -/
theorem lines_run (h : w.Sound before log) (moves : List Move) (c : Nat) :
    ((w.run moves).bench.consoles.get c).lines.toList =
      (w.bench.consoles.get c).lines.toList ++ linesOf (w.transcript moves) c := by
  obtain ⟨p, faithful, -⟩ := h.faithful
  obtain ⟨p', faithful', -⟩ := (h.run moves).faithful
  rw [faithful'.lines, linesOf_append, ← List.append_assoc, ← faithful.lines]

/-! ## Supersession -/

/-- A start takes the generation from a session. -/
structure Supersedes (w : Workshop) (m : Move) (s : Nat) : Prop where
  starts : ∃ i source strip console settings, m = .start i source strip console settings
  known : s < w.bench.sessions.size
  live : w.bench.live s = true
  dead : (w.move m).bench.live s = false

/-- A session that is superseded goes on owning its scheduler. -/
theorem Supersedes.owns {m : Move} (h : w.Supersedes m s) (ho : Orderly w.bench) :
    (w.move m).bench.owns s = true := by
  have owned := ho.owner s h.known h.live
  obtain ⟨i, source, strip, console, settings, rfl⟩ := h.starts
  have dead := h.dead
  have cases := start_cases w.bench i source strip console settings
  rw [move] at dead ⊢
  generalize w.bench.start i source strip console settings = r at cases dead ⊢
  obtain ⟨answer, b⟩ := r
  rcases cases with ⟨refused, unmoved⟩ | ⟨rfl, started⟩
  · -- a start that is refused takes nothing away
    have quiet := Quiet.of_eq unmoved.clocks unmoved.schedulers unmoved.sessions unmoved.consoles
    have live : b.live s = true := (quiet.toAlike.live s).trans h.live
    have dead : b.live s = false := by
      obtain _ | _ | t := answer
      · exact dead
      · exact dead
      · exact absurd rfl (refused t)
    rw [dead] at live
    cases live
  · exact (started.owns_old h.known).trans owned

/-- How a session has ended, and the only line that has been written for it meanwhile. -/
structure Concluded (w : Workshop) (s : Nat) (es : List Event) (o : Outcome) : Prop where
  line : linesAmong es = [.wrote (w.bench.sessions.get s).console o.remark]
  state : (w.bench.sessions.get s).state = o.state
  error : (w.bench.sessions.get s).error = o.error
  ended : (w.bench.sessions.get s).endedAt.isSome

/-- A session that is superseded still owns its scheduler and nothing has been written for it since,
or it has ended in one way and its last line has been written. -/
theorem Supersedes.parted {m : Move} (h : w.Supersedes m s) (hw : w.Sound before log)
    (hh : w.Heeds) (moves : List Move) :
    (((w.move m).run moves).bench.owns s = true ∧
        linesAmong (eventsOf ((w.move m).transcript moves) s) = []) ∨
      ((w.move m).run moves).bench.owns s = false ∧
        ∃ o, ((w.move m).run moves).Concluded s (eventsOf ((w.move m).transcript moves) s) o := by
  obtain ⟨_, known, -⟩ := hw.faithful
  have sound := hw.move m
  obtain ⟨p, faithful, -⟩ := sound.faithful
  obtain ⟨p', faithful', -⟩ := (sound.run moves).faithful
  have hs := Nat.lt_of_lt_of_le h.known (size_le_move w m)
  obtain ⟨hs', console⟩ := console_run hs moves
  obtain ⟨st, read, recorded⟩ := faithful.recorded s hs
  obtain ⟨st', read', recorded'⟩ := faithful'.recorded s hs'
  -- what is read since then begins where the session was underway
  have underway := (recorded.underway (h.owns known.orderly)).1
  rw [standing, eventsOf_append, List.foldlM_append, ← standing, read] at read'
  have parting := parting_run sound (heeds_move hh m) hs h.dead moves
  have lines := (Standing.linesAmong_of_parting (fun e he => (parting e he).1) read').2 underway
  rw [← console] at lines
  by_cases ho : ((w.move m).run moves).bench.owns s = true
  · rw [(recorded'.underway ho).1] at lines
    exact .inl ⟨ho, lines⟩
  · have gone := Bool.eq_false_iff.2 ho
    obtain ⟨o, outcome, state, error, ended⟩ := recorded'.ended gone
    rw [outcome] at lines
    exact .inr ⟨gone, o, lines, state, error, ended⟩

/-- **A session that is superseded ends as stopped, unless an error comes first.** Whatever happens
behind a start that takes the generation from a session, the transcript accounts for all lines
since, and

* the next turn of the session is its last, unless it is cancelled before its first turn, and its
  driver returns only when the session is over;
* as long as the session owns its scheduler, nothing is written for it;
* if it does not, it has ended as stopped, and the line that tells so is the only one that has been
  written for it since, provided that it has met no error before it found that it is not live;
* if it meets such an error while it owns its scheduler, it fails, and the only line is that of the
  error, provided that the report does not fail. -/
theorem superseded_run (h : w.Unused) {earlier : List Move} {m : Move} {v : Workshop}
    (hm : (w.run earlier).Supersedes m s) (hv : (w.run earlier).move m = v) (later : List Move) :
    (∀ c, ((v.run later).bench.consoles.get c).lines.toList =
      (v.bench.consoles.get c).lines.toList ++ linesOf (v.transcript later) c) ∧
    (∀ d wake, (v.run later).tasks s = some (.inl d) → ¬ (d = .fresh ∧ wake = .cancelled) →
      ∃ e, (v.run (later ++ [.turn s wake])).tasks s = some (.inr e) ∧
        (¬ (v.run later).Errs s wake →
          (v.run (later ++ [.turn s wake])).bench.owns s = false)) ∧
    ((v.run later).tasks s = some (.inr .finished) → (v.run later).bench.owns s = false) ∧
    ((v.run later).bench.owns s = true → linesAmong (eventsOf (v.transcript later) s) = []) ∧
    ((v.run later).bench.owns s = false →
      (∀ between wake after, later = between ++ .turn s wake :: after →
        ¬ (v.run between).Errs s wake) →
      (v.run later).Concluded s (eventsOf (v.transcript later) s) .stopped) ∧
    ∀ wake, (v.run later).Errs s wake → (v.run later).bench.owns s = true →
      ¬ (v.run later).Abandons s wake →
      ∃ text, (v.run (later ++ [.turn s wake])).Concluded s
        (eventsOf (v.transcript (later ++ [.turn s wake])) s) (.failed text) := by
  subst hv
  have sound := h.sound.run earlier
  have heeds := heeds_run h.heeds earlier
  have hs := Nat.lt_of_lt_of_le hm.known (size_le_move (w.run earlier) m)
  have heeds' := heeds_run (heeds_move heeds m) later
  have dead := dead_run (sound.move m) hs hm.dead later
  refine ⟨lines_run (sound.move m) later, fun d wake hd hw => ?_, ((sound.move m).run later).gone s, fun ho => ?_,
    fun ho harmless => ?_, fun wake errs ho ha => ?_⟩
  · rw [run_append]
    exact departs_turn heeds' dead hd hw
  · rcases hm.parted sound heeds later with ⟨-, lines⟩ | ⟨gone, -⟩
    · exact lines
    · rw [gone] at ho
      cases ho
  · rcases hm.parted sound heeds later with ⟨owned, -⟩ | ⟨-, o, concluded⟩
    · rw [ho] at owned
      cases owned
    · cases o with
      | stopped => exact concluded
      | failed text =>
        -- the line that tells of an error has been written in a turn that met one
        obtain ⟨c, told⟩ : ∃ c, Event.wrote c (.failed text) ∈
            linesAmong (eventsOf (((w.run earlier).move m).transcript later) s) := by
          rw [concluded.line]
          exact ⟨_, List.mem_singleton_self _⟩
        obtain ⟨between, wake, after, split, errs⟩ :=
          (parting_run (sound.move m) (heeds_move heeds m) hs hm.dead later _
            (List.mem_filter.1 told).1).2 _ text rfl
        exact absurd errs (harmless between wake after split)
  · obtain ⟨c, text, told⟩ := errs_turn heeds' dead errs ho ha
    have event : Event.wrote c (.failed text) ∈ linesAmong
        (eventsOf (((w.run earlier).move m).transcript (later ++ [.turn s wake])) s) := by
      refine List.mem_filter.2 ⟨?_, by simp⟩
      rw [transcript_append, eventsOf_append, List.mem_append, transcript, transcript,
        List.append_nil]
      exact .inr (List.mem_filterMap.2 ⟨_, told, by simp⟩)
    rcases hm.parted sound heeds (later ++ [.turn s wake]) with ⟨-, lines⟩ | ⟨-, o, concluded⟩
    · rw [lines] at event
      cases event
    · have only := event
      rw [concluded.line, List.mem_singleton] at only
      cases o with
      | stopped => cases only
      | failed text' =>
        cases only
        exact ⟨text, concluded⟩

/-- Two schedulers with one clock. Both have started a sketch, so the first one is superseded. -/
def rivals (source : String) : Workshop :=
  run { bench := {} } [.start 0 source 0 0 {}, .start 1 source 1 1 {}]

/-- A sketch that does nothing. -/
def idleSketch : String := "void setup()\x7b\x7d void loop()\x7b\x7d"

/-- A sketch that is superseded before its first turn ends as stopped in that turn. -/
theorem superseded_rivals :
    (run { bench := {} } [.start 0 idleSketch 0 0 {}]).Supersedes (.start 1 idleSketch 1 1 {}) 0 ∧
      ((rivals idleSketch).run [.turn 0 .rested]).Concluded 0
        (eventsOf ((rivals idleSketch).transcript [.turn 0 .rested]) 0) .stopped := by
  have supersedes : (run { bench := {} } [.start 0 idleSketch 0 0 {}]).Supersedes
      (.start 1 idleSketch 1 1 {}) 0 :=
    ⟨⟨_, _, _, _, _, rfl⟩, by decide +kernel, by decide +kernel, by decide +kernel⟩
  have unused : Unused { bench := {} } :=
    ⟨rfl, fun _ => rfl, fun _ => rfl, fun _ => rfl, fun _ => rfl⟩
  have rests : (rivals idleSketch).tasks 0 = some (.inl .fresh) := rfl
  have harmless : ¬ (rivals idleSketch).Errs 0 .rested := by
    have flawless : (Drive.fault? 0 .rested (rivals idleSketch).bench .fresh).isSome = false := by
      decide +kernel
    rintro ⟨d, hd, fault⟩
    cases rests.symm.trans hd
    rw [flawless] at fault
    cases fault
  obtain ⟨e, -, gone⟩ := (superseded_run unused supersedes rfl []).2.1 .fresh .rested rests nofun
  refine ⟨supersedes, (superseded_run unused supersedes rfl [.turn 0 .rested]).2.2.2.2.1
    (gone harmless) fun between wake after split => ?_⟩
  match between, split with
  | [], split =>
    cases split
    exact harmless
  | _ :: between, split => simp at split

/-- A sketch that cannot be compiled and is superseded before its first turn: its error is reported
although its generation is not current any more. -/
theorem errored_rivals : (rivals "").bench.live 0 = false ∧
    (((rivals "").move (.turn 0 .rested)).bench.sessions.get 0).state = .errored ∧
    (((rivals "").move (.turn 0 .rested)).bench.consoles.get 0).lines.toList =
      [⟨.error, "CompileError: Define setup() and loop()."⟩] := by
  have refused : (match (rivals "").bench.program 0 with
      | .error f => some f
      | .ok _ => none) = some (.sketch { complaint := .entryPointsUndefined }) := by decide +kernel
  have found : (rivals "").bench.program 0 =
      .error (.sketch { complaint := .entryPointsUndefined }) := by
    split at refused
    · next f hf => rw [hf, Option.some.inj refused]
    · cases refused
  have turned : ((rivals "").move (.turn 0 .rested)).bench = ((rivals "").bench.enter 0).2 := rfl
  have reported : Fault.report {} (.sketch { complaint := .entryPointsUndefined })
      ((((rivals "").bench.introduced 0).lookUpProgram (Dialect.toHostForm
        ((rivals "").bench.sessions.get 0).source)).2.sessions.get 0).transformed [] =
      .ok "CompileError: Define setup() and loop()." := by decide +kernel
  rw [turned, enter_of_error found, fail_of_nobody (by decide +kernel) reported (by decide +kernel)]
  decide +kernel

end Workshop
end LedSketch
