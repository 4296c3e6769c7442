import LedSketch.Proofs.Session.Transcript
import Mathlib.Logic.Function.Basic

/-!
# Where a session stands

What a transcript says about a session, read event by event: the part of its sketch that may write
next, how many rounds it has completed, and how it has ended. Some sequences of events cannot be
read: a part of the sketch may not write out of its turn, and nothing may be written for a session
that has ended.

A transcript is faithful to a bench if it accounts for every line of every console, and what can be
read off it about a session agrees with the session's record.

* `Standing.next` — reading an event;
* `Faithful` — a transcript agrees with a bench;
* `Faithful.speak`, `Faithful.finish`, `Faithful.round`, `Faithful.started` — what keeps it so.
-/

namespace LedSketch

/-- How a session ends. -/
inductive Outcome where
  | stopped
  | failed (text : String)
deriving DecidableEq, Repr

namespace Outcome

/-- The remark that tells how a session has ended. -/
def remark : Outcome → Remark
  | stopped => .stopped
  | failed text => .failed text

/-- The state that an ended session is in. -/
def state : Outcome → RunState
  | stopped => .stopped
  | failed _ => .errored

/-- The error that an ended session keeps. -/
def error : Outcome → Option String
  | stopped => none
  | failed text => some text

theorem state_ne_running (o : Outcome) : o.state ≠ .running := by cases o <;> nofun

end Outcome

/-! ## Reading a transcript -/

/-- The part of a sketch that may write behind a remark. -/
def Phase.next (p : Phase) : Remark → Option Phase
  | .said q _ => if q = p then some p else none
  | .setup => if p = .opening then some .setup else none
  | .loop => if p = .setup then some (.round 0) else none
  | .stopped | .failed _ => none

/-- The part of a sketch that may write behind a completed round. -/
def Phase.later : Phase → Phase
  | .round n => .round (n + 1)
  | p => p

/-- What has been read about a session. -/
structure Standing where
  phase : Phase := .opening
  rounds : Nat := 0
  outcome : Option Outcome := none
deriving DecidableEq, Repr

namespace Standing

/-- Reads an outcome, which is the first one. -/
def ended (st : Standing) (o : Outcome) : Option Standing :=
  if st.outcome = none then some { st with outcome := some o } else none

/-- Reads an event. -/
def next (st : Standing) : Event → Option Standing
  | .completed => some { st with phase := st.phase.later, rounds := st.rounds + 1 }
  | .wrote _ .stopped => st.ended .stopped
  | .wrote _ (.failed text) => st.ended (.failed text)
  | .wrote _ r =>
    if st.outcome = none then (st.phase.next r).map fun phase => { st with phase } else none

theorem next_outcome {st : Standing} (h : st.outcome = none) (c : Nat) (o : Outcome) :
    st.next (.wrote c o.remark) = some { st with outcome := some o } := by
  cases o <;> simp [next, ended, Outcome.remark, h]

theorem next_remark {st : Standing} {r : Remark} {q : Phase} (h : st.outcome = none) (c : Nat)
    (hq : st.phase.next r = some q) : st.next (.wrote c r) = some { st with phase := q } := by
  cases r <;> simp_all [next, Phase.next]

end Standing

/-- The events that concern a session. -/
def eventsOf (log : List Entry) (s : Nat) : List Event :=
  log.filterMap fun e => if e.session = s then some e.event else none

/-- The lines that are written to a console. -/
def linesOf (log : List Entry) (console : Nat) : List ConsoleLine :=
  log.filterMap fun e => match e.event with
    | .wrote c r => if c = console then some r.line else none
    | .completed => none

/-- What is read about a session off a transcript. -/
def standing (log : List Entry) (s : Nat) : Option Standing :=
  (eventsOf log s).foldlM Standing.next {}

variable {log : List Entry} {s t : Nat} {e : Event}

theorem eventsOf_append (log log' : List Entry) (s : Nat) :
    eventsOf (log ++ log') s = eventsOf log s ++ eventsOf log' s :=
  List.filterMap_append

theorem linesOf_append (log log' : List Entry) (c : Nat) :
    linesOf (log ++ log') c = linesOf log c ++ linesOf log' c :=
  List.filterMap_append

theorem linesOf_wrote (s c d : Nat) (r : Remark) :
    linesOf [⟨s, .wrote c r⟩] d = if c = d then [r.line] else [] := by
  simp only [linesOf, List.filterMap_cons, List.filterMap_nil]
  split <;> simp_all

theorem eventsOf_singleton (h : s ≠ t) : eventsOf [⟨s, e⟩] t = [] := by
  simp [eventsOf, h]

theorem standing_other (h : s ≠ t) : standing (log ++ [⟨s, e⟩]) t = standing log t := by
  rw [standing, eventsOf_append, eventsOf_singleton h, List.append_nil, standing]

theorem standing_self {st st' : Standing} (h : standing log s = some st)
    (hn : st.next e = some st') : standing (log ++ [⟨s, e⟩]) s = some st' := by
  have : eventsOf [⟨s, e⟩] s = [e] := by simp [eventsOf]
  rw [standing, eventsOf_append, this, List.foldlM_append]
  rw [standing] at h
  simp [h, hn]

/-! ## Faithful transcripts -/

/-- What a transcript tells about the record of a session. -/
def Session.record (x : Session) : Nat × RunState × Option String × Option Float :=
  (x.iterations, x.state, x.error, x.endedAt)

namespace Bench

variable {b b' : Bench}

theorem toList_append (c d : Nat) (l : ConsoleLine) :
    ((b.append c l).consoles.get d).lines.toList =
      (b.consoles.get d).lines.toList ++ if c = d then [l] else [] := by
  rw [append, Shelf.modify, Shelf.get_put]
  split
  · next h => simp [h, Console.write]
  · simp

theorem Alike.append (b : Bench) (c : Nat) (l : ConsoleLine) : Alike b (b.append c l) :=
  ⟨rfl, rfl, fun _ => rfl, fun _ => rfl, fun _ => rfl, fun _ => rfl, fun _ => rfl⟩

/-- Two benches differ in nothing that a transcript tells. -/
structure Quiet (b b' : Bench) : Prop extends Alike b b' where
  consoles : b'.consoles = b.consoles
  state : ∀ i, (b'.schedulers.get i).state = (b.schedulers.get i).state
  record : ∀ s, (b'.sessions.get s).record = (b.sessions.get s).record

/-- The record of a session agrees with what is read about it. While it is live, the next part of
its sketch is known. -/
structure Recorded (b : Bench) (s : Nat) (p : Phase) (st : Standing) : Prop where
  rounds : (b.sessions.get s).iterations = st.rounds
  phase : b.live s = true → st.phase = p
  underway : b.owns s = true → st.outcome = none ∧ (b.sessions.get s).endedAt = none
  ended : b.owns s = false → ∃ o, st.outcome = some o ∧ (b.sessions.get s).state = o.state ∧
    (b.sessions.get s).error = o.error ∧ (b.sessions.get s).endedAt.isSome

theorem Recorded.transport {st : Standing} {p : Phase} (h : Recorded b s p st)
    (hl : b'.live s = true → b.live s = true) (ho : b'.owns s = b.owns s)
    (hr : (b'.sessions.get s).record = (b.sessions.get s).record) : Recorded b' s p st := by
  simp only [Session.record, Prod.mk.injEq] at hr
  obtain ⟨hi, hs, he, ha⟩ := hr
  refine ⟨hi ▸ h.rounds, fun hlive => h.phase (hl hlive), ?_, ?_⟩
  · rw [ho, ha]
    exact h.underway
  · rw [ho, hs, he, ha]
    exact h.ended

/-- A transcript accounts for all lines that have been written since the consoles held `before`, and
agrees with the records; `p` is the part of its sketch that each live session is in. -/
structure Faithful (before : Shelf Console) (log : List Entry) (b : Bench) (p : Nat → Phase) :
    Prop where
  orderly : Orderly b
  lines : ∀ c, (b.consoles.get c).lines.toList = (before.get c).lines.toList ++ linesOf log c
  recorded : ∀ s, s < b.sessions.size → ∃ st, standing log s = some st ∧ Recorded b s (p s) st
  known : ∀ e ∈ log, e.session < b.sessions.size

/-- At first nothing has been told. -/
theorem Faithful.nil {p : Nat → Phase} (h : Orderly b) (size : b.sessions.size = 0) :
    Faithful b.consoles [] b p where
  orderly := h
  lines c := (List.append_nil _).symm
  recorded s hs := by omega
  known := nofun

namespace Faithful

variable {before : Shelf Console} {p : Nat → Phase} (h : Faithful before log b p)
include h

theorem transport (orderly : Orderly b') (consoles : b'.consoles = b.consoles)
    (size : b'.sessions.size = b.sessions.size) (live : ∀ s, b'.live s = true → b.live s = true)
    (owns : ∀ s, b'.owns s = b.owns s)
    (record : ∀ s, (b'.sessions.get s).record = (b.sessions.get s).record) :
    Faithful before log b' p where
  orderly := orderly
  lines c := by rw [consoles]; exact h.lines c
  recorded s hs := by
    obtain ⟨st, hst, hr⟩ := h.recorded s (size ▸ hs)
    exact ⟨st, hst, hr.transport (live s) (owns s) (record s)⟩
  known e he := by rw [size]; exact h.known e he

theorem quiet (hq : Quiet b b') : Faithful before log b' p :=
  h.transport (hq.toAlike.orderly h.orderly fun i => .inl (hq.state i)) hq.consoles hq.size
    (fun s hl => by rwa [hq.toAlike.live] at hl) (fun _ => hq.toAlike.owns_of_state (hq.state _))
    hq.record

theorem invalidate (c g : Nat) : Faithful before log (b.invalidate c g) p :=
  h.transport (h.orderly.invalidate c g) rfl rfl
    (fun _ hl => ((isCurrent_invalidate _ _ _ _).1 hl).1) (fun _ => rfl) fun _ => rfl

theorem reset (i : Nat) : Faithful before log (b.reset i).2 p := by
  have orderly := h.orderly.reset i
  rcases reset_cases b i with same | ⟨hi, reset⟩
  · rwa [same]
  · rw [reset] at orderly ⊢
    refine h.transport orderly rfl rfl (fun _ hl => hl) (fun s => ?_) fun _ => rfl
    simp only [owns, get_schedulers_modifyScheduler]
    split
    · next hs =>
      have still : (b.schedulers.get (b.sessions.get s).scheduler).state ≠ .running := hs ▸ hi
      rw [beq_eq_false_iff_ne.2 still, Bool.and_false]
      exact Bool.and_false _
    · rfl

/-- A session that is not live may be anywhere. -/
theorem astray (hd : b.live s = false) (q : Phase) :
    Faithful before log b (Function.update p s q) where
  orderly := h.orderly
  lines := h.lines
  recorded t ht := by
    obtain ⟨st, hst, hr⟩ := h.recorded t ht
    refine ⟨st, hst, hr.rounds, fun hl => ?_, hr.underway, hr.ended⟩
    rw [Function.update_of_ne (by rintro rfl; simp [hd] at hl)]
    exact hr.phase hl
  known := h.known

/-! ### Events -/

/-- A live session writes a line in its turn. -/
theorem speak (hl : b.live s = true) (hs : s < b.sessions.size) {r : Remark} {q : Phase}
    (hr : (p s).next r = some q) :
    Faithful before (log ++ [⟨s, .wrote (b.sessions.get s).console r⟩])
      (b.append (b.sessions.get s).console r.line) (Function.update p s q) where
  orderly := (Alike.append b _ _).orderly h.orderly fun _ => .inl rfl
  lines c := by rw [toList_append, h.lines c, linesOf_append, List.append_assoc, linesOf_wrote]
  recorded t ht := by
    obtain ⟨st, hst, hrec⟩ := h.recorded t ht
    by_cases hts : s = t
    · subst hts
      have hopen := (hrec.underway (h.orderly.owner s hs hl)).1
      rw [← hrec.phase hl] at hr
      refine ⟨_, standing_self hst (st.next_remark hopen _ hr), hrec.rounds, fun _ => ?_,
        hrec.underway, hrec.ended⟩
      rw [Function.update_self]
    · rw [standing_other hts, Function.update_of_ne (Ne.symm hts)]
      exact ⟨st, hst, hrec.rounds, hrec.phase, hrec.underway, hrec.ended⟩
  known e he := by
    rcases List.mem_append.1 he with he | he
    · exact h.known e he
    · rw [List.mem_singleton.1 he]
      exact hs

/-- A round of `loop` is completed. -/
theorem round (hs : s < b.sessions.size) {p' : Phase} (hp : b.live s = true → p' = (p s).later) :
    Faithful before (log ++ [⟨s, .completed⟩])
      (b.modifySession s fun x => { x with iterations := x.iterations + 1 })
      (Function.update p s p') := by
  have alike : Alike b (b.modifySession s fun x => { x with iterations := x.iterations + 1 }) :=
    .modifySession hs (fun _ => rfl) fun _ => rfl
  refine ⟨alike.orderly h.orderly fun _ => .inl rfl, fun c => ?_, fun t ht => ?_, fun e he => ?_⟩
  · have : linesOf [⟨s, .completed⟩] c = [] := rfl
    rw [linesOf_append, this, List.append_nil]
    exact h.lines c
  · rw [alike.size] at ht
    obtain ⟨st, hst, hr⟩ := h.recorded t ht
    have owns := alike.owns_of_state (s := t) rfl
    by_cases hts : s = t
    · subst hts
      have get : (b.modifySession s fun x => { x with iterations := x.iterations + 1 }).sessions.get s =
          { b.sessions.get s with iterations := (b.sessions.get s).iterations + 1 } := by
        rw [get_sessions_modifySession, if_pos rfl]
      refine ⟨_, standing_self hst rfl, ?_, ?_, ?_, ?_⟩
      · rw [get, hr.rounds]
      · rw [alike.live, Function.update_self]
        intro hl
        rw [hp hl, hr.phase hl]
      · rw [owns, get]
        exact hr.underway
      · rw [owns, get]
        exact hr.ended
    · rw [standing_other hts, Function.update_of_ne (Ne.symm hts)]
      refine ⟨st, hst, hr.transport (fun hl => by rwa [alike.live] at hl) owns ?_⟩
      rw [get_sessions_modifySession, if_neg hts]
  · rw [alike.size]
    rcases List.mem_append.1 he with he | he
    · exact h.known e he
    · rw [List.mem_singleton.1 he]
      exact hs

/-- A session that owns its scheduler is ended, which its last line tells. -/
theorem finish (ho : b.owns s = true) (hd : b.live s = false) (o : Outcome) :
    Faithful before (log ++ [⟨s, .wrote (b.sessions.get s).console o.remark⟩])
      ((b.finish s o.state o.error).append (b.sessions.get s).console o.remark.line) p := by
  have hs := h.orderly.lt_of_owns ho
  have alike := Alike.finish hs o.state o.error
  have orderly := h.orderly.finish ho hd o.state_ne_running o.error
  have owns := Orderly.owns_finish ho o.state_ne_running o.error
  refine ⟨(Alike.append _ _ _).orderly orderly fun _ => .inl rfl, fun c => ?_, fun t ht => ?_,
    fun e he => ?_⟩
  · rw [toList_append, linesOf_append, ← List.append_assoc, linesOf_wrote, ← h.lines c]
    rfl
  · change t < (b.finish s o.state o.error).sessions.size at ht
    rw [alike.size] at ht
    obtain ⟨st, hst, hr⟩ := h.recorded t ht
    by_cases hts : s = t
    · subst hts
      have get : (b.finish s o.state o.error).sessions.get s =
          { b.sessions.get s with state := o.state, error := o.error, endedAt := some b.now } := by
        rw [get_sessions_finish, if_pos rfl]
      have gone : (b.finish s o.state o.error).owns s = false := by rw [owns, if_pos rfl]
      refine ⟨_, standing_self hst (st.next_outcome (hr.underway ho).1 _ o), ?_, ?_, ?_, ?_⟩
      · change ((b.finish s o.state o.error).sessions.get s).iterations = _
        rw [get]
        exact hr.rounds
      · intro hl
        have : b.live s = true := by rw [← alike.live]; exact hl
        rw [hd] at this
        cases this
      · intro ho'
        rw [show (b.finish s o.state o.error).owns s = true from ho'] at gone
        cases gone
      · intro _
        refine ⟨o, rfl, ?_⟩
        change ((b.finish s o.state o.error).sessions.get s).state = _ ∧
          ((b.finish s o.state o.error).sessions.get s).error = _ ∧
          ((b.finish s o.state o.error).sessions.get s).endedAt.isSome
        rw [get]
        exact ⟨rfl, rfl, rfl⟩
    · rw [standing_other hts]
      refine ⟨st, hst, hr.transport (fun hl => ?_) ((owns t).trans (if_neg hts)) ?_⟩
      · rw [← alike.live]
        exact hl
      · change ((b.finish s o.state o.error).sessions.get t).record = _
        rw [get_sessions_finish, if_neg hts]
  · change e.session < (b.finish s o.state o.error).sessions.size
    rw [alike.size]
    rcases List.mem_append.1 he with he | he
    · exact h.known e he
    · rw [List.mem_singleton.1 he]
      exact hs

/-- The session of a running scheduler is stopped. -/
theorem halt {i : Nat} (hr : (b.schedulers.get i).state = .running)
    (hi : (b.schedulers.get i).session = some s) :
    Faithful before (log ++ [⟨s, .wrote (b.schedulers.get i).console .stopped⟩])
      (((b.invalidate (b.schedulers.get i).clock (b.sessions.get s).generation).finish s .stopped
        none).append (b.schedulers.get i).console Remark.stopped.line) p := by
  have scheduler := h.orderly.scheduler_eq i s hi
  have clock : (b.sessions.get s).clock = (b.schedulers.get i).clock := by
    rw [h.orderly.clock_eq s (h.orderly.session_lt i s hi), scheduler]
  have owner : b.owns s = true := by
    rw [owns_iff, scheduler]
    exact ⟨hi, hr⟩
  have dead : (b.invalidate (b.schedulers.get i).clock (b.sessions.get s).generation).live s =
      false := by
    rw [← clock, Bool.eq_false_iff]
    exact fun hl => ((isCurrent_invalidate _ _ _ _).1 hl).2 ⟨rfl, rfl⟩
  rw [h.orderly.console_eq i s hi]
  exact (h.invalidate _ _).finish owner dead .stopped

/-- A scheduler has started a session. -/
theorem started {i : Nat} {source : String} {strip console : Nat}
    (hb : Started b i source strip console b') :
    Faithful before log b' (Function.update p b.sessions.size .opening) := by
  obtain ⟨config, new⟩ := hb.get_new
  refine ⟨hb.orderly h.orderly, fun c => ?_, fun t ht => ?_, fun e he => ?_⟩
  · rw [hb.consoles]
    exact h.lines c
  · rw [hb.size] at ht
    rcases Nat.lt_succ_iff_lt_or_eq.1 ht with ht | rfl
    · obtain ⟨st, hst, hr⟩ := h.recorded t ht
      rw [Function.update_of_ne (Nat.ne_of_lt ht)]
      exact ⟨st, hst, hr.transport (fun hl => ((hb.live_old h.orderly ht).1 hl).1)
        (hb.owns_old ht) (by rw [hb.get_old ht])⟩
    · have unheard : standing log b.sessions.size = some {} := by
        have none : eventsOf log b.sessions.size = [] := by
          rw [eventsOf, List.filterMap_eq_nil_iff]
          intro e he
          rw [if_neg (Nat.ne_of_lt (h.known e he))]
        rw [standing, none]
        rfl
      have owner : b'.owns b.sessions.size = true := by
        rw [owns_iff, new, hb.get_scheduler, if_pos rfl]
        exact ⟨rfl, rfl⟩
      refine ⟨{}, unheard, by rw [new], fun _ => ?_, fun _ => ⟨rfl, by rw [new]⟩, fun ho => ?_⟩
      · rw [Function.update_self]
      · rw [owner] at ho
        cases ho
  · rw [hb.size]
    exact Nat.lt_succ_of_lt (h.known e he)

end Faithful
end Bench
end LedSketch
