import LedSketch.Proofs.Running.Liveness
import LedSketch.Proofs.Session.Endings

/-!
# Turns

What a turn of a session does to a faithful transcript. The session may stop being live at any point
of its turn, also because of a line that it writes itself; from then on nothing of its sketch is
written, so it does not matter any more where in its sketch it is.

* `Faithful.write`, `Faithful.advance`, `Faithful.conclude` — lines, stretches of evaluation, ends;
* `Faithful.resume` — a whole turn.
-/

namespace LedSketch

/-! ## Where a session is -/

/-- Whether a result is not that of a session that found itself not live. -/
def Wanted {α : Type} (r : Except Interrupt α × Memory) : Prop := ∀ i, r.1 = .error i → i.Wanted

/-- What a stage may ask for: a pause writes no line. -/
def Stage.asks : Stage → Request → Prop
  | .setup, _ | .loop, _ => True
  | .gap, r => r.Hushed

/-- Whether a session whose next line belongs to the part `p` of its sketch, behind `n` rounds, is in
a stage. -/
def Stage.Placed (n : Nat) (p : Phase) : Stage → Prop
  | .setup => p = .setup ∧ n = 0
  | .loop | .gap => p = .round n

/-- The same for where a session rests. -/
def Drive.Placed (n : Nat) (p : Phase) : Drive → Prop
  | .fresh | .opening _ => p = .opening ∧ n = 0
  | .midway stage _ _ => stage.Placed n p

/-- What is left of a sketch keeps to its terms, if its session is live. -/
def Drive.Sound (live : Prop) : Drive → Prop
  | .fresh => True
  | .opening k => live → ∀ wake, (k wake).Abides BoardFunctions.Open Wanted
  | .midway stage _ k => live → ∀ wake, (k wake).Abides (.live stage.asks) Wanted

namespace Bench

variable {before : Shelf Console} {log : List Entry} {b : Bench} {p : Nat → Phase} {s : Nat}

/-! ## Lines -/

theorem quiet_terminal (b : Bench) (t : Terminal) : Quiet b { b with terminal := t } :=
  ⟨⟨rfl, rfl, fun _ => rfl, fun _ => rfl, fun _ => rfl, fun _ => rfl, fun _ => rfl⟩, rfl,
    fun _ => rfl, fun _ => rfl⟩

/-- What holds of the line that a stop writes holds of the stop. -/
theorem Faithful.stopWithin_of_writeWithin {depth : Nat}
    (written : ∀ {log : List Entry} {b : Bench} {c : Nat} {l : ConsoleLine},
      Faithful before log (b.append c l) p →
        Faithful before (log ++ b.haltedBy depth c l) (b.writeWithin depth c l.severity l.text) p)
    (h : Faithful before log b p) (i : Nat) :
    Faithful before (log ++ b.stopEntriesWithin depth i) (b.stopWithin depth i).2 p := by
  rw [Bench.stopWithin, stopEntriesWithin]
  cases hr : (b.schedulers.get i).state with
  | idle | stopped | errored => simpa using h
  | running =>
    cases hi : (b.schedulers.get i).session with
    | none => simpa using h
    | some s =>
      have halted := written (h.halt hr hi)
      rw [List.append_assoc] at halted
      exact halted.quiet (quiet_terminal _ _)

/-- A line is followed by the last lines of the sessions that it stops. -/
theorem Faithful.writeWithin (depth : Nat) {c : Nat} {l : ConsoleLine}
    (h : Faithful before log (b.append c l) p) :
    Faithful before (log ++ b.haltedBy depth c l) (b.writeWithin depth c l.severity l.text) p := by
  induction depth generalizing log b c l with
  | zero =>
    rw [writeWithin_zero, haltedBy, List.append_nil]
    cases b.listeners.get c with
    | nobody | stopOn => exact h
    | terminal => exact h.quiet (quiet_terminal _ _)
  | succ depth ih =>
    rw [writeWithin_succ, haltedBy_succ]
    cases b.listeners.get c with
    | nobody => simpa using h
    | terminal => simpa using h.quiet (quiet_terminal _ _)
    | stopOn line i =>
      dsimp only
      split
      · exact h.stopWithin_of_writeWithin ih i
      · simpa using h

theorem Faithful.stop (h : Faithful before log b p) (i : Nat) :
    Faithful before (log ++ b.stopEntries i) (b.stop i).2 p :=
  h.stopWithin_of_writeWithin (fun hl => hl.writeWithin b.depth) i

/-- A line that a live session writes in its turn. -/
theorem Faithful.write (h : Faithful before log b p) (hl : b.live s = true)
    (hs : s < b.sessions.size) {r : Remark} {q : Phase} (hr : (p s).next r = some q) :
    Faithful before (log ++ b.entries s (b.sessions.get s).console r)
      (b.write (b.sessions.get s).console r.line.severity r.line.text) (Function.update p s q) := by
  have written := (h.speak hl hs hr).writeWithin b.depth
  rw [List.append_assoc] at written
  exact written

/-- The last line of a session that owns its scheduler. -/
theorem Faithful.lastLine (h : Faithful before log b p) (ho : b.owns s = true)
    (hd : b.live s = false) (o : Outcome) :
    Faithful before
      (log ++ (b.finish s o.state o.error).entries s (b.sessions.get s).console o.remark)
      ((b.finish s o.state o.error).write (b.sessions.get s).console o.remark.line.severity
        o.remark.line.text) p := by
  have written := (h.finish ho hd o).writeWithin (b.finish s o.state o.error).depth
  rw [List.append_assoc] at written
  exact written

/-- A session is told where in its sketch it is, if it is live. -/
theorem Faithful.inform (h : Faithful before log b p) (hs : s < b.sessions.size) {r : Remark}
    {q : Phase} (hr : (p s).next r = some q) (hi : r.line.severity = .info) :
    Faithful before (log ++ b.informEntries s r) (b.inform s r.line.text)
      (Function.update p s q) := by
  unfold Bench.inform informEntries
  dsimp only
  cases hl : b.live s with
  | true =>
    rw [live] at hl
    simp only [hl, if_true]
    have written := h.write hl hs hr
    rwa [hi] at written
  | false =>
    have := h.astray hl q
    rw [live] at hl
    simpa [hl] using this

/-! ## Stretches of evaluation -/

/-- What is left of a computation keeps to the terms. -/
def Paused.Abides {α : Type} (t : Terms) (P : α → Prop) : Paused α → Prop
  | .done a => P a
  | .resting _ k => ∀ wake, (k wake).Abides t P

variable {asks : Request → Prop} {phase : Phase}

/-- A sketch that is still live has been replied to as one. -/
theorem liveReply_perform {w : Wiring} {r : Request} (hl : (b.perform w r).2.isLive w = true) :
    r.LiveReply (b.perform w r).1 := by
  cases r with
  | isLive => exact hl
  | now | draw | chance | read => trivial
  | command c =>
    simp only [perform] at hl ⊢
    split
    · split <;> rintro ⟨⟩
    · next dead => simp [dead] at hl
  | print text =>
    simp only [perform] at hl ⊢
    split
    · rintro ⟨⟩
    · next dead => simp [dead] at hl

theorem Quiet.of_eq {b' : Bench} (hc : b'.clocks = b.clocks) (hi : b'.schedulers = b.schedulers)
    (hs : b'.sessions = b.sessions) (hl : b'.consoles = b.consoles) : Quiet b b' := by
  refine ⟨⟨hc, ?_, ?_, ?_, ?_, ?_, ?_⟩, hl, ?_, ?_⟩ <;> simp [hi, hs]

theorem quiet_perform {w : Wiring} {r : Request} (hr : r.Hushed) : Quiet b (b.perform w r).2 := by
  cases r with
  | print => exact hr.elim
  | isLive | now | draw | chance | read => exact .of_eq rfl rfl rfl rfl
  | command c =>
    simp only [perform]
    split
    · split <;> exact .of_eq rfl rfl rfl rfl
    · exact .of_eq rfl rfl rfl rfl

theorem Faithful.perform_hushed (h : Faithful before log b p) {w : Wiring} {r : Request}
    (hr : r.Hushed) :
    Faithful before (log ++ b.performEntries s phase w r) (b.perform w r).2 p := by
  have silent : b.performEntries s phase w r = [] := by
    cases r <;> first | exact hr.elim | rfl
  rw [silent, List.append_nil]
  exact h.quiet (quiet_perform hr)

/-- A request is answered. If it is to write a line, that is in its turn. -/
theorem Faithful.perform (h : Faithful before log b p) (hs : s < b.sessions.size) {r : Request}
    (hr : ∀ text, r = .print text → b.live s = true → phase = p s) :
    Faithful before (log ++ b.performEntries s phase (b.sessions.get s).wiring r)
      (b.perform (b.sessions.get s).wiring r).2 p := by
  cases r with
  | print text =>
    simp only [Bench.perform, performEntries, isLive_wiring]
    by_cases hl : b.live s = true
    · have next : (p s).next (.said phase text) = some (p s) := by
        simp [Phase.next, hr text rfl hl]
      have written := h.write hl hs next
      rw [Function.update_eq_self] at written
      simp only [hl, if_true]
      exact written
    · simpa [hl] using h
  | isLive | now | draw | chance | read | command => exact h.perform_hushed trivial

/-- Evaluation runs to its next rest. Nothing is written out of turn, and what is left of the
evaluation keeps to its terms as long as the session is live. -/
theorem Faithful.advance {α : Type} {P : α → Prop} {act : Act α}
    (h : Faithful before log b p) (hs : s < b.sessions.size)
    (hp : ∀ text, asks (.print text) → phase = p s)
    (ha : b.live s = true → act.Abides (.live asks) P) :
    Faithful before (log ++ advanceEntries s phase (b.sessions.get s).wiring act b)
        (b.advance (b.sessions.get s).wiring act).2 p ∧
      Onward b (b.advance (b.sessions.get s).wiring act).2 ∧
      ((b.advance (b.sessions.get s).wiring act).2.live s = true →
        (b.advance (b.sessions.get s).wiring act).1.Abides (.live asks) P) := by
  induction act generalizing log b with
  | done a => exact ⟨by rw [advanceEntries, List.append_nil]; exact h, .refl b, ha⟩
  | rest nap k =>
    exact ⟨by rw [advanceEntries, List.append_nil]; exact h, .refl b, fun hl => (ha hl).2⟩
  | ask r k ih =>
    rw [Bench.advance, advanceEntries]
    have onward := onward_perform (b.sessions.get s).wiring b r
    have performed : Faithful before
        (log ++ b.performEntries s phase (b.sessions.get s).wiring r)
        (b.perform (b.sessions.get s).wiring r).2 p :=
      h.perform hs fun text hr hl => hp text (hr ▸ (ha hl).1)
    have wiring := onward.wiring s
    have abides : (b.perform (b.sessions.get s).wiring r).2.live s = true →
        (k (b.perform (b.sessions.get s).wiring r).1).Abides (.live asks) P := by
      intro hl
      refine (ha (onward.live hl)).2 _ (liveReply_perform ?_)
      rw [← isLive_wiring, wiring] at hl
      exact hl
    obtain ⟨faithful, onward', left⟩ :=
      ih _ performed (Nat.lt_of_lt_of_le hs onward.size_le) abides
    rw [wiring] at faithful onward' left
    rw [List.append_assoc] at faithful
    exact ⟨faithful, onward.trans onward', left⟩

/-! ## Ends -/

theorem quiet_note (b : Bench) (parts : List String) : Quiet b (b.note parts) :=
  quiet_terminal b _

/-- A session that owns its scheduler without being live is ended as stopped. -/
theorem Faithful.stopOwned (h : Faithful before log b p)
    (hd : b.owns s = true → b.live s = false) :
    Faithful before (log ++ b.stopOwnedEntries s) (b.stopOwned s) p := by
  unfold Bench.stopOwned stopOwnedEntries
  by_cases ho : b.owns s = true
  · simp only [ho, if_true]
    exact h.lastLine ho (hd ho) .stopped
  · rw [if_neg ho, if_neg ho, List.append_nil]
    exact h

/-- The record of a session that is over has been closed before. -/
theorem Faithful.close (h : Faithful before log b p) (hs : s < b.sessions.size)
    (ho : b.owns s = false) : Faithful before log (b.close s) p := by
  obtain ⟨st, -, hr⟩ := h.recorded s hs
  obtain ⟨-, -, -, -, hended⟩ := hr.ended ho
  unfold Bench.close
  split
  · exact h.quiet (quiet_note _ _)
  · next open' => simp [open'] at hended

theorem Faithful.unwound (h : Faithful before log b p) (hs : s < b.sessions.size)
    (hd : b.live s = false) :
    Faithful before (log ++ b.unwoundEntries s) (b.unwound s).2 p := by
  refine ((h.quiet (quiet_note b _)).stopOwned fun _ => hd).close ?_ (owns_stopOwned _ s)
  exact Nat.lt_of_lt_of_le hs ((onward_note b _).trans (onward_stopOwned _ s)).size_le

theorem Faithful.fail (h : Faithful before log b p) (hs : s < b.sessions.size) (st : Store)
    (f : Fault) :
    Faithful before (log ++ b.failEntries s st f) (b.fail s st f).2 p := by
  unfold Bench.fail failEntries
  dsimp only
  by_cases ho : b.owns s = true
  · simp only [ho, if_true]
    cases f.report st (b.sessions.get s).transformed [] with
    | error m => simpa using h
    | ok text =>
      have dead : (b.invalidate (b.sessions.get s).clock (b.sessions.get s).generation).live s =
          false := by
        rw [Bool.eq_false_iff]
        exact fun hl => ((isCurrent_invalidate _ _ _ _).1 hl).2 ⟨rfl, rfl⟩
      have faithful := (h.invalidate _ _).lastLine ho dead (.failed text)
      have onward := onward_write ((b.invalidate (b.sessions.get s).clock
        (b.sessions.get s).generation).finish s .errored (some text)) (b.sessions.get s).console
        .error text
      have gone := onward.gone
        (owns_over (b := b.invalidate (b.sessions.get s).clock _) ho (.failed text))
      refine faithful.close ?_ gone
      refine Nat.lt_of_lt_of_le hs (Nat.le_trans ?_ onward.size_le)
      exact (Onward.dismiss b (owns_iff.1 ho).1 (.inr rfl) _ (.failed text)).size_le
  · have gone : b.owns s = false := Bool.eq_false_iff.2 ho
    rw [if_neg ho, if_neg ho, List.append_nil]
    exact (h.quiet (quiet_note b _)).close hs gone

theorem Faithful.interrupted (h : Faithful before log b p) :
    Faithful before (log ++ b.interruptedEntries s) (b.interrupted s).2 p := by
  unfold Bench.interrupted interruptedEntries
  dsimp only
  split
  · refine (h.invalidate _ _).stopOwned fun _ => ?_
    rw [Bool.eq_false_iff]
    exact fun hl => ((isCurrent_invalidate _ _ _ _).1 hl).2 ⟨rfl, rfl⟩
  · next ho => exact h.stopOwned fun ho' => absurd ho' ho

/-- Evaluation ends early. It unwinds only when the session is not live. -/
theorem Faithful.conclude (h : Faithful before log b p) (hs : s < b.sessions.size) (st : Store)
    {i : Interrupt} (hi : b.live s = true → i.Wanted) :
    Faithful before (log ++ b.concludeEntries s st i) (b.conclude s st i).2 p := by
  unfold Bench.conclude concludeEntries
  cases i with
  | unwind =>
    refine h.unwound hs ?_
    rw [Bool.eq_false_iff]
    exact fun hl => hi hl rfl
  | cancelled => exact h.interrupted
  | _ => exact h.fail hs _ _

/-! ## Stages -/

/-- What a turn of a session leads to, faithfully. -/
structure Turned (before : Shelf Console) (log : List Entry) (p : Nat → Phase) (s : Nat)
    (r : Turn × Bench) : Prop where
  faithful : ∃ q, Faithful before log r.2 (Function.update p s q) ∧
    ∀ nap d, r.1 = .rests nap d → d.Placed (r.2.sessions.get s).iterations q
  sound : ∀ nap d, r.1 = .rests nap d → d.Sound (r.2.live s = true)

theorem Turned.of_ends {r : Turn × Bench} (h : Faithful before log r.2 p) (he : r.1.Ends) :
    Turned before log p s r := by
  obtain ⟨e, hr⟩ := he
  refine ⟨⟨p s, by rwa [Function.update_eq_self], ?_⟩, ?_⟩
  · rw [hr]
    nofun
  · rw [hr]
    nofun

theorem Turned.of_rests {nap : Nap} {d : Drive} (h : Faithful before log b p)
    (hp : d.Placed (b.sessions.get s).iterations (p s)) (hd : d.Sound (b.live s = true)) :
    Turned before log p s (.rests nap d, b) := by
  refine ⟨⟨p s, by rwa [Function.update_eq_self], ?_⟩, ?_⟩
  · rintro _ _ ⟨⟩
    exact hp
  · rintro _ _ ⟨⟩
    exact hd

/-- The part of the sketch that the session was in does not matter for where the turn leads. -/
theorem Turned.of_update {q : Phase} {r : Turn × Bench}
    (h : Turned before log (Function.update p s q) s r) : Turned before log p s r := by
  obtain ⟨⟨q', hf, hq⟩, hs⟩ := h
  rw [Function.update_idem] at hf
  exact ⟨⟨q', hf, hq⟩, hs⟩

theorem abides_round (session : Session) (loop : EntryPoint) (m : Memory) :
    (round session loop m).Abides (.live Stage.loop.asks) Wanted :=
  Program.abides_callEntry session.binding loop m

theorem abides_pause (session : Session) (m : Memory) :
    (pause session m).Abides (.live Stage.gap.asks) Wanted :=
  BoardFunctions.abides_delay trivial trivial session.binding stepBound session.config.safetyDelay m

theorem abides_wakeUp (m : Memory) (wake : Wake) :
    (wakeUp m wake).Abides (.live Stage.gap.asks) Wanted := by
  cases wake <;> rintro _ ⟨⟩
  nofun

/-- What a session does behind a completed round: it finds itself stale, or its time is up, or it
pauses, which `r` is what comes of. -/
theorem Faithful.behindRound {x : Session} {es : List Entry} {r : Turn × Bench}
    (h : Faithful before log b p) (hc : x.clock = (b.sessions.get s).clock)
    (hg : x.generation = (b.sessions.get s).generation) (hs : s < b.sessions.size)
    (hp : p s = .round (b.sessions.get s).iterations) (loop : EntryPoint) (m : Memory)
    (hr : Turned before (log ++ es) p s r) :
    Turned before
      (log ++ if !b.isCurrent x.clock x.generation then b.unwoundEntries s
        else if b.timeIsUp s then
          b.failEntries s m.store (.sketch { complaint := guardComplaint x })
        else if (Number.int 0).lt x.config.safetyDelay then es
        else []) p s
      (if !b.isCurrent x.clock x.generation then b.unwound s
        else if b.timeIsUp s then b.fail s m.store (.sketch { complaint := guardComplaint x })
        else if (Number.int 0).lt x.config.safetyDelay then r
        else (.rests .moment (.midway .gap loop (wakeUp m)), b)) := by
  have live : b.isCurrent x.clock x.generation = b.live s := by rw [Bench.live, hc, hg]
  rw [live]
  cases hl : b.live s with
  | false => exact .of_ends (h.unwound hs hl) ⟨_, rfl⟩
  | true =>
    simp only [Bool.not_true, Bool.false_eq_true, if_false]
    split
    · exact .of_ends (h.fail hs m.store _) (ends_fail _ _ _ _)
    · split
      · exact hr
      · rw [List.append_nil]
        exact .of_rests h hp fun _ => abides_wakeUp m

/-- A session runs on from a stage to its next rest. -/
theorem Faithful.proceed (loop : EntryPoint) (fuel : Nat) {stage : Stage}
    {act : Act (Except Interrupt Unit × Memory)} (h : Faithful before log b p)
    (hs : s < b.sessions.size) (hp : stage.Placed (b.sessions.get s).iterations (p s))
    (ha : b.live s = true → act.Abides (.live stage.asks) Wanted) :
    Turned before (log ++ b.proceedEntries s loop fuel stage act) p s
      (Bench.proceed s loop fuel stage act b) := by
  induction fuel generalizing stage act log b p with
  | zero =>
    rw [Bench.proceed, proceedEntries, List.append_nil]
    exact .of_rests h hp fun hl _ => ha hl
  | succ fuel ih =>
    rw [Bench.proceed, proceedEntries]
    have speaks (text : String) (hr : stage.asks (.print text)) :
        stage.phase (b.sessions.get s).iterations = p s := by
      cases stage with
      | setup => exact hp.1.symm
      | loop => exact hp.symm
      | gap => exact hr.elim
    obtain ⟨faithful, onward, left⟩ := h.advance hs speaks ha
    rw [← List.append_assoc]
    generalize log ++ _ = log' at faithful ⊢
    generalize b.advance (b.sessions.get s).wiring act = r at faithful onward left ⊢
    have hs' := Nat.lt_of_lt_of_le hs onward.size_le
    rw [← onward.iterations s] at hp
    obtain ⟨⟨i | ⟨⟩, m⟩ | ⟨nap, k⟩, b'⟩ := r
    · exact .of_ends (faithful.conclude hs' m.store fun hl => left hl i rfl) (ends_conclude _ _ _ _)
    · cases stage with
      | setup =>
        have next : (p s).next .loop = some (.round 0) := by simp [Phase.next, hp.1]
        have informed := faithful.inform hs' next rfl
        have onward' := onward_inform b' s loopLine
        dsimp only
        rw [← List.append_assoc]
        refine .of_update (ih informed ?_ ?_ fun _ => abides_round _ _ _)
        · exact Nat.lt_of_lt_of_le hs' onward'.size_le
        · rw [Function.update_self]
          change Phase.round 0 = .round _
          rw [← hp.2, ← onward'.iterations s]
      | gap => exact ih faithful hs' hp fun _ => abides_round _ _ _
      | loop =>
        have hs'' : s < (b'.modifySession s fun x => { x with iterations := x.iterations + 1
            }).sessions.size := by rwa [size_modifySession hs']
        have completed : (b'.modifySession s fun x => { x with iterations := x.iterations + 1
            }).sessions.get s =
              { b'.sessions.get s with iterations := (b'.sessions.get s).iterations + 1 } := by
          rw [get_sessions_modifySession, if_pos rfl]
        obtain ⟨-, -, clock, generation⟩ := wiring_eq_iff.1 (onward.wiring s)
        have later : (p s).later = .round ((b'.sessions.get s).iterations + 1) := by
          rw [show p s = _ from hp]
          rfl
        have counted := faithful.round hs' fun _ => rfl
        rw [later] at counted
        dsimp only
        rw [List.append_cons]
        generalize (b'.modifySession s fun x => { x with iterations := x.iterations + 1 }) = b''
          at hs'' completed counted ⊢
        have placed : Function.update p s (.round ((b'.sessions.get s).iterations + 1)) s =
            .round (b''.sessions.get s).iterations := by
          rw [Function.update_self, completed]
        refine .of_update (counted.behindRound ?_ ?_ hs'' placed loop m (ih counted hs'' placed
          fun _ => abides_pause _ _))
        · rw [completed, ← clock]
        · rw [completed, ← generation]
    · rw [List.append_nil]
      exact .of_rests faithful hp left

/-! ## Turns -/

/-- Top-level code runs to its next rest, or the session goes on to `setup`. -/
theorem Faithful.openProgram {act : Act (Except Interrupt EntryPoints × Memory)}
    (h : Faithful before log b p) (hs : s < b.sessions.size)
    (hp : p s = .opening ∧ (b.sessions.get s).iterations = 0)
    (ha : b.live s = true → act.Abides BoardFunctions.Open Wanted) :
    Turned before (log ++ b.openEntries s act) p s (Bench.openProgram s act b) := by
  unfold Bench.openProgram openEntries
  obtain ⟨faithful, onward, left⟩ := h.advance hs (fun _ _ => hp.1.symm) ha
  dsimp only
  rw [← List.append_assoc]
  generalize log ++ _ = log' at faithful ⊢
  generalize b.advance (b.sessions.get s).wiring act = r at faithful onward left ⊢
  have hs' := Nat.lt_of_lt_of_le hs onward.size_le
  rw [← onward.iterations s] at hp
  match r, left with
  | (.resting nap k, b'), left =>
    rw [List.append_nil]
    exact .of_rests faithful hp left
  | (.done (.error i, m), b'), left =>
    exact .of_ends (faithful.conclude hs' m.store fun hl => left hl i rfl) (ends_conclude _ _ _ _)
  | (.done (.ok entry, m), b'), _ =>
    have next : (p s).next .setup = some .setup := by simp [Phase.next, hp.1]
    have informed := faithful.inform hs' next rfl
    have onward' := onward_inform b' s setupLine
    dsimp only
    rw [← List.append_assoc]
    refine .of_update (informed.proceed _ _ ?_ ⟨Function.update_self .., ?_⟩ fun _ => ?_)
    · exact Nat.lt_of_lt_of_le hs' onward'.size_le
    · exact (onward'.iterations s).trans hp.2
    · exact Program.abides_callEntry _ _ m

theorem quiet_introduced (hs : s < b.sessions.size) : Quiet b (b.introduced s) := by
  refine ⟨?_, rfl, fun _ => rfl, fun t => ?_⟩
  · have noted (parts : List String) : Alike b (b.note parts) := (quiet_note b parts).toAlike
    exact (noted _).trans (.modifySession (b := b.note _) hs (fun _ => rfl) fun _ => rfl)
  · unfold introduced
    dsimp only
    rw [get_sessions_modifySession]
    split
    · next hst => subst hst; rfl
    · rfl

/-- The first turn of a session. -/
theorem Faithful.enter (h : Faithful before log b p) (hs : s < b.sessions.size)
    (hp : p s = .opening ∧ (b.sessions.get s).iterations = 0) :
    Turned before (log ++ b.enterEntries s) p s (b.enter s) := by
  have introduced := quiet_introduced hs
  have unmoved := unmoved_lookUpProgram (b.introduced s)
    (Dialect.toHostForm (b.sessions.get s).source)
  rw [enter_eq, enterEntries]
  generalize (b.introduced s).lookUpProgram _ = r at unmoved ⊢
  have quiet := Quiet.of_eq unmoved.clocks unmoved.schedulers unmoved.sessions unmoved.consoles
  have faithful := (h.quiet introduced).quiet quiet
  have hs' : s < r.2.sessions.size := by rwa [quiet.size, introduced.size]
  obtain ⟨f | program, b'⟩ := r
  · exact .of_ends (faithful.fail hs' {} f) (ends_fail _ _ _ _)
  · have started : (b'.sessions.get s).iterations = 0 := by
      have first := introduced.record s
      have second := quiet.record s
      simp only [Session.record, Prod.mk.injEq] at first second
      rw [second.1, first.1, hp.2]
    have cleared : Faithful before log
        { b' with strips := b'.strips.modify (b.sessions.get s).strip Strip.reset } p :=
      faithful.quiet (.of_eq rfl rfl rfl rfl)
    exact cleared.openProgram hs' ⟨hp.1, started⟩ fun _ => Program.abides_instantiate _ _ _

/-- **A turn of a session is told of faithfully.** -/
theorem Faithful.resume (h : Faithful before log b p) (hs : s < b.sessions.size) {d : Drive}
    (hp : d.Placed (b.sessions.get s).iterations (p s)) (hd : d.Sound (b.live s = true))
    (wake : Wake) :
    Turned before (log ++ d.told s wake b) p s (d.resume s wake b) := by
  cases d with
  | fresh =>
    cases wake with
    | rested => exact h.enter hs hp
    | cancelled =>
      rw [Drive.told, List.append_nil]
      exact .of_ends (r := (_, b)) h ⟨_, rfl⟩
  | opening k => exact h.openProgram hs hp fun hl => hd hl wake
  | midway stage loop k => exact h.proceed loop _ hs hp fun hl => hd hl wake

end Bench
end LedSketch
