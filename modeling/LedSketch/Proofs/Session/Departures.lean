import LedSketch.Proofs.Running.Heedful
import LedSketch.Proofs.Session.Endings
import LedSketch.Proofs.Session.Transcript

/-!
# Departures

What is left of a sketch that is not live runs to its end in one turn: everything that could make it
rest asks first whether it is live, and nothing that it asks for changes the bench. It is over at
the end of its next round at the latest. On the way there it may meet an error, before it finds that
it is not live; then the session ends with the error, else it unwinds or is cancelled.

* `Drive.Heeds`, `heeds_resume` — what is left of a sketch heeds whether it is live;
* `Drive.fault?` — the error that it meets when it is not;
* `Departs`, `departs_resume` — a turn of a session that is not live is its last.
-/

namespace LedSketch

/-! ## Heeding -/

/-- Evaluation heeds whether its sketch is live, at its start and whenever it is woken. -/
def Act.Heeds {α : Type} (x : Act (Except Interrupt α × Memory)) : Prop :=
  Discipline.heeding.Keeps (fun r => ∀ i, r.1 = .error i → BoardFunctions.Anyhow i) x

/-- What is left of a sketch heeds whether it is live. -/
def Drive.Heeds : Drive → Prop
  | .fresh => True
  | .opening k => ∀ wake, (k wake).Heeds
  | .midway _ _ k => ∀ wake, (k wake).Heeds

/-- The same for what a turn leaves. -/
def Turn.Heeds (t : Turn) : Prop := ∀ nap d, t = .rests nap d → d.Heeds

theorem Turn.Ends.heeds {t : Turn} (h : t.Ends) : t.Heeds := by
  obtain ⟨e, rfl⟩ := h
  nofun

theorem Act.Heedful.resting {α : Type} {P : α → Prop} {act : Act α} (h : act.Heedful P)
    {w : Wiring} {b b' : Bench} {nap : Nap} {k : Wake → Act α}
    (hr : b.advance w act = (.resting nap k, b')) (wake : Wake) :
    Discipline.heeding.Keeps P (k wake) := by
  induction act generalizing b with
  | done a => cases hr
  | rest nap k =>
    cases hr
    exact h wake
  | ask r k ih => exact ih _ (h _) hr

namespace Bench

variable {b : Bench} {s : Nat}

theorem heeds_round (session : Session) (loop : EntryPoint) (m : Memory) :
    (round session loop m).Heeds :=
  BoardFunctions.admits_heeding.enter session.binding loop m

theorem heeds_pause (session : Session) (m : Memory) : (pause session m).Heeds :=
  BoardFunctions.admits_heeding.delay session.binding stepBound session.config.safetyDelay m

theorem heeds_wakeUp (m : Memory) (wake : Wake) : (wakeUp m wake).Heeds := by
  cases wake <;> exact ⟨fun _ _ => trivial, fun _ _ => trivial⟩

theorem heeds_proceed (s : Nat) (loop : EntryPoint) (fuel : Nat) {stage : Stage}
    {act : Act (Except Interrupt Unit × Memory)} (h : act.Heeds) (b : Bench) :
    (proceed s loop fuel stage act b).1.Heeds := by
  induction fuel generalizing stage act b with
  | zero =>
    rintro _ _ ⟨⟩
    exact fun _ => h
  | succ fuel ih =>
    rw [proceed]
    rcases hr : b.advance (b.sessions.get s).wiring act with ⟨⟨i | ⟨⟩, m⟩ | ⟨nap, k⟩, b'⟩
    · exact (ends_conclude b' s m.store i).heeds
    · cases stage with
      | setup | gap => exact ih (heeds_round _ _ _) _
      | loop =>
        dsimp only
        split
        · exact Turn.Ends.heeds ⟨_, rfl⟩
        · split
          · exact (ends_fail _ s _ _).heeds
          · split
            · exact ih (heeds_pause _ _) _
            · rintro _ _ ⟨⟩
              exact heeds_wakeUp m
    · rintro _ _ ⟨⟩
      exact h.2.resting hr

theorem heeds_openProgram (s : Nat) {act : Act (Except Interrupt EntryPoints × Memory)}
    (h : act.Heeds) (b : Bench) : (openProgram s act b).1.Heeds := by
  unfold openProgram
  dsimp only
  match hr : b.advance (b.sessions.get s).wiring act with
  | (.resting nap k, b') =>
    rintro _ _ ⟨⟩
    exact h.2.resting hr
  | (.done (.error i, m), b') => exact (ends_conclude b' s m.store i).heeds
  | (.done (.ok entry, m), b') =>
    exact heeds_proceed s _ _ (BoardFunctions.admits_heeding.enter _ _ m) _

theorem heeds_instantiate (session : Session) (program : Compiled) :
    ((Program.instantiate session.binding program).runFrom Program.freshMemory).Heeds :=
  BoardFunctions.admits_heeding.instantiate session.binding program _

/-- What a turn leaves of a sketch heeds whether it is live, if what it began with did. -/
theorem heeds_resume {d : Drive} (h : d.Heeds) (s : Nat) (wake : Wake) (b : Bench) :
    (d.resume s wake b).1.Heeds := by
  cases d with
  | fresh =>
    cases wake with
    | cancelled => exact Turn.Ends.heeds ⟨_, rfl⟩
    | rested =>
      change (b.enter s).1.Heeds
      unfold enter
      dsimp only
      split
      · exact (ends_fail _ s _ _).heeds
      · exact heeds_openProgram s (heeds_instantiate _ _) _
  | opening k => exact heeds_openProgram s (h wake) b
  | midway stage loop k => exact heeds_proceed s loop _ (h wake) b

end Bench

/-! ## Errors on the way -/

/-- The error that ends evaluation early. To find that one is not live is none, and neither is to be
cancelled. -/
def Interrupt.fault? : Interrupt → Option Fault
  | .unwind | .cancelled => none
  | .sketch e => some (.sketch e)
  | .mishap m => some (.mishap m)
  | .breakLoop | .continueLoop | .returned _ | .spent => some (.mishap .tooDeep)

/-- The error that a stretch of evaluation has ended with, and the store that it has left. -/
def Bench.Paused.fault? {α : Type} : Paused (Except Interrupt α × Memory) → Option (Store × Fault)
  | .done (.error i, m) => i.fault?.map (m.store, ·)
  | .done (.ok _, _) | .resting _ _ => none

namespace Bench

/-- The error that a session meets on its way through a stage, and through the round behind it if it
comes to that. -/
def stageFault? (b : Bench) (s : Nat) (loop : EntryPoint) (stage : Stage)
    (act : Act (Except Interrupt Unit × Memory)) : Option (Store × Fault) :=
  let session := b.sessions.get s
  match stage, b.advance session.wiring act with
  | .setup, (.done (.ok _, m), b) | .gap, (.done (.ok _, m), b) =>
    (b.advance session.wiring (round session loop m)).1.fault?
  | _, (end_, _) => end_.fault?

/-- The error that a session meets on its way through its top-level code, and through `setup` and a
round behind it if it comes to that. -/
def openFault? (b : Bench) (s : Nat) (act : Act (Except Interrupt EntryPoints × Memory)) :
    Option (Store × Fault) :=
  let session := b.sessions.get s
  match b.advance session.wiring act with
  | (.done (.ok entry, m), b) =>
    b.stageFault? s entry.loop .setup
      (Eval.runFrom (do let _ ← Program.callEntry session.binding entry.setup) m)
  | (end_, _) => end_.fault?

/-- The same from the look-up of the program on. -/
def enterFault? (b : Bench) (s : Nat) : Option (Store × Fault) :=
  let session := b.sessions.get s
  match (b.introduced s).lookUpProgram (Dialect.toHostForm session.source) with
  | (.error f, _) => some ({}, f)
  | (.ok program, b) =>
    openFault? { b with strips := b.strips.modify session.strip Strip.reset } s
      ((Program.instantiate session.binding program).runFrom Program.freshMemory)

end Bench

/-- The error that a turn of a session meets that is not live, if any. -/
def Drive.fault? (s : Nat) (wake : Wake) (b : Bench) : Drive → Option (Store × Fault)
  | .fresh => match wake with
    | .rested => b.enterFault? s
    | .cancelled => none
  | .opening k => b.openFault? s (k wake)
  | .midway stage loop k => b.stageFault? s loop stage (k wake)

namespace Bench

/-! ## Last turns -/

/-- How a session ends in a turn, and the entries of that turn: with an error, or without one if it
finds that it is not live or is cancelled. Until then it may at most complete a round; `owned` says
whether the session still owns its scheduler. -/
inductive Departs (s : Nat) (owned : Bool) :
    Option (Store × Fault) → Turn × Bench → List Entry → Prop
  | unwound {b : Bench} (ho : b.owns s = owned) : Departs s owned none (b.unwound s) (b.unwoundEntries s)
  | interrupted {b : Bench} (ho : b.owns s = owned) :
    Departs s owned none (b.interrupted s) (b.interruptedEntries s)
  | failed {b : Bench} (ho : b.owns s = owned) (st : Store) (f : Fault) :
    Departs s owned (some (st, f)) (b.fail s st f) (b.failEntries s st f)
  | completed {fault : Option (Store × Fault)} {r : Turn × Bench} {es : List Entry}
    (h : Departs s owned fault r es) : Departs s owned fault r (⟨s, .completed⟩ :: es)

variable {b b' : Bench} {s : Nat}

theorem departs_conclude {owned : Bool} (ho : b.owns s = owned) (st : Store) (i : Interrupt) :
    Departs s owned (i.fault?.map (st, ·)) (b.conclude s st i) (b.concludeEntries s st i) := by
  unfold conclude concludeEntries
  cases i with
  | unwind => exact .unwound ho
  | cancelled => exact .interrupted ho
  | _ => exact .failed ho st _

theorem advanceEntries_of_dead {α : Type} {w : Wiring} (phase : Phase) (act : Act α)
    (hd : b.isLive w = false) : b.advanceEntries s phase w act = [] := by
  induction act generalizing b with
  | done | rest => rfl
  | ask r k ih =>
    rw [advanceEntries, ih _ (((drawn_perform hd r).isLive w).trans hd), List.append_nil]
    cases r with
    | print text => simp only [performEntries, hd, Bool.false_eq_true, if_false]
    | isLive | now | draw | chance | read | command => rfl

/-- Two benches agree on what a session is and that it is not live. -/
structure Dead (s : Nat) (b b' : Bench) : Prop where
  dead : b'.live s = false
  owns : b'.owns s = b.owns s
  session : b'.sessions.get s = b.sessions.get s

theorem Drawn.dead (h : Drawn b b') (hd : b.live s = false) : Dead s b b' := by
  rw [h]
  exact ⟨hd, rfl, rfl⟩

/-- A stretch of evaluation that heeds runs to its end and writes nothing. -/
theorem advance_of_dead {α : Type} {act : Act (Except Interrupt α × Memory)} (h : act.Heeds)
    (hd : b.live s = false) (phase : Phase) :
    b.advanceEntries s phase (b.sessions.get s).wiring act = [] ∧
      ∃ a b', b.advance (b.sessions.get s).wiring act = (.done a, b') ∧ Dead s b b' := by
  have dead : b.isLive (b.sessions.get s).wiring = false := hd
  obtain ⟨a, b', advanced, -, drawn⟩ := h.1.advance_of_dead dead
  exact ⟨advanceEntries_of_dead phase act dead, a, b', advanced, drawn.dead hd⟩

theorem inform_of_dead (hd : b.live s = false) (text : String) : b.inform s text = b :=
  if_neg (by rw [← Bool.not_eq_true] at hd; exact hd)

theorem informEntries_of_dead (hd : b.live s = false) (r : Remark) : b.informEntries s r = [] :=
  if_neg (by rw [← Bool.not_eq_true] at hd; exact hd)

/-- A round is the last one. -/
theorem departs_round (loop : EntryPoint) (fuel : Nat) {act : Act (Except Interrupt Unit × Memory)}
    (h : act.Heeds) (hd : b.live s = false) :
    Departs s (b.owns s) (b.advance (b.sessions.get s).wiring act).1.fault?
      (proceed s loop (fuel + 1) .loop act b) (b.proceedEntries s loop (fuel + 1) .loop act) := by
  rw [proceed, proceedEntries]
  obtain ⟨silent, r, b', advanced, dead⟩ := advance_of_dead h hd (Stage.phase _ .loop)
  rw [silent, advanced]
  obtain ⟨i | ⟨⟩, m⟩ := r
  · exact departs_conclude dead.owns m.store i
  · have stale : (b'.modifySession s fun x => { x with iterations := x.iterations + 1 }).isCurrent
        (b.sessions.get s).clock (b.sessions.get s).generation = false := by
      rw [← dead.session]
      exact dead.dead
    have owns : (b'.modifySession s fun x => { x with iterations := x.iterations + 1 }).owns s =
        b.owns s := by
      rw [← dead.owns]
      simp only [Bench.owns, get_sessions_modifySession, if_true]
      rfl
    simp only [stale, Bool.not_false, if_true]
    exact .completed (.unwound owns)

theorem two_le_stepBound : 2 ≤ stepBound := by decide

/-- No stage is followed by more than one round. -/
theorem departs_proceed (loop : EntryPoint) {fuel : Nat} (hf : 2 ≤ fuel) {stage : Stage}
    {act : Act (Except Interrupt Unit × Memory)} (h : act.Heeds) (hd : b.live s = false) :
    Departs s (b.owns s) (b.stageFault? s loop stage act) (proceed s loop fuel stage act b)
      (b.proceedEntries s loop fuel stage act) := by
  obtain ⟨fuel, rfl⟩ := Nat.exists_eq_add_of_le' hf
  obtain ⟨silent, r, b', advanced, dead⟩ :=
    advance_of_dead h hd (stage.phase (b.sessions.get s).iterations)
  cases stage with
  | loop =>
    have departs := departs_round loop (fuel + 1) h hd
    simp only [stageFault?]
    rw [advanced] at departs ⊢
    exact departs
  | setup | gap =>
    rw [proceed, proceedEntries, silent, List.nil_append]
    unfold stageFault?
    obtain ⟨i | ⟨⟩, m⟩ := r
    · simp only [advanced]
      exact departs_conclude dead.owns m.store i
    · simp only [advanced]
      have departs := departs_round loop fuel (heeds_round (b.sessions.get s) loop m) dead.dead
      rw [dead.owns, dead.session] at departs
      simpa only [inform_of_dead dead.dead, informEntries_of_dead dead.dead, List.nil_append]
        using departs

theorem departs_openProgram {act : Act (Except Interrupt EntryPoints × Memory)} (h : act.Heeds)
    (hd : b.live s = false) :
    Departs s (b.owns s) (b.openFault? s act) (openProgram s act b) (b.openEntries s act) := by
  unfold openProgram openEntries openFault?
  obtain ⟨silent, r, b', advanced, dead⟩ := advance_of_dead h hd .opening
  simp only [silent, advanced, List.nil_append]
  obtain ⟨i | entry, m⟩ := r
  · exact departs_conclude dead.owns m.store i
  · have heeds : (Eval.runFrom (do let _ ← Program.callEntry (b.sessions.get s).binding entry.setup)
        m).Heeds := BoardFunctions.admits_heeding.enter _ _ m
    have departs : Departs s _ (b'.stageFault? s entry.loop .setup _) _ _ :=
      departs_proceed entry.loop two_le_stepBound heeds dead.dead
    rw [dead.owns] at departs
    simpa only [inform_of_dead dead.dead, informEntries_of_dead dead.dead, List.nil_append]
      using departs

theorem departs_enter (hd : b.live s = false) :
    Departs s (b.owns s) (b.enterFault? s) (b.enter s) (b.enterEntries s) := by
  rw [enter_eq, enterEntries, enterFault?]
  have unmoved := unmoved_lookUpProgram (b.introduced s)
    (Dialect.toHostForm (b.sessions.get s).source)
  generalize (b.introduced s).lookUpProgram _ = r at unmoved ⊢
  have owns : r.2.owns s = b.owns s := by
    simp only [Bench.owns, unmoved.sessions, unmoved.schedulers, introduced,
      get_sessions_modifySession, if_true]
    rfl
  have dead : r.2.live s = false := by
    rw [← hd]
    simp only [live, isCurrent, unmoved.sessions, unmoved.clocks, introduced,
      get_sessions_modifySession, if_true]
    rfl
  obtain ⟨f | program, b'⟩ := r
  · exact .failed owns {} f
  · have cleared : live { b' with strips := b'.strips.modify (b.sessions.get s).strip Strip.reset }
        s = false := dead
    have departs := departs_openProgram (heeds_instantiate (b.sessions.get s) program) cleared
    rw [← owns]
    exact departs

/-- **A turn of a session that is not live is its last,** unless the session is cancelled before its
first turn. -/
theorem departs_resume {d : Drive} {wake : Wake} (hw : ¬ (d = .fresh ∧ wake = .cancelled))
    (h : d.Heeds) (hd : b.live s = false) :
    Departs s (b.owns s) (d.fault? s wake b) (d.resume s wake b) (d.told s wake b) := by
  cases d with
  | fresh =>
    cases wake with
    | rested => exact departs_enter hd
    | cancelled => exact absurd ⟨rfl, rfl⟩ hw
  | opening k => exact departs_openProgram (h wake) hd
  | midway stage loop k => exact departs_proceed loop two_le_stepBound (h wake) hd

end Bench
end LedSketch
