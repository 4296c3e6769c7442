import LedSketch.Proofs.Session.Orderly

/-!
# What is written for whom

The entries that each operation adds to a transcript of the consoles: a line, the console it is
written to, and the session it is written for. A line may stop a scheduler that listens for it;
the entry for the session that is stopped follows the line.

The entries also say which part of a sketch wrote a line, and when a round of `loop` was completed.

* `Bench.entries` — what writing a line adds;
* `Drive.told` — what a turn of a session adds.
-/

namespace LedSketch

/-- A part of a sketch: its top-level code, `setup`, a round of `loop`, or the pause behind as many
rounds. -/
inductive Phase where
  | opening
  | setup
  | round (n : Nat)
  | pause (n : Nat)
deriving DecidableEq, Repr

/-- The part of a sketch that runs in a stage, with the number of completed rounds. -/
def Stage.phase (n : Nat) : Stage → Phase
  | .setup => .setup
  | .loop => .round n
  | .gap => .pause n

/-- What a line is about. -/
inductive Remark where
  /-- The sketch itself wrote it. -/
  | said (phase : Phase) (text : String)
  | setup
  | loop
  | stopped
  | failed (text : String)
deriving DecidableEq, Repr

/-- The line of a remark. -/
def Remark.line : Remark → ConsoleLine
  | .said _ text => ⟨.info, text⟩
  | .setup => ⟨.info, setupLine⟩
  | .loop => ⟨.info, loopLine⟩
  | .stopped => ⟨.info, stoppedLine⟩
  | .failed text => ⟨.error, text⟩

/-- What a transcript notes about a session. -/
inductive Event where
  | wrote (console : Nat) (remark : Remark)
  /-- A round of `loop` has been completed. -/
  | completed
deriving DecidableEq, Repr

/-- An event, and the session it concerns. -/
structure Entry where
  session : Nat
  event : Event
deriving DecidableEq, Repr

namespace Bench

/-- Appends a line to a console. -/
def append (b : Bench) (console : Nat) (l : ConsoleLine) : Bench :=
  { b with consoles := b.consoles.modify console (·.write l.severity l.text) }

/-! ## Lines -/

/-- The entries for the sessions that are stopped in turn by a line. -/
def haltedBy : Nat → Bench → Nat → ConsoleLine → List Entry
  | 0, _, _, _ => []
  | depth + 1, b, console, l =>
    let b := b.append console l
    match b.listeners.get console with
    | .stopOn line i =>
      if l.text = line then
        let c := b.schedulers.get i
        match c.state, c.session with
        | .running, some s =>
          let b := (b.invalidate c.clock (b.sessions.get s).generation).finish s .stopped none
          ⟨s, .wrote c.console .stopped⟩ :: haltedBy depth b c.console Remark.stopped.line
        | _, _ => []
      else []
    | .nobody | .terminal => []

/-- The entries for a line that is written for a session. -/
def entries (b : Bench) (s console : Nat) (r : Remark) : List Entry :=
  ⟨s, .wrote console r⟩ :: b.haltedBy b.depth console r.line

/-- The entries when a scheduler is stopped; `depth` bounds how many others it may stop in turn. -/
def stopEntriesWithin (depth : Nat) (b : Bench) (i : Nat) : List Entry :=
  let c := b.schedulers.get i
  match c.state, c.session with
  | .running, some s =>
    let b := (b.invalidate c.clock (b.sessions.get s).generation).finish s .stopped none
    ⟨s, .wrote c.console .stopped⟩ :: b.haltedBy depth c.console Remark.stopped.line
  | _, _ => []

/-- The entries when a scheduler is stopped. -/
def stopEntries (b : Bench) (i : Nat) : List Entry := b.stopEntriesWithin b.depth i

theorem haltedBy_succ (depth : Nat) (b : Bench) (c : Nat) (l : ConsoleLine) :
    b.haltedBy (depth + 1) c l = match b.listeners.get c with
      | .stopOn line i => if l.text = line then (b.append c l).stopEntriesWithin depth i else []
      | .nobody | .terminal => [] := rfl

theorem writeWithin_succ (depth : Nat) (b : Bench) (c : Nat) (l : ConsoleLine) :
    b.writeWithin (depth + 1) c l.severity l.text = match b.listeners.get c with
      | .nobody => b.append c l
      | .terminal => { b.append c l with terminal := b.terminal.repeatLine l }
      | .stopOn line i =>
        if l.text = line then ((b.append c l).stopWithin depth i).2 else b.append c l := by
  rw [writeWithin]
  rfl

theorem writeWithin_zero (b : Bench) (c : Nat) (l : ConsoleLine) :
    b.writeWithin 0 c l.severity l.text = match b.listeners.get c with
      | .terminal => { b.append c l with terminal := b.terminal.repeatLine l }
      | .nobody | .stopOn _ _ => b.append c l := by
  rw [writeWithin]
  cases b.listeners.get c <;> rfl

/-! ## Ends -/

/-- The entries when a session that owns its scheduler is ended as stopped. -/
def stopOwnedEntries (b : Bench) (s : Nat) : List Entry :=
  if b.owns s then (b.finish s .stopped none).entries s (b.sessions.get s).console .stopped else []

/-- The entries when a session is ended because of an error. -/
def failEntries (b : Bench) (s : Nat) (st : Store) (f : Fault) : List Entry :=
  let session := b.sessions.get s
  if b.owns s then
    match f.report st session.transformed [] with
    | .error _ => []
    | .ok text =>
      ((b.invalidate session.clock session.generation).finish s .errored (some text)).entries s
        session.console (.failed text)
  else []

/-- The entries when a session finds that it is not live any more. -/
def unwoundEntries (b : Bench) (s : Nat) : List Entry :=
  let generation := (b.sessions.get s).generation
  (b.note ["scheduler", s!"unwound generation={generation}"]).stopOwnedEntries s

/-- The entries when a session is cancelled. -/
def interruptedEntries (b : Bench) (s : Nat) : List Entry :=
  let session := b.sessions.get s
  let b := if b.owns s then b.invalidate session.clock session.generation else b
  b.stopOwnedEntries s

/-- The entries when evaluation ends early. -/
def concludeEntries (b : Bench) (s : Nat) (st : Store) : Interrupt → List Entry
  | .unwind => b.unwoundEntries s
  | .cancelled => b.interruptedEntries s
  | .sketch e => b.failEntries s st (.sketch e)
  | .mishap m => b.failEntries s st (.mishap m)
  | .breakLoop | .continueLoop | .returned _ | .spent => b.failEntries s st (.mishap .tooDeep)

/-! ## Turns -/

/-- The entries when a request of a sketch is answered. -/
def performEntries (s : Nat) (phase : Phase) (w : Wiring) (b : Bench) : Request → List Entry
  | .print text => if b.isLive w then b.entries s w.console (.said phase text) else []
  | _ => []

/-- The entries while a computation runs to its next rest. -/
def advanceEntries {α : Type} (s : Nat) (phase : Phase) (w : Wiring) : Act α → Bench → List Entry
  | .done _, _ => []
  | .rest _ _, _ => []
  | .ask r k, b =>
    b.performEntries s phase w r ++
      advanceEntries s phase w (k (b.perform w r).1) (b.perform w r).2

/-- The entries when a session is told of, if its generation is current. -/
def informEntries (b : Bench) (s : Nat) (r : Remark) : List Entry :=
  let session := b.sessions.get s
  if b.isCurrent session.clock session.generation then b.entries s session.console r else []

/-- The entries while a session runs to its next rest. -/
def proceedEntries (s : Nat) (loop : EntryPoint) :
    Nat → Stage → Act (Except Interrupt Unit × Memory) → Bench → List Entry
  | 0, _, _, _ => []
  | fuel + 1, stage, act, b =>
    let session := b.sessions.get s
    advanceEntries s (stage.phase session.iterations) session.wiring act b ++
    match b.advance session.wiring act with
    | (.resting _ _, _) => []
    | (.done (.error i, m), b) => b.concludeEntries s m.store i
    | (.done (.ok _, m), b) =>
      match stage with
      | .setup =>
        b.informEntries s .loop ++
          proceedEntries s loop fuel .loop (round session loop m) (b.inform s loopLine)
      | .gap => proceedEntries s loop fuel .loop (round session loop m) b
      | .loop =>
        let b := b.modifySession s fun x => { x with iterations := x.iterations + 1 }
        ⟨s, .completed⟩ ::
          if !b.isCurrent session.clock session.generation then b.unwoundEntries s
          else if b.timeIsUp s then
            b.failEntries s m.store (.sketch { complaint := guardComplaint session })
          else if (Number.int 0).lt session.config.safetyDelay then
            proceedEntries s loop fuel .gap (pause session m) b
          else []

/-- The entries while top-level code runs to its next rest, or beyond it. -/
def openEntries (s : Nat) (act : Act (Except Interrupt EntryPoints × Memory)) (b : Bench) :
    List Entry :=
  let session := b.sessions.get s
  advanceEntries s .opening session.wiring act b ++
  match b.advance session.wiring act with
  | (.resting _ _, _) => []
  | (.done (.error i, m), b) => b.concludeEntries s m.store i
  | (.done (.ok entry, m), b) =>
    let act := Eval.runFrom (do let _ ← Program.callEntry session.binding entry.setup) m
    b.informEntries s .setup ++
      proceedEntries s entry.loop stepBound .setup act (b.inform s setupLine)

/-- The bench when the program of a session is looked up. -/
def introduced (b : Bench) (s : Nat) : Bench :=
  let session := b.sessions.get s
  let hostForm := Dialect.toHostForm session.source
  (b.note ["transpile", "in", toString session.source.length, "out",
    toString hostForm.length]).modifySession s fun x => { x with transformed := some hostForm }

/-- The first turn of a session, from where it looks its program up. -/
theorem enter_eq (b : Bench) (s : Nat) :
    b.enter s =
      match (b.introduced s).lookUpProgram (Dialect.toHostForm (b.sessions.get s).source) with
      | (.error f, b) => b.fail s {} f
      | (.ok program, b') =>
        openProgram s ((Program.instantiate (b.sessions.get s).binding program).runFrom
          Program.freshMemory)
          { b' with strips := b'.strips.modify (b.sessions.get s).strip Strip.reset } :=
  rfl

/-- The entries in the first turn of a session. -/
def enterEntries (b : Bench) (s : Nat) : List Entry :=
  let session := b.sessions.get s
  match (b.introduced s).lookUpProgram (Dialect.toHostForm session.source) with
  | (.error f, b) => b.failEntries s {} f
  | (.ok program, b) =>
    let b := { b with strips := b.strips.modify session.strip Strip.reset }
    openEntries s ((Program.instantiate session.binding program).runFrom Program.freshMemory) b

end Bench

/-- The entries in a turn of a session. -/
def Drive.told (s : Nat) (d : Drive) (wake : Wake) (b : Bench) : List Entry :=
  match d, wake with
  | .fresh, .cancelled => []
  | .fresh, .rested => b.enterEntries s
  | .opening k, wake => Bench.openEntries s (k wake) b
  | .midway stage loop k, wake => Bench.proceedEntries s loop stepBound stage (k wake) b

end LedSketch
