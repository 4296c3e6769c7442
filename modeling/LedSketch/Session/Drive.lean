import LedSketch.Dialect.HostForm
import LedSketch.Fault.Report
import LedSketch.Program.Instance
import LedSketch.Session.Bench

/-!
# Driving a session

A session is driven through its stages: the top-level code of its program, `setup`, and `loop` again
and again with a gap behind each round. Between two rests it runs without interruption. It ends when
it finds that its generation is not current any more, when an error arises, when its time is up, or
when it is cancelled.

A session owns its scheduler as long as that scheduler runs it. Only a session that owns its
scheduler reports how it ends.

This is `_drive` of section 4.5 of the specification (`SPEC_FULL.md:210-215`) with the failure
semantics of that section (`SPEC_FULL.md:227-230`).

* `fail`, `unwound`, `interrupted` — the three ways to end early;
* `Drive.resume` — one turn of a session, from one rest to the next.
-/

namespace LedSketch

open Report (padLeft)

/-- The line in front of `setup`. -/
def setupLine : String := "Running setup()..."

/-- The line in front of the first `loop`. -/
def loopLine : String := "Entering loop()... (press Stop to halt)"

namespace Session

/-- What the sketch of a session is connected to. -/
def wiring (s : Session) : Wiring := ⟨s.strip, s.console, some (s.clock, s.generation)⟩

/-- What the library needs to know about a session. -/
def binding (s : Session) : Binding := ⟨s.startedAt, s.config.yieldsOnZeroDelay⟩

/-- How long a session has taken, in milliseconds. -/
def elapsed (s : Session) (now : Float) : Float := (s.endedAt.getD now - s.startedAt) * 1000.0

/-- Completed rounds per second. -/
def rate (s : Session) (now : Float) : Float :=
  let seconds := s.elapsed now / 1000.0
  if 0.0 < seconds then Float.ofNat s.iterations / seconds else 0.0

end Session

/-- What a session does in a stretch of evaluation. -/
inductive Stage where
  | setup
  | loop
  /-- Between two rounds. -/
  | gap
deriving DecidableEq, Repr

/-- Where a session rests. -/
inductive Drive where
  /-- Before its first turn. -/
  | fresh
  /-- In its top-level code. -/
  | opening (k : Wake → Act (Except Interrupt EntryPoints × Memory))
  /-- In one of its stages. -/
  | midway (stage : Stage) (loop : EntryPoint) (k : Wake → Act (Except Interrupt Unit × Memory))

/-- How a session has ended. -/
inductive Ending where
  | finished
  | cancelled
  /-- Reporting an error failed. -/
  | failed (m : Mishap)
deriving DecidableEq

/-- What a turn leads to. -/
inductive Turn where
  | rests (nap : Nap) (d : Drive)
  | ended (e : Ending)

instance : Inhabited Turn := ⟨.ended .finished⟩

namespace Bench

/-- Whether a session owns its scheduler. -/
def owns (b : Bench) (s : Nat) : Bool :=
  let c := b.schedulers.get (b.sessions.get s).scheduler
  c.session == some s && c.state == .running

/-- Writes a line for a session whose generation is current. -/
def inform (b : Bench) (s : Nat) (text : String) : Bench :=
  let session := b.sessions.get s
  if b.isCurrent session.clock session.generation then b.write session.console .info text else b

/-- Ends a session that owns its scheduler as stopped. -/
def stopOwned (b : Bench) (s : Nat) : Bench :=
  if b.owns s then (b.finish s .stopped none).write (b.sessions.get s).console .info stoppedLine
  else b

/-- Closes the record of a session whose driver returns. -/
def close (b : Bench) (s : Nat) : Bench :=
  let b := match (b.sessions.get s).endedAt with
    | some _ => b
    | none => b.modifySession s fun x => { x with endedAt := some b.now, state := .stopped }
  let x := b.sessions.get s
  let rate := Decimal.fixed (x.rate b.now) 1
  b.note ["scheduler", s!"generation={x.generation} ended {x.state.name}",
    s!"iterations={x.iterations}", s!"rate={rate}/s"]

/-- Ends a session whose generation is not current any more. -/
def unwound (b : Bench) (s : Nat) : Turn × Bench :=
  let generation := (b.sessions.get s).generation
  let b := b.note ["scheduler", s!"unwound generation={generation}"]
  (.ended .finished, (b.stopOwned s).close s)

/-- Ends a session because of an error. -/
def fail (b : Bench) (s : Nat) (st : Store) (f : Fault) : Turn × Bench :=
  let session := b.sessions.get s
  if b.owns s then
    match f.report st session.transformed [] with
    | .error m => (.ended (.failed m), b)
    | .ok text =>
      let b := (b.invalidate session.clock session.generation).finish s .errored (some text)
      (.ended .finished, (b.write session.console .error text).close s)
  else
    let words := match f with
      | .sketch e => e.complaint.text
      | .mishap m => m.text
    let dropping := s!"dropping error from stale generation={session.generation}: "
    let b := b.note ["scheduler", dropping ++ words]
    (.ended .finished, b.close s)

/-- Ends a session that is cancelled. -/
def interrupted (b : Bench) (s : Nat) : Turn × Bench :=
  let session := b.sessions.get s
  let b := if b.owns s then b.invalidate session.clock session.generation else b
  (.ended .cancelled, b.stopOwned s)

/-- Ends a session that evaluation left early. -/
def conclude (b : Bench) (s : Nat) (st : Store) : Interrupt → Turn × Bench
  | .unwind => b.unwound s
  | .cancelled => b.interrupted s
  | .sketch e => b.fail s st (.sketch e)
  | .mishap m => b.fail s st (.mishap m)
  | .breakLoop | .continueLoop | .returned _ | .spent => b.fail s st (.mishap .tooDeep)

/-- Whether the time of a session is up. -/
def timeIsUp (b : Bench) (s : Nat) : Bool :=
  let session := b.sessions.get s
  session.config.maxRuntime.lt (.float (session.elapsed b.now))

/-- The complaint about a session whose time is up. -/
def guardComplaint (session : Session) : Complaint :=
  .guardTripped (Datum.numberText session.config.maxRuntime)

/-- Evaluation of nothing but a rest that may be cancelled. -/
def wakeUp (m : Memory) : Wake → Act (Except Interrupt Unit × Memory)
  | .rested => .done (.ok (), m)
  | .cancelled => .done (.error .cancelled, m)

/-- Evaluation of a round. -/
def round (session : Session) (loop : EntryPoint) (m : Memory) :
    Act (Except Interrupt Unit × Memory) :=
  Eval.runFrom (do let _ ← Program.callEntry session.binding loop) m

/-- Evaluation of the pause between two rounds. -/
def pause (session : Session) (m : Memory) : Act (Except Interrupt Unit × Memory) :=
  Eval.runFrom (BoardFunctions.delay session.binding stepBound session.config.safetyDelay) m

/-- Runs a stage to the next rest, through at most `fuel` stages; then it rests for a moment. -/
def proceed (s : Nat) (loop : EntryPoint) :
    Nat → Stage → Act (Except Interrupt Unit × Memory) → Bench → Turn × Bench
  | 0, stage, act, b => (.rests .moment (.midway stage loop fun _ => act), b)
  | fuel + 1, stage, act, b =>
    let session := b.sessions.get s
    match b.advance session.wiring act with
    | (.resting nap k, b) => (.rests nap (.midway stage loop k), b)
    | (.done (.error i, m), b) => b.conclude s m.store i
    | (.done (.ok _, m), b) =>
      match stage with
      | .setup => proceed s loop fuel .loop (round session loop m) (b.inform s loopLine)
      | .gap => proceed s loop fuel .loop (round session loop m) b
      | .loop =>
        let b := b.modifySession s fun x => { x with iterations := x.iterations + 1 }
        if !b.isCurrent session.clock session.generation then b.unwound s
        else if b.timeIsUp s then
          b.fail s m.store (.sketch { complaint := guardComplaint session })
        else if (Number.int 0).lt session.config.safetyDelay then
          proceed s loop fuel .gap (pause session m) b
        else (.rests .moment (.midway .gap loop (wakeUp m)), b)

/-- Runs top-level code to the next rest, and goes on with `setup` when it is done. -/
def openProgram (s : Nat) (act : Act (Except Interrupt EntryPoints × Memory)) (b : Bench) :
    Turn × Bench :=
  let session := b.sessions.get s
  match b.advance session.wiring act with
  | (.resting nap k, b) => (.rests nap (.opening k), b)
  | (.done (.error i, m), b) => b.conclude s m.store i
  | (.done (.ok entry, m), b) =>
    let b := b.inform s setupLine
    let act := Eval.runFrom (do let _ ← Program.callEntry session.binding entry.setup) m
    proceed s entry.loop stepBound .setup act b

/-- The diagnostics of compiling. -/
def compileNotes : Except Fault Compiled → List (List String)
  | .ok p => [["compile_program", "statements", toString p.statements.length]]
  | .error (.sketch { complaint := .syntaxProblem text, .. }) => [["parse failed", text]]
  | .error _ => []

/-- Looks a program up in the cache, which compiles it if need be. -/
def lookUpProgram (b : Bench) (source : String) : Except Fault Compiled × Bench :=
  let count := b.cache.entries.length
  let hit := (b.cache.found? source).isSome
  let (r, cache) := b.cache.lookUp source fun _ => (compile source).map some
  let verdict := if hit then "cache hit" else "cache miss"
  let b := { b with cache }.note [verdict, s!"entries={count}"]
  match r with
  | .ok none => (.ok default, b)
  | .ok (some p) => (.ok p, if hit then b else (compileNotes (.ok p)).foldl note b)
  | .error f => (.error f, (compileNotes (.error f)).foldl note b)

/-- The first turn of a session. -/
def enter (b : Bench) (s : Nat) : Turn × Bench :=
  let session := b.sessions.get s
  let hostForm := Dialect.toHostForm session.source
  let b := b.note
    ["transpile", "in", toString session.source.length, "out", toString hostForm.length]
  let b := b.modifySession s fun x => { x with transformed := some hostForm }
  match b.lookUpProgram hostForm with
  | (.error f, b) => b.fail s {} f
  | (.ok program, b) =>
    let b := { b with strips := b.strips.modify session.strip Strip.reset }
    openProgram s ((Program.instantiate session.binding program).runFrom Program.freshMemory) b

end Bench

/-- One turn of a session. A session that is cancelled before its first turn is never entered. -/
def Drive.resume (s : Nat) (d : Drive) (wake : Wake) (b : Bench) : Turn × Bench :=
  match d, wake with
  | .fresh, .cancelled => (.ended .cancelled, b)
  | .fresh, .rested => b.enter s
  | .opening k, wake => Bench.openProgram s (k wake) b
  | .midway stage loop k, wake => Bench.proceed s loop stepBound stage (k wake) b

end LedSketch
