import LedSketch.Program.Compiled
import LedSketch.Board.Console
import LedSketch.Running.Act
import LedSketch.Session.Cache
import LedSketch.Session.Clock
import LedSketch.Session.Settings
import LedSketch.Session.Shelf

/-!
# The bench

Everything that running sketches share: the time, the generators of random numbers, clocks, strips,
consoles, schedulers, the sessions they have started, the cache of programs, and the terminal.

A console may be listened to: by the terminal, which repeats its lines, or by a scheduler that is
stopped as soon as a certain line is written, from inside the write.

A `Session` is a run session of section 3 of the specification (`SPEC_FULL.md:106-110`), a
`RunState` a state of section 4.5 (`SPEC_FULL.md:204-205`), and `stop` is the `stop` of that section
(`SPEC_FULL.md:218-219`).

* `perform` — the reply of the bench to a request of a sketch;
* `perform_of_dead` — a sketch that is not live any more changes neither strips nor consoles.
-/

namespace LedSketch

/-- The state of a scheduler, and of a session. -/
inductive RunState where
  | idle
  | running
  | stopped
  | errored
deriving DecidableEq, Repr

/-- The name of a state. -/
def RunState.name : RunState → String
  | idle => "idle"
  | running => "running"
  | stopped => "stopped"
  | errored => "errored"

/-- One run of a sketch. -/
structure Session where
  scheduler : Nat := 0
  clock : Nat := 0
  generation : Nat := 0
  source : String := ""
  strip : Nat := 0
  console : Nat := 0
  config : Config := {}
  startedAt : Float := 0.0
  transformed : Option String := none
  iterations : Nat := 0
  state : RunState := .running
  error : Option String := none
  endedAt : Option Float := none

instance : Inhabited Session := ⟨{}⟩

/-- Who runs sketches, one session at a time. -/
structure Scheduler where
  clock : Nat := 0
  state : RunState := .idle
  session : Option Nat := none
  console : Nat := 0
deriving DecidableEq

instance : Inhabited Scheduler := ⟨{}⟩

/-- Who listens to a console. -/
inductive Listener where
  | nobody
  | terminal
  /-- A scheduler that is stopped by a certain line. -/
  | stopOn (line : String) (scheduler : Nat)
deriving DecidableEq

instance : Inhabited Listener := ⟨.nobody⟩

/-- What has been written to the two streams of a terminal. -/
structure Terminal where
  out : String := ""
  err : String := ""
  /-- Whether somebody watches: the strip is then drawn in place. -/
  interactive : Bool := false
  /-- Whether diagnostics are written. -/
  debug : Bool := false

namespace Terminal

/-- Clears the line of the strip before something is written over it. -/
def clearLine : String := "\r\x1b[K"

/-- Repeats a line of the console; errors go to the second stream. -/
def repeatLine (t : Terminal) (l : ConsoleLine) : Terminal :=
  let shown := (if t.interactive then clearLine else "") ++ l.marked ++ "\n"
  if l.severity = .error then { t with err := t.err ++ shown } else { t with out := t.out ++ shown }

/-- Writes a diagnostic line. -/
def note (t : Terminal) (parts : List String) : Terminal :=
  if t.debug then { t with err := t.err ++ " ".intercalate ("[DBG]" :: parts) ++ "\n" } else t

/-- Writes to the first stream. -/
def print (t : Terminal) (s : String) : Terminal := { t with out := t.out ++ s }

/-- Writes to the second stream. -/
def complain (t : Terminal) (s : String) : Terminal := { t with err := t.err ++ s }

end Terminal

/-- Numbers that are drawn in turn, starting over at the end. -/
structure Draws where
  all : List Float := [0.5]
  rest : List Float := []

/-- Draws the next number. -/
def Draws.next (d : Draws) : Float × Draws :=
  match d.rest with
  | x :: rest => (x, { d with rest })
  | [] => match d.all with
    | x :: rest => (x, { d with rest })
    | [] => (0.5, d)

/-- What running sketches share. -/
structure Bench where
  now : Float := 0.0
  draws : Draws := {}
  chances : Draws := {}
  clocks : Shelf Clock := {}
  strips : Shelf Strip := {}
  consoles : Shelf Console := {}
  listeners : Shelf Listener := {}
  schedulers : Shelf Scheduler := {}
  sessions : Shelf Session := {}
  cache : Cache Compiled := {}
  terminal : Terminal := {}

instance : Inhabited Bench := ⟨{}⟩

/-- What a sketch is connected to: a strip, a console, and the clock and generation that keep it
live. Without those it is always live. -/
structure Wiring where
  strip : Nat := 0
  console : Nat := 0
  lease : Option (Nat × Nat) := none

/-- The line that says that a program has been stopped. -/
def stoppedLine : String := "Program stopped."

namespace Bench

/-! ## Small changes -/

/-- Writes a diagnostic line. -/
def note (b : Bench) (parts : List String) : Bench := { b with terminal := b.terminal.note parts }

/-- Changes a session. -/
def modifySession (b : Bench) (s : Nat) (f : Session → Session) : Bench :=
  { b with sessions := b.sessions.modify s f }

/-- Changes a scheduler. -/
def modifyScheduler (b : Bench) (i : Nat) (f : Scheduler → Scheduler) : Bench :=
  { b with schedulers := b.schedulers.modify i f }

/-- Invalidates a generation of a clock. -/
def invalidate (b : Bench) (clock generation : Nat) : Bench :=
  { b with clocks := b.clocks.modify clock (·.invalidate generation) }

/-- Whether a generation of a clock is current. -/
def isCurrent (b : Bench) (clock generation : Nat) : Bool :=
  (b.clocks.get clock).isCurrent generation

/-- Ends a session, and with it the work of its scheduler. -/
def finish (b : Bench) (session : Nat) (state : RunState) (error : Option String) : Bench :=
  let b := b.modifySession session fun s => { s with state, error, endedAt := some b.now }
  b.modifyScheduler (b.sessions.get session).scheduler fun c => { c with state }

/-! ## Writing lines -/

mutual

/-- Writes a line to a console; `depth` bounds how many schedulers it may stop in turn. -/
def writeWithin (depth : Nat) (b : Bench) (console : Nat) (severity : Severity) (text : String) :
    Bench :=
  let b := { b with consoles := b.consoles.modify console (·.write severity text) }
  match b.listeners.get console with
  | .nobody => b
  | .terminal => { b with terminal := b.terminal.repeatLine ⟨severity, text⟩ }
  | .stopOn line scheduler =>
    match depth with
    | 0 => b
    | depth + 1 => if text = line then (stopWithin depth b scheduler).2 else b
termination_by 2 * depth

/-- Stops the session of a scheduler, if one is running. -/
def stopWithin (depth : Nat) (b : Bench) (scheduler : Nat) : Bool × Bench :=
  let c := b.schedulers.get scheduler
  match c.state, c.session with
  | .running, some session =>
    let s := b.sessions.get session
    let b := (b.invalidate c.clock s.generation).finish session .stopped none
    let b := writeWithin depth b c.console .info stoppedLine
    (true, b.note ["scheduler", s!"stop generation={s.generation}"])
  | _, _ => (false, b)
termination_by 2 * depth + 1

end

/-- How many schedulers a line may stop: each of them once. -/
def depth (b : Bench) : Nat := b.schedulers.size

/-- Writes a line to a console. -/
def write (b : Bench) (console : Nat) (severity : Severity) (text : String) : Bench :=
  b.writeWithin b.depth console severity text

/-- Stops the session of a scheduler; the answer says whether one was running. -/
def stop (b : Bench) (scheduler : Nat) : Bool × Bench := b.stopWithin b.depth scheduler

/-! ## Requests of sketches -/

/-- Whether a sketch is live. -/
def isLive (b : Bench) (w : Wiring) : Bool :=
  match w.lease with
  | none => true
  | some (clock, generation) => b.isCurrent clock generation

/-- The reply to a request, and what the request changes. -/
def perform (w : Wiring) (b : Bench) : (r : Request) → r.Reply × Bench
  | .isLive => (b.isLive w, b)
  | .now => (b.now, b)
  | .draw => let (x, draws) := b.draws.next; (x, { b with draws })
  | .chance => let (x, chances) := b.chances.next; (x, { b with chances })
  | .read pin => ((b.strips.get w.strip).read pin, b)
  | .command c =>
    if b.isLive w then
      match (b.strips.get w.strip).obey c with
      | .ok strip => (.ok (), { b with strips := b.strips.put w.strip strip })
      | .error r => (.error (.refused r), b)
    else (.error .dead, b)
  | .print text =>
    if b.isLive w then (.ok (), b.write w.console .info text) else (.error .dead, b)

theorem perform_of_dead {w : Wiring} {b : Bench} (h : b.isLive w = false) (r : Request) :
    (b.perform w r).2.strips = b.strips ∧ (b.perform w r).2.consoles = b.consoles := by
  cases r <;> simp [perform, h]

/-- What is left of a computation when it rests or is done. -/
inductive Paused (α : Type) where
  | done (a : α)
  | resting (nap : Nap) (k : Wake → Act α)

/-- Runs a computation until it rests or is done. -/
def advance {α : Type} (w : Wiring) : Act α → Bench → Paused α × Bench
  | .done a, b => (.done a, b)
  | .rest nap k, b => (.resting nap k, b)
  | .ask r k, b =>
    let (reply, b) := b.perform w r
    advance w (k reply) b

/-! ## Time -/

/-- How long a moment's rest takes, in seconds. -/
def moment : Float := 1.0 / 1024.0

/-- Lets the time of a rest pass. -/
def pass (b : Bench) : Nap → Bench
  | .moment => { b with now := b.now + moment }
  | .seconds d => { b with now := b.now + d }

/-- Runs a computation to its end while nobody else is running. -/
def runAlone {α : Type} (w : Wiring) : Act α → Bench → α × Bench
  | .done a, b => (a, b)
  | .rest nap k, b => runAlone w (k .rested) (b.pass nap)
  | .ask r k, b =>
    let (reply, b) := b.perform w r
    runAlone w (k reply) b

end Bench
end LedSketch
