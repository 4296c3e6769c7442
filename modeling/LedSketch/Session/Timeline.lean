import LedSketch.Session.Control

/-!
# The timeline

Tasks take turns in the order in which they became ready, one pass after the other; timers that are
due are looked at in front of a pass. When nobody is ready, time jumps to the earliest timer. A
timer that is due and a task that ends tell those who wait for them one pass later.

The outside takes part like a task: it sleeps, or waits for a task to end, and goes on when it is
called.

This is the event loop of section 5 of the specification (`SPEC_FULL.md:234-238`).

* `untilCalled` — runs passes until the outside is called.
-/

namespace LedSketch

/-- What a task does. -/
inductive Job where
  | session (s : Nat) (d : Drive)
  /-- Draws a strip in place, again and again. -/
  | drawing (strip : Nat)

/-- What a task waits for. -/
inductive Waiting where
  | turn
  | timer (serial : Nat)
  | nothing (e : Ending)
deriving DecidableEq

/-- What is to be done in a pass. -/
inductive Handle where
  /-- A task takes its turn. -/
  | turn (task : Nat)
  /-- The timer of a task is due. -/
  | ring (task serial : Nat)
  /-- The outside is to be called in the next pass. -/
  | relay (label : Nat)
  | call (label : Nat)
deriving DecidableEq

/-- A task, and who is told when it ends. -/
structure Task where
  job : Job
  waiting : Waiting := .turn
  cancelled : Bool := false
  watchers : List Handle := []

instance : Inhabited Task := ⟨{ job := .drawing 0, waiting := .nothing .finished }⟩

/-- A handle for a time. -/
structure Timer where
  due : Float
  handle : Handle

/-- The bench, the tasks, and what is to be done when. -/
structure Timeline where
  bench : Bench := {}
  tasks : Shelf Task := {}
  /-- The rest of this pass. -/
  pass : List Handle := []
  /-- The next pass. -/
  ready : List Handle := []
  /-- The earliest first. -/
  timers : List Timer := []
  serial : Nat := 0

instance : Inhabited Timeline := ⟨{}⟩

namespace Timeline

/-- How far in the future a timer may lie to be due, in seconds. -/
def resolution : Float := 1e-9

/-- How often a strip is drawn in place, in seconds. -/
def drawInterval : Float := 0.1

/-- Puts a handle at the end of the next pass. -/
def enqueue (t : Timeline) (h : Handle) : Timeline := { t with ready := t.ready ++ [h] }

/-- A timer among others, behind those that are due at the same time. -/
def inserted (timer : Timer) : List Timer → List Timer
  | [] => [timer]
  | u :: us => if timer.due < u.due then timer :: u :: us else u :: inserted timer us

/-- A serial number that nothing carries yet. -/
def freshSerial (t : Timeline) : Nat × Timeline := (t.serial, { t with serial := t.serial + 1 })

/-- Sets a timer. -/
def setTimer (t : Timeline) (after : Float) (h : Handle) : Timeline :=
  { t with timers := inserted ⟨t.bench.now + after, h⟩ t.timers }

/-- Adds a task, whose first turn is in the next pass. -/
def spawn (t : Timeline) (job : Job) : Nat × Timeline :=
  let (i, tasks) := t.tasks.add { job }
  (i, { t with tasks }.enqueue (.turn i))

/-- How a task has ended, if it has. -/
def ending? (t : Timeline) (task : Nat) : Option Ending :=
  match (t.tasks.get task).waiting with
  | .nothing e => some e
  | _ => none

/-! ## Turns -/

/-- One turn of a job. -/
def Job.resume (job : Job) (wake : Wake) (b : Bench) : (Ending ⊕ Nap × Job) × Bench :=
  match job with
  | .session s d => match d.resume s wake b with
    | (.rests nap d, b) => (.inr (nap, .session s d), b)
    | (.ended e, b) => (.inl e, b)
  | .drawing strip => match wake with
    | .cancelled => (.inl .cancelled, b)
    | .rested =>
      let b := { b with terminal := b.terminal.print ("\r" ++ (b.strips.get strip).summary) }
      (.inr (.seconds drawInterval, .drawing strip), b)

/-- Lets a task take its turn. -/
def takeTurn (t : Timeline) (i : Nat) : Timeline :=
  let task := t.tasks.get i
  if task.waiting ≠ .turn then t
  else
    let wake := if task.cancelled then .cancelled else .rested
    let (result, bench) := Job.resume task.job wake t.bench
    let t := { t with bench }
    match result with
    | .inl e =>
      let tasks := t.tasks.put i { task with waiting := .nothing e, watchers := [] }
      { t with tasks, ready := t.ready ++ task.watchers }
    | .inr (.moment, job) =>
      let tasks := t.tasks.put i { task with job, waiting := .turn, cancelled := false }
      { t with tasks, bench := t.bench.pass .moment }.enqueue (.turn i)
    | .inr (.seconds d, job) =>
      let (serial, t) := t.freshSerial
      let tasks := t.tasks.put i { task with job, waiting := .timer serial, cancelled := false }
      { t with tasks }.setTimer d (.ring i serial)

/-- Cancels a task: it is told so at its next turn, which a sleeping task takes in the next pass. -/
def cancel (t : Timeline) (i : Nat) : Timeline :=
  let task := t.tasks.get i
  match task.waiting with
  | .nothing _ => t
  | .turn => { t with tasks := t.tasks.put i { task with cancelled := true } }
  | .timer serial =>
    let tasks := t.tasks.put i { task with waiting := .turn, cancelled := true }
    let timers := t.timers.filter fun timer => timer.handle ≠ .ring i serial
    { t with tasks, timers }.enqueue (.turn i)

/-- Wakes a task whose timer is due, if it still waits for it. -/
def ring (t : Timeline) (i serial : Nat) : Timeline :=
  let task := t.tasks.get i
  if task.waiting = .timer serial then
    { t with tasks := t.tasks.put i { task with waiting := .turn } }.enqueue (.turn i)
  else t

/-! ## Passes -/

/-- Starts the next pass; time jumps if nobody is ready. Nothing is left if there is no timer. -/
def nextPass? (t : Timeline) : Option Timeline :=
  let jumped? := if t.ready.isEmpty then
      match t.timers with
      | [] => none
      | timer :: _ =>
        let now := if t.bench.now < timer.due then timer.due else t.bench.now
        some { t with bench := { t.bench with now } }
    else some t
  jumped?.map fun t =>
    let isDue (timer : Timer) : Bool := timer.due < t.bench.now + resolution
    let due := (t.timers.takeWhile isDue).map (·.handle)
    { t with pass := t.ready ++ due, ready := [], timers := t.timers.dropWhile isDue }

/-- What a step leads to. -/
inductive Step where
  | went (t : Timeline)
  /-- The outside is called. -/
  | called (label : Nat) (t : Timeline)
  /-- Nothing is left to be done, now or later. -/
  | idle

/-- Does the next thing of this pass, or starts the next pass. -/
def step (t : Timeline) : Step :=
  match t.pass with
  | [] => match t.nextPass? with
    | some t => .went t
    | none => .idle
  | h :: rest =>
    let t := { t with pass := rest }
    match h with
    | .turn i => .went (t.takeTurn i)
    | .ring i serial => .went (t.ring i serial)
    | .relay label => .went (t.enqueue (.call label))
    | .call label => .called label t

/-- Runs passes until the outside is called by one of the labels, in at most `fuel` steps. -/
def untilCalled (labels : List Nat) : Nat → Timeline → Option Nat × Timeline
  | 0, t => (none, t)
  | fuel + 1, t =>
    match t.step with
    | .went t => untilCalled labels fuel t
    | .called label t =>
      if labels.contains label then (some label, t) else untilCalled labels fuel t
    | .idle => (none, t)

/-- Runs until the outside is called by a label. -/
def await (t : Timeline) (labels : List Nat) : Option Nat × Timeline :=
  t.untilCalled labels stepBound

/-! ## The outside -/

/-- Arranges a call after a number of seconds. -/
def callAfter (t : Timeline) (d : Float) : Nat × Timeline :=
  let (label, t) := t.freshSerial
  (label, if d ≤ 0.0 then { t with bench := t.bench.pass .moment }.enqueue (.call label)
    else t.setTimer d (.relay label))

/-- Tells a handle when a task ends. -/
def watch (t : Timeline) (task : Nat) (h : Handle) : Timeline :=
  { t with tasks := t.tasks.modify task fun x => { x with watchers := x.watchers ++ [h] } }

/-- The outside sleeps for a number of seconds. -/
def sleep (t : Timeline) (d : Float) : Timeline :=
  let (label, t) := t.callAfter d
  (t.await [label]).2

/-- The outside waits for a task to end. -/
def join (t : Timeline) (task : Nat) : Option Ending × Timeline :=
  match t.ending? task with
  | some e => (some e, t)
  | none =>
    let (label, t) := t.freshSerial
    let (_, t) := (t.watch task (.call label)).await [label]
    (t.ending? task, t)

/-- Starts a session and the task that drives it. -/
def start (t : Timeline) (scheduler : Nat) (source : String) (strip console : Nat)
    (settings : Settings) : Except SettingsProblem (Option Nat) × Timeline :=
  match t.bench.start scheduler source strip console settings with
  | (.error problem, bench) => (.error problem, { t with bench })
  | (.ok none, bench) => (.ok none, { t with bench })
  | (.ok (some s), bench) =>
    let (task, t) := { t with bench }.spawn (.session s .fresh)
    (.ok (some task), t)

end Timeline
end LedSketch
