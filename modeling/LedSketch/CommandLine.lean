import LedSketch.Dialect.EntryPoints
import LedSketch.Session.SettingsFile
import LedSketch.Session.Timeline
import LedSketch.Text.Lines

/-!
# The command line

Three commands: `run` drives a sketch until it stops or fails and then sums up the strip,
`transpile` prints the host form of a sketch, and `check` verifies that the entry points are
declared.

What the commands read is given as a function from paths to octets, and what they write ends in a
terminal, so that a command is a function. A run is prepared first, then driven on a timeline, and
then summed up; the outside may cancel it in between.

These are the commands of section 2 of the specification (`SPEC_FULL.md:84-85`); the diagnostics are
those of section 8 (`SPEC_FULL.md:277-281`).

* `start` — all of a command up to the point where a run has to be driven;
* `Run.finish` — the end of a run;
* `command` — a whole command.
-/

namespace LedSketch.CommandLine

/-! ## Files -/

/-- Why a file cannot be read. -/
inductive FileProblem where
  | missing
  | notADirectory
  | isDirectory
  | noPermission
deriving DecidableEq, Repr

/-- The number of a problem. -/
def FileProblem.number : FileProblem → Nat
  | missing => 2
  | noPermission => 13
  | notADirectory => 20
  | isDirectory => 21

/-- The words for a problem. -/
def FileProblem.words : FileProblem → String
  | missing => "No such file or directory"
  | noPermission => "Permission denied"
  | notADirectory => "Not a directory"
  | isDirectory => "Is a directory"

/-- The report of a problem with a path. -/
def FileProblem.report (p : FileProblem) (path : String) : String :=
  s!"[Errno {p.number}] {p.words}: " ++ Text.quoted path

/-- What is found under paths. -/
abbrev Files := String → Except FileProblem (List UInt8)

/-- The names along a path, without those that lead nowhere. -/
def pathNames (path : String) : List String :=
  ((path.toList.splitOn '/').map String.ofList).filter fun name => name ≠ "" && name ≠ "."

/-- A path in its plain form. -/
def plainPath (path : String) : String :=
  let names := "/".intercalate (pathNames path)
  if path.startsWith "/" then "/" ++ names else if names = "" then "." else names

/-! ## Commands -/

/-- How a command fails without having an exit status. -/
inductive Crash where
  | undecodable (f : Utf8.Flaw)
  | file (p : FileProblem) (path : String)
  | mishap (m : Mishap)

/-- The words that report a crash. -/
def Crash.text : Crash → String
  | .undecodable f => f.text
  | .file p path => p.report path
  | .mishap m => m.text

/-- How a command ends. -/
inductive Departure where
  | returned (status : Nat)
  /-- It was given up on the way. -/
  | gaveUp (status : Nat)
  | crashed (c : Crash)

/-- What is to be done. -/
inductive Command where
  | run (sketch : String) (settings : Option String)
  | showHostForm (sketch : String)
  | check (sketch : String)
deriving DecidableEq, Repr

/-- The command of some arguments; more arguments than needed do not matter. -/
def Command.ofArgs? : List String → Option Command
  | "run" :: sketch :: rest => some (.run sketch rest.head?)
  | "transpile" :: sketch :: _ => some (.showHostForm sketch)
  | "check" :: sketch :: _ => some (.check sketch)
  | _ => none

/-- The line that explains the commands. -/
def usage : String := "usage: lumalab (run SKETCH [CONFIG] | transpile SKETCH | check SKETCH)"

/-- The sketch in a file. -/
def readSketch (files : Files) (path : String) (t : Terminal) :
    Except (Departure × Terminal) String :=
  let plain := plainPath path
  match files plain with
  | .error .missing => .error (.gaveUp 1, t.complain s!"Error: file not found: {path}\n")
  | .error p => .error (.crashed (.file p plain), t)
  | .ok octets => match Utf8.decode octets with
    | .error flaw => .error (.crashed (.undecodable flaw), t)
    | .ok s => .ok (String.ofList (Text.unifyNewlines s.toList))

/-- The settings in a file; without a file the default ones. -/
def readSettings (files : Files) (path : Option String) (t : Terminal) :
    Except (Departure × Terminal) Config :=
  let bad (words : String) : Except (Departure × Terminal) Config :=
    .error (.returned 2, t.complain s!"Error: bad run configuration: {words}\n")
  match path with
  | none | some "" => .ok {}
  | some path => match files path with
    | .error p => bad (p.report path)
    | .ok octets => match SettingsFile.config path octets with
      | .ok config => .ok config
      | .error (.document (.mishap m)) =>
        if m.kind = .badValue then bad m.text else .error (.crashed (.mishap m), t)
      | .error f => bad (SettingsFile.faultText f)

/-- Settings as data. -/
def settingsOf (c : Config) : Settings where
  maxRuntime := .num c.maxRuntime
  safetyDelay := .num c.safetyDelay
  pinCount := .num (.int c.pinCount)
  yieldOnZeroDelay := .bool c.yieldsOnZeroDelay
  cacheSize := match c.cacheSize with
    | some n => .num (.int n)
    | none => .null

/-! ## Runs -/

/-- A run that is being driven: its task, and the label by which the outside is called. -/
structure Run where
  task : Nat
  label : Nat

/-- A bench with one strip, whose console is repeated by a terminal. -/
def benchWith (c : Config) (t : Terminal) : Bench where
  strips := ⟨[Strip.dark c.pinCount]⟩
  consoles := ⟨[{}]⟩
  listeners := ⟨[.terminal]⟩
  cache := { bound := c.cacheSize }
  terminal := t

/-- Changes the terminal of a timeline. -/
def onTerminal (t : Timeline) (f : Terminal → Terminal) : Timeline :=
  { t with bench := { t.bench with terminal := f t.bench.terminal } }

/-- Starts a run. On an interactive terminal the strip is drawn as well. -/
def startRun (source : String) (c : Config) (t : Timeline) : Option (Run × Timeline) :=
  match t.start 0 source 0 0 (settingsOf c) with
  | (.ok (some task), t) =>
    let t := if t.bench.terminal.interactive then (t.spawn (.drawing 0)).2 else t
    let (label, t) := t.freshSerial
    some ({ task, label }, t.watch task (.relay label))
  | _ => none

/-- The last line of a run. -/
def lastLine (b : Bench) : String :=
  let session := b.sessions.get ((b.schedulers.get 0).session.getD 0)
  let elapsed := Decimal.fixed (session.elapsed b.now) 0
  s!"\n{(b.strips.get 0).summary} iterations={session.iterations} elapsed={elapsed}ms\n"

/-- Sums up a run whose task has ended. -/
def Run.finish (r : Run) (t : Timeline) : Departure × Timeline :=
  match t.ending? r.task with
  | some (.failed m) => (.crashed (.mishap m), t)
  | _ =>
    let session := t.bench.sessions.get ((t.bench.schedulers.get 0).session.getD 0)
    let status := if session.state = .errored then 1 else 0
    (.returned status, onTerminal t (·.print (lastLine t.bench)))

/-! ## The stages of a command -/

/-- What is left of a command: nothing, or a run to be driven. -/
inductive Stage where
  | over (d : Departure) (t : Terminal)
  | driving (r : Run) (t : Timeline)

/-- Where a command stands whose result is known. -/
def settled (r : Except (Departure × Terminal) (Departure × Terminal)) : Stage :=
  match r with
  | .ok (d, t) | .error (d, t) => .over d t

/-- Starts a run on a timeline which `prepare` may set up before. -/
def startWith (prepare : Timeline → Timeline) (files : Files) (sketch : String)
    (settings : Option String) (t : Terminal) : Stage :=
  let ready : Except (Departure × Terminal) (String × Config) := do
    let source ← readSketch files sketch t
    return (source, ← readSettings files settings t)
  match ready with
  | .error (d, t) => .over d t
  | .ok (source, config) =>
    match startRun source config (prepare { bench := benchWith config t }) with
    | some (run, t) => .driving run t
    | none => .over (.returned 0) t

/-- Does a command up to the point where a run has to be driven. -/
def start (files : Files) (args : List String) (t : Terminal) : Stage :=
  match Command.ofArgs? args with
  | none => .over (.returned 2) (t.complain (usage ++ "\n"))
  | some (.run sketch settings) => startWith id files sketch settings t
  | some (.showHostForm sketch) => settled do
    let source ← readSketch files sketch t
    let hostForm := Dialect.toHostForm source
    let notes := ["transpile", "in", toString source.length, "out", toString hostForm.length]
    return (.returned 0, (t.note notes).print hostForm)
  | some (.check sketch) => settled do
    let source ← readSketch files sketch t
    match Dialect.checkEntryPoints source with
    | .ok _ => return (.returned 0, t.print "ok\n")
    | .error c => return (.returned 1, t.complain s!"{c.kind.label}: {c.text}\n")

/-- A whole command, in which time passes at once. -/
def command (files : Files) (args : List String) (t : Terminal) : Departure × Terminal :=
  match start files args t with
  | .over d t => (d, t)
  | .driving run t =>
    let (_, t) := t.await [run.label]
    let (d, t) := run.finish t
    (d, t.bench.terminal)

/-! ## Runs that are cancelled -/

/-- Stops a run from the outside, and waits until it has ended. -/
def Run.cancel (r : Run) (t : Timeline) : Departure × Timeline :=
  let (again, t) := t.freshSerial
  let (_, t) := (t.enqueue (.call again)).await [again]
  let (_, b) := t.bench.stop 0
  let (_, t) := Timeline.join { t with bench := b } r.task
  r.finish t

/-- A run that is cancelled from the outside after a number of seconds, unless it ends before. -/
def cancelledRun (files : Files) (sketch : String) (settings : Option String) (seconds : Float)
    (t : Terminal) : Departure × Terminal :=
  let later := 0.0 < seconds
  let label := 0
  let prepare (t : Timeline) : Timeline :=
    let (_, t) := t.freshSerial
    if later then t.setTimer seconds (.relay label) else { t with bench := t.bench.pass .moment }
  match startWith prepare files sketch settings t with
  | .over d t => (d, t)
  | .driving run t =>
    let t := if later then t else t.enqueue (.call label)
    let (called, t) := t.await [run.label, label]
    let (d, t) := if called = some label then run.cancel t else run.finish t
    (d, t.bench.terminal)

end LedSketch.CommandLine
