import LedSketch.Session.Drive

/-!
# Controlling a scheduler

A scheduler runs one session at a time. It is started with a source and settings, stopped, and reset
from where it stopped.

`start` and `reset` are those of section 4.5 of the specification (`SPEC_FULL.md:207-210` and
`220`).

* `start_running` — a scheduler that is running is not started again.
-/

namespace LedSketch.Bench

/-- Starts a session, unless the scheduler is running one; the answer is the new session. -/
def start (b : Bench) (scheduler : Nat) (source : String) (strip console : Nat)
    (settings : Settings) : Except SettingsProblem (Option Nat) × Bench :=
  let c := b.schedulers.get scheduler
  if c.state = .running then (.ok none, b.note ["scheduler", "start ignored: already running"])
  else
    match settings.config with
    | .error problem => (.error problem, b)
    | .ok config =>
      let b := match config.cacheSize with
        | some n => { b with cache := b.cache.resize (some n) }
        | none => b
      let (generation, clock) := (b.clocks.get c.clock).issue
      let b := { b with clocks := b.clocks.put c.clock clock }
      let session : Session :=
        { scheduler, clock := c.clock, generation, source, strip, console, config,
          startedAt := b.now }
      let (s, sessions) := b.sessions.add session
      let b := { b with sessions }.modifyScheduler scheduler fun c =>
        { c with state := .running, session := some s, console }
      (.ok (some s), b.note ["scheduler", s!"start generation={generation}"])

theorem start_running {b : Bench} {scheduler : Nat}
    (h : (b.schedulers.get scheduler).state = .running) (source : String) (strip console : Nat)
    (settings : Settings) :
    (b.start scheduler source strip console settings).1 = .ok none := by
  simp [start, h]

/-- Returns a scheduler that has stopped to its idle state; the answer says whether it had. -/
def reset (b : Bench) (scheduler : Nat) : Bool × Bench :=
  match (b.schedulers.get scheduler).state with
  | .stopped | .errored => (true, b.modifyScheduler scheduler fun c => { c with state := .idle })
  | .idle | .running => (false, b)

end LedSketch.Bench
