import LedSketch.Program.Instance
import LedSketch.Session.Bench

/-!
# Rehearsals

A rehearsal runs a program by hand and alone: its top-level code, `setup`, and `loop` some times,
going on behind errors of entry points. It keeps what the memory and the bench look like behind
every step.

* `steps_ne_nil` — a rehearsal has at least the step of the top-level code.
-/

namespace LedSketch.Rehearsal

/-- One step of a rehearsal. -/
structure Step where
  name : String
  result : Except Interrupt Value
  memory : Memory
  /-- The number of console lines in front of the step. -/
  linesBefore : Nat
  bench : Bench

/-- The lines that a step wrote. -/
def Step.freshLines (s : Step) : List ConsoleLine :=
  ((s.bench.consoles.get 0).lines.toList).drop s.linesBefore

/-- The number of lines on the console. -/
def lineCount (b : Bench) : Nat := (b.consoles.get 0).lines.size

/-- Calls entry points in turn. -/
def callAll (binding : Binding) : List (String × EntryPoint) → Memory → Bench → List Step
  | [], _, _ => []
  | (name, e) :: rest, m, b =>
    let (r, b') := b.runAlone {} ((Program.callEntry binding e).runFrom m)
    ⟨name, r.1, r.2, lineCount b, b'⟩ :: callAll binding rest r.2 b'

/-- The steps of a rehearsal; an error of the top-level code ends it. -/
def steps (p : Compiled) (binding : Binding) (loops : Nat) (b : Bench) : List Step :=
  let (r, b') := b.runAlone {} ((Program.instantiate binding p).runFrom Program.freshMemory)
  match r.1 with
  | .error i => [⟨"top", .error i, r.2, lineCount b, b'⟩]
  | .ok entry =>
    ⟨"top", .ok .null, r.2, lineCount b, b'⟩ ::
      callAll binding (("setup", entry.setup) :: List.replicate loops ("loop", entry.loop)) r.2 b'

theorem steps_ne_nil (p : Compiled) (binding : Binding) (loops : Nat) (b : Bench) :
    steps p binding loops b ≠ [] := by
  simp only [steps]
  split <;> simp

end LedSketch.Rehearsal
