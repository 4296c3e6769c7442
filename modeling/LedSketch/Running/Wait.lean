/-!
# Waiting

A wait is a machine that is entered once and then woken again and again. At each of these moments it
first looks whether it is still wanted; then it sleeps on, at most one tick and never longer than
what remains, or is over. A wait without a positive duration is over at once, or after one moment's
rest.

The machine is generic in what time is, so its laws can be stated over exact numbers.

This is the suspension of section 4.5 of the specification (`SPEC_FULL.md:221-223`), and its policy
for waits without a duration is that of section 12 (`SPEC_FULL.md:319-320`).

* `Wait.step_of_dead` — a wait that is not wanted any more starts no sleep.
-/

namespace LedSketch.Wait

/-- Where a wait stands. -/
inductive State (τ : Type) where
  /-- At the start, with its positive duration if it has one. -/
  | entering (duration : Option τ)
  /-- Behind a moment's rest. -/
  | rested
  | until (deadline : τ)

/-- What a wait does at a moment. -/
inductive Step (τ : Type) where
  /-- It is not wanted any more. -/
  | unwound
  | over
  /-- It rests for a moment. -/
  | yield (next : State τ)
  | sleep (duration : τ) (next : State τ)

variable {τ : Type} [Add τ] [Sub τ] [LE τ] [DecidableLE τ] [Min τ] [OfNat τ 0]

/-- How long to sleep before a deadline, if anything remains. -/
def next? (tick deadline now : τ) : Option τ :=
  if deadline - now ≤ 0 then none else some (min tick (deadline - now))

/-- What a wait for a deadline does. -/
def await (tick deadline now : τ) : Step τ :=
  match next? tick deadline now with
  | none => .over
  | some d => .sleep d (.until deadline)

/-- What a wait does at a moment: `live` says whether it is still wanted, and `yields` whether a
wait without a duration rests for a moment. -/
def step (tick : τ) (yields : Bool) (s : State τ) (live : Bool) (now : τ) : Step τ :=
  if live then
    match s with
    | .entering none => if yields then .yield .rested else .over
    | .entering (some d) => await tick (now + d) now
    | .rested => .over
    | .until deadline => await tick deadline now
  else .unwound

theorem step_of_dead (tick : τ) (yields : Bool) (s : State τ) (now : τ) :
    step tick yields s false now = .unwound := rfl

end LedSketch.Wait
