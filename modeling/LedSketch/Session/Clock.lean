/-!
# The clock of generations

A clock issues strictly increasing generations, of which at most one is current. A generation that
has been replaced or invalidated never becomes current again.

Its generations are the tokens of section 4.5 of the specification (`SPEC_FULL.md:208-209`), which
section 5 makes the only way to cancel a session (`SPEC_FULL.md:235-237`).

* `isCurrent_issue` — what is issued is current;
* `not_isCurrent_invalidate` — what is invalidated is not.
-/

namespace LedSketch

/-- Which generations have been issued, and which one is current. -/
structure Clock where
  lastIssued : Nat := 0
  current : Option Nat := none
deriving DecidableEq, Repr

namespace Clock

instance : Inhabited Clock := ⟨{}⟩

/-- Issues the next generation, which becomes current. -/
def issue (c : Clock) : Nat × Clock :=
  (c.lastIssued + 1, ⟨c.lastIssued + 1, some (c.lastIssued + 1)⟩)

/-- Invalidates a generation if it is current. -/
def invalidate (c : Clock) (generation : Nat) : Clock :=
  if c.current = some generation then { c with current := none } else c

/-- Invalidates whatever is current. -/
def invalidateAny (c : Clock) : Clock := { c with current := none }

/-- Whether a generation is current. -/
def isCurrent (c : Clock) (generation : Nat) : Bool := c.current == some generation

theorem isCurrent_issue (c : Clock) : c.issue.2.isCurrent c.issue.1 = true := by
  simp [issue, isCurrent]

theorem not_isCurrent_invalidate (c : Clock) (generation : Nat) :
    (c.invalidate generation).isCurrent generation = false := by
  unfold invalidate isCurrent
  split <;> simp_all

end Clock
end LedSketch
