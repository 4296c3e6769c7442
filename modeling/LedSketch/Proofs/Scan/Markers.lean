import LedSketch.Scan.Nesting

/-!
# The nesting as a stack of markers

The nesting counts the open braces and lists the bodies among them, and a closing brace drops every
body that was entered deeper than what remains. The plain account of the same is a stack with one
marker for each open brace: a closing brace takes the innermost marker away, if there is one.

* `Markers`: the plain account; `BraceEvent`: what happens to both.
* `Stands`: what a nesting is on a stack of markers.
* `stands_after`: an event keeps the two together.
* `stands_foldl`: so do all events from the start on.
-/

namespace LedSketch.Scan

/-- What is met while a sketch is read. -/
inductive BraceEvent where
  | declare (suspendable : Bool)
  | cancelPending
  | openBrace
  | openInterpolation
  | closeBrace
deriving DecidableEq, Repr

/-- What an open brace is: the start of a function body, which may suspend or not, or any other. -/
inductive Marker where
  | body (suspendable : Bool)
  | plain
deriving DecidableEq, Repr

/-- One marker for each open brace, the innermost first, and the declaration whose body is due. -/
structure Markers where
  stack : List Marker := []
  pending : Option Bool := none
deriving DecidableEq, Repr

/-- The nesting after an event. -/
def Nesting.after (n : Nesting) : BraceEvent → Nesting
  | .declare suspendable => n.declare suspendable
  | .cancelPending => n.cancelPending
  | .openBrace => n.openBrace
  | .openInterpolation => n.openInterpolation
  | .closeBrace => n.closeBrace

namespace Markers

/-- The markers after an event. An ordinary brace takes the pending declaration, an interpolation
leaves it, and a closing brace takes at most one marker away. -/
def after (m : Markers) : BraceEvent → Markers
  | .declare suspendable => { m with pending := some suspendable }
  | .cancelPending => { m with pending := none }
  | .openBrace => ⟨m.pending.elim .plain .body :: m.stack, none⟩
  | .openInterpolation => { m with stack := .plain :: m.stack }
  | .closeBrace => { m with stack := m.stack.tail }

/-- The bodies on a stack with their heights, the innermost first. -/
def bodies : List Marker → List Body
  | [] => []
  | .plain :: ms => bodies ms
  | .body suspendable :: ms => ⟨suspendable, ms.length + 1⟩ :: bodies ms

/-- Whether the innermost body on a stack may suspend. -/
def suspendable : List Marker → Bool
  | [] => false
  | .plain :: ms => suspendable ms
  | .body s :: _ => s

theorem entryDepth_bodies {ms : List Marker} {b : Body} (h : b ∈ bodies ms) :
    1 ≤ b.entryDepth ∧ b.entryDepth ≤ ms.length := by
  induction ms with
  | nil => cases h
  | cons m ms ih =>
    cases m with
    | plain =>
      obtain ⟨hpos, hle⟩ := ih h
      exact ⟨hpos, Nat.le_succ_of_le hle⟩
    | body s =>
      rcases List.mem_cons.mp h with rfl | h
      · exact ⟨Nat.succ_pos _, Nat.le_refl _⟩
      · obtain ⟨hpos, hle⟩ := ih h
        exact ⟨hpos, Nat.le_succ_of_le hle⟩

theorem pairwise_bodies (ms : List Marker) :
    (bodies ms).Pairwise fun b b' => b'.entryDepth < b.entryDepth := by
  induction ms with
  | nil => exact .nil
  | cons m ms ih =>
    cases m with
    | plain => exact ih
    | body s => exact .cons (fun b hb => Nat.lt_succ_of_le (entryDepth_bodies hb).2) ih

/-- No body is entered deeper than the height of its stack. -/
theorem dropWhile_bodies (ms : List Marker) :
    (bodies ms).dropWhile (fun b => ms.length < b.entryDepth) = bodies ms := by
  cases hb : bodies ms with
  | nil => rfl
  | cons b bs =>
    have hle := (entryDepth_bodies (hb ▸ List.mem_cons_self : b ∈ bodies ms)).2
    exact List.dropWhile_cons_of_neg (by simpa using hle)

/-- The bodies entered deeper than what remains under the innermost marker are that marker's. -/
theorem bodies_tail (ms : List Marker) :
    (bodies ms).dropWhile (fun b => ms.length - 1 < b.entryDepth) = bodies ms.tail := by
  cases ms with
  | nil => rfl
  | cons m ms =>
    cases m with
    | plain => exact dropWhile_bodies ms
    | body s =>
      rw [bodies, List.dropWhile_cons_of_pos (by simp)]
      exact dropWhile_bodies ms

theorem suspendable_of_bodies {n : Nesting} {ms : List Marker} (h : n.bodies = bodies ms) :
    n.suspendable = suspendable ms := by
  unfold Nesting.suspendable
  rw [h]
  induction ms generalizing n with
  | nil => rfl
  | cons m ms ih =>
    cases m with
    | plain => exact ih (n := { n with bodies := bodies ms }) rfl
    | body s => rfl

end Markers

open Markers

/-- **A nesting stands for a stack of markers**: its depth is the height of the stack, its bodies
are the markers of functions with their heights, which grow inwards between one and the depth, and
it is suspendable if the innermost of them is. -/
structure Stands (n : Nesting) (m : Markers) : Prop where
  pending : n.pending = m.pending
  depth : n.depth = m.stack.length
  bodies : n.bodies = bodies m.stack
  increasing : n.bodies.Pairwise fun b b' => b'.entryDepth < b.entryDepth
  bounded : ∀ b ∈ n.bodies, 1 ≤ b.entryDepth ∧ b.entryDepth ≤ n.depth
  suspendable : n.suspendable = suspendable m.stack

namespace Stands

variable {n : Nesting} {m : Markers}

/-- The order of the bodies, and whether the innermost is suspendable, follow from the stack. -/
theorem of_bodies (pending : n.pending = m.pending) (depth : n.depth = m.stack.length)
    (bodies : n.bodies = Markers.bodies m.stack) : Stands n m where
  pending := pending
  depth := depth
  bodies := bodies
  increasing := bodies ▸ pairwise_bodies m.stack
  bounded _ hb := depth ▸ entryDepth_bodies (bodies ▸ hb)
  suspendable := suspendable_of_bodies bodies

theorem openBrace (h : Stands n m) : Stands n.openBrace (m.after .openBrace) := by
  have hpending := h.pending
  unfold Nesting.openBrace Markers.after
  cases hm : m.pending with
  | none =>
    rw [hm] at hpending
    rw [hpending]
    exact of_bodies rfl (congrArg (· + 1) h.depth) h.bodies
  | some s =>
    rw [hm] at hpending
    rw [hpending]
    exact of_bodies rfl (congrArg (· + 1) h.depth) (by rw [h.depth, h.bodies]; rfl)

theorem closeBrace (h : Stands n m) : Stands n.closeBrace (m.after .closeBrace) := by
  refine of_bodies h.pending ?_ ?_
  · rw [Nesting.depth_closeBrace, h.depth]
    exact List.length_tail.symm
  · rw [Nesting.bodies_closeBrace, Nesting.depth_closeBrace, h.bodies, h.depth]
    exact bodies_tail m.stack

end Stands

/-- **An event keeps a nesting and its markers together.** -/
theorem stands_after {n : Nesting} {m : Markers} (h : Stands n m) (e : BraceEvent) :
    Stands (n.after e) (m.after e) := by
  cases e with
  | declare s => exact .of_bodies rfl h.depth h.bodies
  | cancelPending => exact .of_bodies rfl h.depth h.bodies
  | openBrace => exact h.openBrace
  | openInterpolation => exact .of_bodies h.pending (congrArg (· + 1) h.depth) h.bodies
  | closeBrace => exact h.closeBrace

/-- **A nesting stands for its markers** after any events from the start on, whether braces are
balanced or not. -/
theorem stands_foldl (events : List BraceEvent) :
    Stands (events.foldl Nesting.after {}) (events.foldl Markers.after {}) := by
  have run : ∀ {n : Nesting} {m : Markers}, Stands n m →
      Stands (events.foldl Nesting.after n) (events.foldl Markers.after m) := by
    induction events with
    | nil => exact fun h => h
    | cons e events ih => exact fun h => ih (stands_after h e)
  exact run (.of_bodies rfl rfl rfl)

end LedSketch.Scan
