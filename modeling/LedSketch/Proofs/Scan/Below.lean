import Mathlib.Data.List.Forall2
import LedSketch.Proofs.Scan.Segments

/-!
# Nestings that suspend less

Two scanners may be in the same place of a text and still differ in which function bodies they hold
for suspendable. `Below` says that one of them holds no body for suspendable that the other does
not, and every step keeps it so.

* `Below.suspendable`: what it is for.
* `below_step`: steps keep it.
-/

namespace LedSketch.Scan

/-- `n` has the same braces and bodies open as `n'`, and suspends at most where `n'` does. -/
structure Below (n n' : Nesting) : Prop where
  depth : n.depth = n'.depth
  bodies : List.Forall₂ (fun b b' : Body => b.entryDepth = b'.entryDepth ∧
    (b.suspendable = true → b'.suspendable = true)) n.bodies n'.bodies
  declared : n.pending.isSome = n'.pending.isSome
  pending : n.pending = some true → n'.pending = some true

namespace Below

variable {n n' : Nesting}

theorem suspendable (h : Below n n') (hn : n.suspendable = true) : n'.suspendable = true := by
  unfold Nesting.suspendable at hn ⊢
  have hb := h.bodies
  generalize n.bodies = bs at hb hn
  generalize n'.bodies = bs' at hb ⊢
  cases hb with
  | nil => cases hn
  | cons hb _ => exact hb.2 hn

theorem declare (h : Below n n') {s s' : Bool} (hs : s = true → s' = true) :
    Below (n.declare s) (n'.declare s') where
  depth := h.depth
  bodies := h.bodies
  declared := rfl
  pending hp := congrArg some (hs (Option.some.inj hp))

theorem cancelPending (h : Below n n') : Below n.cancelPending n'.cancelPending :=
  ⟨h.depth, h.bodies, rfl, nofun⟩

theorem openInterpolation (h : Below n n') : Below n.openInterpolation n'.openInterpolation :=
  ⟨by simp [h.depth], h.bodies, h.declared, h.pending⟩

theorem openBrace (h : Below n n') : Below n.openBrace n'.openBrace := by
  have hd := h.declared
  have hp := h.pending
  unfold Nesting.openBrace
  cases hn : n.pending with
  | none =>
    cases hn' : n'.pending with
    | none => exact ⟨by simp [h.depth], h.bodies, rfl, nofun⟩
    | some s' => rw [hn, hn'] at hd; cases hd
  | some s =>
    cases hn' : n'.pending with
    | none => rw [hn, hn'] at hd; cases hd
    | some s' =>
      refine ⟨by simp [h.depth], .cons ⟨by simp [h.depth], ?_⟩ h.bodies, rfl, nofun⟩
      rintro rfl
      rw [hn, hn'] at hp
      exact Option.some.inj (hp rfl)

theorem closeBrace (h : Below n n') : Below n.closeBrace n'.closeBrace := by
  refine ⟨by simp [h.depth], ?_, h.declared, h.pending⟩
  have hb := h.bodies
  unfold Nesting.closeBrace
  rw [← h.depth]
  dsimp only
  generalize n.bodies = bs at hb
  generalize n'.bodies = bs' at hb
  induction hb with
  | nil => exact .nil
  | @cons b b' bs bs' hbb hbs ih =>
    rw [List.dropWhile_cons, List.dropWhile_cons, ← hbb.1]
    split
    · exact ih
    · exact .cons hbb hbs

end Below

namespace Scanner

theorem nesting_stepQuoted (s : Scanner) (k : Kind) (closer : Char) (plain : Char → Bool) (c : Char)
    (cs : List Char) : (s.stepQuoted k closer plain c cs).scanner.nesting = s.nesting := by
  unfold stepQuoted takeRun takeOne
  split_ifs <;> rfl

theorem below_stepCode {s t : Scanner} (h : Alike s t) (hb : Below s.nesting t.nesting) (c : Char)
    (cs : List Char) :
    Below (s.stepCode c cs).scanner.nesting (t.stepCode c cs).scanner.nesting := by
  unfold stepCode takeOne takeRun
  split
  · exact hb
  · exact hb
  · exact hb.openBrace
  · simp only [← h.interpolations, ← h.depth]
    split
    · split <;> exact hb.closeBrace
    · exact hb.closeBrace
  · exact hb
  · split
    · exact hb
    · split
      · exact hb
      · split <;> exact hb

/-- **A step of scanners that are alike** keeps what is below. -/
theorem below_step {s t : Scanner} (h : Alike s t) (hb : Below s.nesting t.nesting) (c : Char)
    (cs : List Char) : Below (s.step c cs).scanner.nesting (t.step c cs).scanner.nesting := by
  unfold step
  rw [← h.mode]
  split
  · exact below_stepCode h hb c cs
  · unfold takeOne takeRun
    split <;> exact hb
  · split <;> exact hb
  · rw [nesting_stepQuoted, nesting_stepQuoted]
    exact hb
  · split
    · exact hb.openInterpolation
    · rw [nesting_stepQuoted, nesting_stepQuoted]
      exact hb

end Scanner
end LedSketch.Scan
