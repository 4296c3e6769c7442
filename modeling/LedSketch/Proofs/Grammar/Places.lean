import LedSketch.Dialect.Words
import LedSketch.Grammar.Peg
import LedSketch.Syntax.Node

/-!
# Places of a source

A line and a column tell one place of a source from every other.

* `eq_of_loc`: no two places of a source have the same line and column.
* `Paused`: right behind the name `delay` there are only blanks in front of a parenthesis.
-/

namespace LedSketch.Grammar

open Text

namespace Cursor

/-- The line and the column of a place. -/
def loc (c : Cursor) : Loc := ⟨c.line, c.col⟩

theorem advance_zero (c : Cursor) : c.advance 0 = c := by
  rw [advance]

theorem advance_of_nil {c : Cursor} (h : c.rest = []) (n : Nat) : c.advance n = c := by
  obtain ⟨rest, offset, line, col⟩ := c
  obtain rfl : rest = [] := h
  cases n <;> rfl

theorem advance_add (c : Cursor) (m n : Nat) : c.advance (m + n) = (c.advance m).advance n := by
  induction m generalizing c with
  | zero => rw [Nat.zero_add, advance_zero]
  | succ m ih =>
    obtain ⟨rest, offset, line, col⟩ := c
    cases rest with
    | nil => rw [advance_of_nil rfl, advance_of_nil rfl, advance_of_nil rfl]
    | cons x xs =>
      rw [Nat.succ_add, advance, advance]
      split <;> exact ih _

theorem rest_advance_append {c : Cursor} {xs ys : List Char} (h : c.rest = xs ++ ys) :
    (c.advance xs.length).rest = ys := by
  induction xs generalizing c with
  | nil => rw [List.length_nil, advance_zero]; exact h
  | cons x xs ih =>
    obtain ⟨rest, offset, line, col⟩ := c
    obtain rfl : rest = x :: (xs ++ ys) := h
    rw [List.length_cons, advance]
    split <;> exact ih rfl

/-- A place comes after another one on the same line or on a later one. -/
def After (d c : Cursor) : Prop := c.line < d.line ∨ c.line = d.line ∧ c.col < d.col

theorem after_advance_one {c : Cursor} (hc : c.rest ≠ []) : (c.advance 1).After c := by
  obtain ⟨rest, offset, line, col⟩ := c
  cases rest with
  | nil => exact absurd rfl hc
  | cons x xs =>
    rw [advance]
    split
    · exact Or.inl (Nat.lt_succ_self line)
    · exact Or.inr ⟨rfl, Nat.lt_succ_self col⟩

theorem after_advance {c : Cursor} (hc : c.rest ≠ []) (n : Nat) : (c.advance (n + 1)).After c := by
  induction n with
  | zero => exact after_advance_one hc
  | succ n ih =>
    rw [advance_add c (n + 1) 1]
    by_cases hd : (c.advance (n + 1)).rest = []
    · rwa [advance_of_nil hd]
    · have := after_advance_one hd
      unfold After at ih this ⊢
      omega

/-- **No two places of a source have the same line and column.** -/
theorem eq_of_loc {c : Cursor} {m n : Nat} (h : (c.advance m).loc = (c.advance n).loc) :
    c.advance m = c.advance n := by
  have key {m k : Nat} (h : (c.advance m).loc = (c.advance (m + k)).loc) :
      c.advance m = c.advance (m + k) := by
    rw [advance_add] at h ⊢
    cases k with
    | zero => rw [advance_zero]
    | succ k =>
      by_cases hd : (c.advance m).rest = []
      · rw [advance_of_nil hd]
      · have hafter := after_advance hd k
        simp only [loc, Loc.mk.injEq, Int.natCast_inj] at h
        unfold After at hafter
        omega
  rcases Nat.le_total m n with hmn | hnm
  · obtain ⟨k, rfl⟩ := Nat.exists_eq_add_of_le hmn
    exact key h
  · obtain ⟨k, rfl⟩ := Nat.exists_eq_add_of_le hnm
    exact (key h.symm).symm

/-- A place of a source. -/
def On (source : List Char) (c : Cursor) : Prop := ∃ n, c = (start source).advance n

theorem On.advance {source : List Char} {c : Cursor} (h : c.On source) (n : Nat) :
    (c.advance n).On source := by
  obtain ⟨m, rfl⟩ := h
  exact ⟨m + n, (advance_add _ m n).symm⟩

end Cursor

/-- **At a place behind the name `delay`**, only blanks come before an opening parenthesis. -/
def Paused (source : List Char) (l : Loc) : Prop :=
  ∃ before after, source = (before ++ "delay".toList) ++ after ∧
    ((Cursor.start source).advance (before ++ "delay".toList).length).loc = l ∧
      Dialect.peekChar? after = some '('

/-- What is left at such a place, and what comes before it. -/
theorem Paused.at {source : List Char} {c : Cursor} (hc : c.On source)
    (h : Paused source c.loc) :
    Dialect.peekChar? c.rest = some '(' ∧ ∃ before, source = (before ++ "delay".toList) ++ c.rest := by
  obtain ⟨before, after, hsource, hloc, hpeek⟩ := h
  obtain ⟨n, rfl⟩ := hc
  have heq := Cursor.eq_of_loc hloc
  have hrest : ((Cursor.start source).advance (before ++ "delay".toList).length).rest = after :=
    Cursor.rest_advance_append hsource
  rw [heq] at hrest
  rw [hrest]
  exact ⟨hpeek, before, hsource⟩

end LedSketch.Grammar
