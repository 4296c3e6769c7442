import LedSketch.Proofs.Grammar.Passes
import LedSketch.Proofs.Grammar.Places
import LedSketch.Proofs.Text.Lines

/-!
# Lines and columns of a source

The line and the column of a place say where a character stands if the source is cut at its line
feeds.

* `Cursor.Stands`: a place of a source with a character that ends no line.
* `Cursor.Stands.line`: its line number and column lead to that character.
-/

namespace LedSketch.Grammar.Cursor

open Text

variable {source : List Char} {c : Cursor}

theorem advance_line {line : List Char} (h : '\n' ∉ line) (rest : List Char) (offset row col : Nat)
    {k : Nat} (hk : k ≤ line.length) : (mk (line ++ rest) offset row col).advance k =
      mk (line.drop k ++ rest) (offset + k) row (col + k) := by
  induction line generalizing offset col k with
  | nil =>
    obtain rfl := Nat.le_zero.mp hk
    exact advance_zero _
  | cons x line ih =>
    cases k with
    | zero => exact advance_zero _
    | succ k =>
      have hx : x ≠ '\n' := fun hx => h (hx ▸ List.mem_cons_self)
      rw [List.cons_append, advance, if_neg hx,
        ih (fun hline => h (List.mem_cons_of_mem x hline)) _ _ (Nat.le_of_succ_le_succ hk),
        List.drop_succ_cons, Nat.add_assoc, Nat.add_assoc, Nat.add_comm 1 k]

/-- Counting from the start of a line, a character has its line and its column. -/
theorem line_advance {cs : List Char} (offset row k : Nat) {x : Char} {xs : List Char}
    (h : cs.drop k = x :: xs) (hx : x ≠ '\n') : ∃ i j l, (cs.splitOn '\n')[i]? = some l ∧
      l[j]? = some x ∧ ((mk cs offset row 1).advance k).line = row + i ∧
      ((mk cs offset row 1).advance k).col = j + 1 := by
  have hk : cs[k]? = some x := by rw [← List.head?_drop, h, List.head?_cons]
  induction cs using lines_induction generalizing offset row k with
  | last cs hcs =>
    have hle : k ≤ cs.length := (List.getElem?_eq_some_iff.mp hk).1.le
    have hadvance := advance_line hcs [] offset row 1 hle
    rw [List.append_nil] at hadvance
    rw [hadvance, List.splitOn_eq_singleton hcs]
    exact ⟨0, k, cs, rfl, hk, rfl, Nat.add_comm 1 k⟩
  | feed line rest hline ih =>
    rw [splitOn_feed hline]
    rcases Nat.lt_or_ge k line.length with hlt | hge
    · rw [List.getElem?_append_left hlt] at hk
      rw [advance_line hline _ _ _ _ hlt.le]
      exact ⟨0, k, line, rfl, hk, rfl, Nat.add_comm 1 k⟩
    · obtain ⟨k, rfl⟩ := Nat.exists_eq_add_of_le hge
      rw [List.getElem?_append_right hge, Nat.add_sub_cancel_left] at hk
      cases k with
      | zero => exact absurd (Option.some.inj hk).symm hx
      | succ k =>
        rw [advance_add, advance_line hline _ _ _ _ le_rfl, List.drop_length, List.nil_append,
          advance, if_pos rfl]
        rw [List.drop_length_add_append] at h
        obtain ⟨i, j, l, hi, hj, hrow, hcol⟩ := ih _ (row + 1) k h hk
        exact ⟨i + 1, j, l, hi, hj, by rw [hrow]; omega, hcol⟩

/-- What is left begins with a character that ends no line. -/
def Visible (cs : List Char) : Prop := ∃ x xs, cs = x :: xs ∧ isLineEnd x = false

/-- A place of a source at a character that ends no line. -/
structure Stands (source : List Char) (c : Cursor) : Prop where
  on : c.On source
  visible : Visible c.rest

/-- **The line and the column of a place lead to its character.** -/
theorem Stands.line (h : c.Stands source) : ∃ i j l x,
    c.line = i + 1 ∧ c.col = j + 1 ∧ (source.splitOn '\n')[i]? = some l ∧ l[j]? = some x ∧
      isLineEnd x = false := by
  obtain ⟨⟨k, rfl⟩, x, xs, hrest, hx⟩ := h
  have hdrop : source.drop k = x :: xs := (rest_advance k (start source)).symm.trans hrest
  have hfeed : x ≠ '\n' := by
    rintro rfl
    cases hx
  obtain ⟨i, j, l, hi, hj, hline, hcol⟩ := line_advance 0 1 k hdrop hfeed
  exact ⟨i, j, l, x, hline.trans (Nat.add_comm 1 i), hcol, hi, hj, hx⟩

end LedSketch.Grammar.Cursor
