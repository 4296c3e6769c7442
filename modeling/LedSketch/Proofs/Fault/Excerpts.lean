import LedSketch.Fault.Report
import LedSketch.Proofs.Number.Digits
import LedSketch.Proofs.Text.Lines
import Mathlib.Data.List.Basic
import Mathlib.Data.List.Nodup

/-!
# What an excerpt shows

An excerpt marks one of its rows. It shows the line that is asked for behind its number, and the row
below it has a caret under the column.

* `Report.Marks`: rows of which one is marked.
* `Report.marks_excerpt`: the rows of an excerpt.
* `Report.report_placed`: an error that has a place is reported with an excerpt.
-/

namespace LedSketch

namespace Decimal

theorem toList_intText_natCast (n : Nat) : (intText n).toList = digits n := by
  rw [toList_intText, if_neg (by omega), Int.natAbs_natCast]

theorem length_intText_le {m n : Nat} (h : m ≤ n) : (intText m).length ≤ (intText n).length := by
  have le_iff (m n : Nat) := Nat.length_toDigits_le_iff (b := 10) (n := m) (by decide)
    (Nat.length_toDigits_pos (b := 10) (n := n))
  rw [← String.length_toList, ← String.length_toList, toList_intText_natCast,
    toList_intText_natCast]
  exact (le_iff m n).mpr (Nat.lt_of_le_of_lt h ((le_iff n n).mp (Nat.le_refl _)))

theorem lineFeed_not_mem_intText (n : Nat) : '\n' ∉ (intText n).toList :=
  fun h => absurd (mem_intText h) (by decide)

end Decimal

namespace Report

open Text

/-- **Rows that mark one line**: no other row has a mark in front. Behind it stand a number and what
is shown of the line, and the row below has a caret under a column of that. -/
inductive Marks (number shown : List Char) (col : Nat) : List (List Char) → Prop
  | intro (before after : List (List Char)) (width : Nat) (hwidth : number.length ≤ width)
    (h : ∀ row ∈ before ++ after, row.head? = some ' ') : Marks number shown col
    (before ++
      ("> ".toList ++ List.replicate (width - number.length) ' ' ++ number ++ " | ".toList ++
        shown) ::
      ("  ".toList ++ List.replicate width ' ' ++ " | ".toList ++ List.replicate (col - 1) ' ' ++
        ['^']) ::
      after)

/-- The marked row ends in what is shown. -/
theorem Marks.exists_row {number shown : List Char} {col : Nat} {rows : List (List Char)}
    (h : Marks number shown col rows) : ∃ row ∈ rows, row.head? = some '>' ∧ shown <:+ row := by
  cases h with
  | intro before after width _ _ =>
    exact ⟨_, List.mem_append_right before List.mem_cons_self, rfl, List.suffix_append _ _⟩

/-- Rows of which one is marked are no empty text. -/
theorem Marks.ne_empty {number shown : List Char} {col : Nat} {text : String}
    (h : Marks number shown col (text.toList.splitOn '\n')) : text ≠ "" := by
  rintro rfl
  obtain ⟨row, hrow, hmark, -⟩ := h.exists_row
  obtain rfl := List.mem_singleton.mp hrow
  cases hmark

/-- One row of an excerpt. -/
def row (lines : List String) (width : Nat) (mark : String) (i : Nat) : String :=
  mark ++ " " ++ padLeft width (Decimal.intText i) ++ " | " ++ lines.getD (i - 1) ""

theorem toList_padLeft (width : Nat) (s : String) :
    (padLeft width s).toList = List.replicate (width - s.length) ' ' ++ s.toList := by
  rw [padLeft, String.toList_append, String.toList_ofList]

theorem lineFeed_not_mem_line (source : String) (i : Nat) :
    '\n' ∉ ((splitLines source).getD i "").toList := by
  rw [splitLines, List.getD_eq_getElem?_getD, List.getElem?_map]
  cases hi : (splitLinesFrom [] source.toList)[i]? with
  | none => exact List.not_mem_nil
  | some line =>
    intro h
    have hmem : '\n' ∈ line := by simpa using h
    have hend := isLineEnd_of_mem_splitLinesFrom (by simp) (List.mem_of_getElem? hi) _ hmem
    cases hend

theorem lineFeed_not_mem_row {mark : String} (hmark : '\n' ∉ mark.toList) (source : String)
    (width i : Nat) : '\n' ∉ (row (splitLines source) width mark i).toList := by
  have hnumber := Decimal.lineFeed_not_mem_intText i
  have hline := lineFeed_not_mem_line source (i - 1)
  simp only [row, String.toList_append, toList_padLeft, List.mem_append, List.mem_replicate, not_or]
  refine ⟨⟨⟨⟨hmark, by decide⟩, ?_, hnumber⟩, by decide⟩, hline⟩
  rintro ⟨-, ⟨⟩⟩

/-- The row below the line that is asked for. -/
def caretRow (width col : Nat) : String :=
  padLeft (width + 2) "" ++ " | " ++ padLeft (col - 1) "" ++ "^"

/-- **The rows of an excerpt** are lines by their numbers, and one row with a caret. -/
theorem excerpt_eq {source : String} {line : Nat} (hline : 0 < line)
    (hlength : line ≤ (splitLines source).length) (col radius : Nat) :
    ∃ (before after : List Nat) (stop : Nat), line ≤ stop ∧
      excerpt source line (some col) radius = "\n".intercalate
        (before.map (row (splitLines source) (Decimal.intText stop).length " ") ++
          row (splitLines source) (Decimal.intText stop).length ">" line ::
            caretRow (Decimal.intText stop).length col ::
            after.map (row (splitLines source) (Decimal.intText stop).length " ")) := by
  obtain ⟨start, hstart⟩ := Int.eq_ofNat_of_zero_le (a := max 1 ((line : Int) - radius)) (by omega)
  obtain ⟨stop, hstop⟩ := Int.eq_ofNat_of_zero_le
    (a := min ((splitLines source).length : Int) (line + radius)) (by omega)
  obtain ⟨before, after, hrange⟩ := List.append_of_mem
    (List.mem_range.mpr (show line - start < ((stop : Int) + 1 - start).toNat by omega))
  refine ⟨before.map (start + ·), after.map (start + ·), stop, by omega, ?_⟩
  have nodup := List.nodup_range (n := ((stop : Int) + 1 - start).toNat)
  rw [hrange] at nodup
  unfold excerpt
  dsimp only
  rw [if_neg (by omega), hstart, hstop, hrange, List.flatMap_append, List.flatMap_cons]
  have shown (mark : String) (k : Nat) : mark ++ " " ++ padLeft (Decimal.intText stop).length
      (Decimal.intText ((start : Int) + k)) ++ " | " ++
        (splitLines source).getD ((start : Int) + k - 1).toNat "" =
      row (splitLines source) (Decimal.intText stop).length mark (start + k) := by
    rw [row, show ((start : Int) + k - 1).toNat = start + k - 1 by omega, Int.natCast_add]
  have others {ks : List Nat} (hks : line - start ∉ ks) {f : Nat → List String}
      (hf : ∀ k : Nat, (start : Int) + k ≠ line →
        f k = [row (splitLines source) (Decimal.intText stop).length " " (start + k)]) :
      ks.flatMap f = (ks.map (start + ·)).map
        (row (splitLines source) (Decimal.intText stop).length " ") := by
    rw [List.map_map, List.map_eq_flatMap]
    refine List.flatMap_congr fun k hk => hf k fun heq => hks ?_
    rwa [show line - start = k by omega]
  have hnodup := List.nodup_append.mp nodup
  rw [others (f := fun k => _) (fun h => hnodup.2.2 _ h _ List.mem_cons_self rfl) fun k hk => by
      rw [if_neg hk, if_neg hk, shown],
    others (f := fun k => _) (List.nodup_cons.mp hnodup.2.1).1 fun k hk => by
      rw [if_neg hk, if_neg hk, shown],
    if_pos (by omega), if_pos (by omega), shown, show start + (line - start) = line by omega,
    show ((col : Int) - 1).toNat = col - 1 by omega]
  rfl

theorem head?_row (lines : List String) (width i : Nat) :
    (row lines width " " i).toList.head? = some ' ' := by
  simp only [row, String.toList_append, List.append_assoc]
  rfl

/-- **An excerpt marks the line that is asked for**, with a caret under the column. -/
theorem marks_excerpt {source : String} {line : Nat} {shown : String} (hline : 0 < line)
    (hshown : (splitLines source)[line - 1]? = some shown) (col radius : Nat) :
    Marks (Decimal.intText line).toList shown.toList col
      ((excerpt source line (some col) radius).toList.splitOn '\n') := by
  obtain ⟨hlt, -⟩ := List.getElem?_eq_some_iff.mp hshown
  have hlength : line ≤ (splitLines source).length := by omega
  obtain ⟨before, after, stop, hstop, heq⟩ := excerpt_eq hline hlength col radius
  have hwidth := Decimal.length_intText_le hstop
  generalize (Decimal.intText stop).length = width at heq hwidth
  have marked : (row (splitLines source) width ">" line).toList =
      "> ".toList ++ List.replicate (width - (Decimal.intText line).toList.length) ' ' ++
        (Decimal.intText line).toList ++ " | ".toList ++ shown.toList := by
    rw [row, List.getD_eq_getElem?_getD, hshown]
    simp [toList_padLeft, String.length_toList]
  have caret : (caretRow width col).toList = "  ".toList ++ List.replicate width ' ' ++
      " | ".toList ++ List.replicate (col - 1) ' ' ++ ['^'] := by
    simp [caretRow, toList_padLeft, List.replicate_succ]
  have others (is : List Nat) :
      ∀ r ∈ (is.map (row (splitLines source) width " ")).map String.toList, r.head? = some ' ' ∧ '\n' ∉ r := by
    simp only [List.map_map, List.forall_mem_map]
    exact fun i _ => ⟨head?_row _ width i, lineFeed_not_mem_row (by decide) source width i⟩
  rw [heq, String.toList_intercalate, List.map_append, List.map_cons, List.map_cons]
  rw [show "\n".toList = ['\n'] from rfl, List.splitOn_intercalate, marked, caret]
  · refine .intro _ _ width (by rwa [String.length_toList]) fun r hr => ?_
    rcases List.mem_append.mp hr with hr | hr
    · exact (others before r hr).1
    · exact (others after r hr).1
  · intro r hr
    rcases List.mem_append.mp hr with hr | hr
    · exact (others before r hr).2
    · rcases List.mem_cons.mp hr with hr | hr
      · rw [hr]
        have hmark : '\n' ∉ ">".toList := by decide
        exact lineFeed_not_mem_row hmark source width line
      · rcases List.mem_cons.mp hr with hr | hr
        · rw [hr, caret]
          simp
        · exact (others after r hr).2
  · simp

/-! ## Reports with an excerpt -/

/-- The first line of the report of an error at a place. -/
def heading (f : Fault) (line col : Nat) : String :=
  "Error on line " ++ Decimal.intText line ++ (", col " ++ Decimal.intText col) ++ ": " ++
    f.headline

/-- An error without active calls is reported with its excerpt. -/
theorem report_placed {source : String} {e : SketchError} {line col : Nat}
    (hstack : e.stack = none) (hplace : e.place = some ⟨some line, some col⟩)
    (hne : excerpt source line (some col) radius ≠ "") (st : Store) (calls : List Frame) :
    (Fault.sketch e).report st (some source) calls =
      .ok (heading (.sketch e) line col ++ "\n" ++ excerpt source line (some col) radius) := by
  have hcontext : (excerpt source line (some col) radius).isEmpty = false := by
    simpa [String.isEmpty_iff] using hne
  rw [Fault.report, hstack, hplace]
  simp only [compose, placed, hcontext]
  rfl

end Report
end LedSketch
