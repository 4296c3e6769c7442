import LedSketch.Text.Lines
import Mathlib.Data.List.Basic

/-!
# Two ways to cut a text into lines

A parser counts line feeds, and an excerpt is cut at every line end that `splitLines` sees. The two
number the lines of a text alike as long as the lines between line feeds have no other line end in
them than a carriage return at their end.

* `lines_induction`: a text is one line, or a line with a line feed behind it and a text.
* `chomp`, `Plain`: a line without the carriage return at its end, and lines without line ends
  inside.
* `lt_length_splitLinesFrom`: a line with something on it has a number in an excerpt, too.
* `getElem?_splitLinesFrom`: behind plain lines, this is the number of the same line.
-/

namespace LedSketch.Text

variable {c : Char} {line acc cs : List Char} {i : Nat}

/-! ## Lines between line feeds -/

/-- **A text is one line, or a line with a line feed behind it and a text.** -/
theorem lines_induction {motive : List Char → Prop} (last : ∀ line, '\n' ∉ line → motive line)
    (feed : ∀ line rest, '\n' ∉ line → motive rest → motive (line ++ '\n' :: rest))
    (cs : List Char) : motive cs := by
  by_cases h : '\n' ∈ cs
  · obtain ⟨line, rest, rfl, hline⟩ := List.eq_append_cons_of_mem h
    exact feed line rest hline (lines_induction last feed rest)
  · exact last cs h
termination_by cs.length

theorem splitOn_feed (h : '\n' ∉ line) (rest : List Char) :
    (line ++ '\n' :: rest).splitOn '\n' = line :: rest.splitOn '\n' := by
  refine List.splitOnP_append_cons_of_forall_mem (fun x hx => beq_false_of_ne ?_) _ rfl rest
  rintro rfl
  exact h hx

/-! ## Lines of an excerpt -/

/-- A line end closes a line, alone or in front of a line feed. -/
theorem splitLinesFrom_end (hc : isLineEnd c = true) (hcs : c = '\r' → cs.head? ≠ some '\n') :
    splitLinesFrom acc (c :: cs) = acc.reverse :: splitLinesFrom [] cs := by
  rw [splitLinesFrom.eq_def]
  split
  · contradiction
  · contradiction
  · rename_i heq
    obtain ⟨rfl, rfl⟩ := List.cons.inj heq
    exact absurd rfl (hcs rfl)
  · rename_i heq
    obtain ⟨rfl, rfl⟩ := List.cons.inj heq
    rw [if_pos hc]

theorem splitLinesFrom_inside (hc : isLineEnd c = false) :
    splitLinesFrom acc (c :: cs) = splitLinesFrom (c :: acc) cs := by
  rw [splitLinesFrom.eq_def]
  split
  · contradiction
  · contradiction
  · rename_i heq
    obtain ⟨rfl, rfl⟩ := List.cons.inj heq
    cases hc
  · rename_i heq
    obtain ⟨rfl, rfl⟩ := List.cons.inj heq
    rw [if_neg (Bool.eq_false_iff.mp hc)]

theorem splitLinesFrom_lineFeed :
    splitLinesFrom acc ('\n' :: cs) = acc.reverse :: splitLinesFrom [] cs :=
  splitLinesFrom_end rfl nofun

theorem splitLinesFrom_pair :
    splitLinesFrom acc ('\r' :: '\n' :: cs) = acc.reverse :: splitLinesFrom [] cs := by
  rw [splitLinesFrom]

theorem splitLinesFrom_ne_nil (h : acc ≠ [] ∨ cs ≠ []) : splitLinesFrom acc cs ≠ [] := by
  induction cs generalizing acc with
  | nil =>
    cases acc with
    | nil => simp at h
    | cons x acc => simp [splitLinesFrom]
  | cons c cs ih =>
    by_cases hc : isLineEnd c = true
    · by_cases hcs : c = '\r' → cs.head? ≠ some '\n'
      · rw [splitLinesFrom_end hc hcs]
        exact List.cons_ne_nil _ _
      · push Not at hcs
        obtain ⟨rfl, hcs⟩ := hcs
        obtain ⟨cs, rfl⟩ := List.head?_eq_some_iff.mp hcs
        rw [splitLinesFrom_pair]
        exact List.cons_ne_nil _ _
    · rw [splitLinesFrom_inside (Bool.eq_false_iff.mpr hc)]
      exact ih (Or.inl (List.cons_ne_nil _ _))

/-- Up to a line feed there is a line at least. -/
theorem splitLinesFrom_feed (h : '\n' ∉ line) (acc rest : List Char) :
    ∃ ls ≠ [], splitLinesFrom acc (line ++ '\n' :: rest) = ls ++ splitLinesFrom [] rest := by
  induction line generalizing acc with
  | nil => exact ⟨[acc.reverse], by simp, splitLinesFrom_lineFeed⟩
  | cons c line ih =>
    have ih := ih fun hline => h (List.mem_cons_of_mem c hline)
    rw [List.cons_append]
    by_cases hc : isLineEnd c = true
    · cases line with
      | nil =>
        by_cases hcr : c = '\r'
        · subst hcr
          exact ⟨[acc.reverse], by simp, splitLinesFrom_pair⟩
        · rw [splitLinesFrom_end hc fun hr => absurd hr hcr]
          obtain ⟨ls, -, hls⟩ := ih []
          exact ⟨acc.reverse :: ls, by simp, by rw [hls]; rfl⟩
      | cons d line =>
        have hd : d ≠ '\n' := fun hd => h (by simp [hd])
        rw [splitLinesFrom_end hc fun _ => by simpa using hd]
        obtain ⟨ls, -, hls⟩ := ih []
        exact ⟨acc.reverse :: ls, by simp, by rw [hls]; rfl⟩
    · rw [splitLinesFrom_inside (Bool.eq_false_iff.mpr hc)]
      exact ih (c :: acc)

/-- **A line with something on it has a number in an excerpt**, too. -/
theorem lt_length_splitLinesFrom (h : (cs.splitOn '\n')[i]? = some line) (hline : line ≠ []) :
    i < (splitLinesFrom [] cs).length := by
  induction cs using lines_induction generalizing i with
  | last cs hcs =>
    rw [List.splitOn_eq_singleton hcs] at h
    cases i with
    | zero =>
      obtain rfl : cs = line := Option.some.inj h
      exact List.length_pos_iff.mpr (splitLinesFrom_ne_nil (Or.inr hline))
    | succ i => cases h
  | feed first rest hfirst ih =>
    rw [splitOn_feed hfirst] at h
    obtain ⟨ls, hls, heq⟩ := splitLinesFrom_feed hfirst [] rest
    rw [heq, List.length_append]
    have := List.length_pos_iff.mpr hls
    cases i with
    | zero => omega
    | succ i =>
      have := ih h
      omega

/-- No line of an excerpt has a line end in it. -/
theorem isLineEnd_of_mem_splitLinesFrom (hacc : ∀ c ∈ acc, isLineEnd c = false)
    (hline : line ∈ splitLinesFrom acc cs) : ∀ c ∈ line, isLineEnd c = false := by
  fun_induction splitLinesFrom acc cs with
  | case1 => cases hline
  | case2 acc _ =>
    obtain rfl := List.mem_singleton.mp hline
    simpa using hacc
  | case3 acc cs ih =>
    rcases List.mem_cons.mp hline with rfl | hline
    · simpa using hacc
    · exact ih (by simp) hline
  | case4 acc c cs _ hc ih =>
    rcases List.mem_cons.mp hline with rfl | hline
    · simpa using hacc
    · exact ih (by simp) hline
  | case5 acc c cs _ hc ih =>
    exact ih (List.forall_mem_cons.mpr ⟨Bool.eq_false_iff.mpr hc, hacc⟩) hline

/-! ## Plain lines -/

/-- A line without the carriage return at its end. -/
def chomp (line : List Char) : List Char :=
  if line.getLast? = some '\r' then line.dropLast else line

/-- A line without line ends inside. -/
def Plain (line : List Char) : Prop := ∀ c ∈ chomp line, isLineEnd c = false

-- found by search, it might run through all characters
instance : DecidablePred Plain := fun line =>
  List.decidableBAll (fun c => isLineEnd c = false) (chomp line)

theorem eq_chomp (line : List Char) : line = chomp line ∨ line = chomp line ++ ['\r'] := by
  rw [chomp]
  split_ifs with h
  · exact Or.inr (List.dropLast_append_getLast? _ h).symm
  · exact Or.inl rfl

/-- What ends no line is not cut off. -/
theorem getElem?_chomp {l : List Char} (h : l[i]? = some c) (hc : isLineEnd c = false) :
    (chomp l)[i]? = some c := by
  obtain heq | heq := eq_chomp l
  · rwa [← heq]
  · rw [heq] at h
    rcases Nat.lt_or_ge i (chomp l).length with hlt | hge
    · rwa [List.getElem?_append_left hlt] at h
    · rw [List.getElem?_append_right hge] at h
      obtain rfl := List.mem_singleton.mp (List.mem_of_getElem? h)
      cases hc

theorem splitLinesFrom_append (h : ∀ c ∈ line, isLineEnd c = false) (acc cs : List Char) :
    splitLinesFrom acc (line ++ cs) = splitLinesFrom (line.reverse ++ acc) cs := by
  induction line generalizing acc with
  | nil => rfl
  | cons c line ih =>
    obtain ⟨hc, hline⟩ := List.forall_mem_cons.mp h
    rw [List.cons_append, splitLinesFrom_inside hc, ih hline, List.reverse_cons, List.append_assoc]
    rfl

theorem splitLinesFrom_plain (h : Plain line) (rest : List Char) :
    splitLinesFrom [] (line ++ '\n' :: rest) = chomp line :: splitLinesFrom [] rest := by
  obtain heq | heq := eq_chomp line
  · conv_lhs => rw [heq]
    rw [splitLinesFrom_append h, splitLinesFrom_lineFeed, List.append_nil, List.reverse_reverse]
  · conv_lhs => rw [heq]
    rw [List.append_assoc, splitLinesFrom_append h, List.append_nil]
    exact splitLinesFrom_pair.trans (by rw [List.reverse_reverse])

theorem splitLinesFrom_nil (h : acc ≠ []) : splitLinesFrom acc [] = [acc.reverse] := by
  rw [splitLinesFrom]
  exact h

theorem splitLinesFrom_plain_last (h : Plain line) (hline : line ≠ []) :
    splitLinesFrom [] line = [chomp line] := by
  obtain heq | heq := eq_chomp line
  · have hne : (chomp line).reverse ≠ [] := by
      rw [← heq]
      exact List.reverse_ne_nil_iff.mpr hline
    conv_lhs => rw [heq, ← List.append_nil (chomp line)]
    rw [splitLinesFrom_append h, List.append_nil, splitLinesFrom_nil hne, List.reverse_reverse]
  · conv_lhs => rw [heq]
    rw [splitLinesFrom_append h, List.append_nil, splitLinesFrom_end rfl fun _ => by simp,
      List.reverse_reverse, splitLinesFrom]

/-- **Behind plain lines**, a plain line has the same number in an excerpt. -/
theorem getElem?_splitLinesFrom (h : (cs.splitOn '\n')[i]? = some line) (hline : line ≠ [])
    (hplain : ∀ l ∈ (cs.splitOn '\n').take (i + 1), Plain l) :
    (splitLinesFrom [] cs)[i]? = some (chomp line) := by
  induction cs using lines_induction generalizing i with
  | last cs hcs =>
    rw [List.splitOn_eq_singleton hcs] at h hplain
    cases i with
    | zero =>
      obtain rfl : cs = line := Option.some.inj h
      rw [splitLinesFrom_plain_last (hplain cs (by simp)) hline]
      rfl
    | succ i => cases h
  | feed first rest hfirst ih =>
    rw [splitOn_feed hfirst] at h hplain
    rw [splitLinesFrom_plain (hplain first (by simp))]
    cases i with
    | zero =>
      obtain rfl : first = line := Option.some.inj h
      rfl
    | succ i => exact ih h fun l hl => hplain l (List.mem_cons_of_mem _ hl)

end LedSketch.Text
