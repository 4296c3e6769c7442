import LedSketch.Text.Classes
import Mathlib.Data.List.Basic
import Mathlib.Data.List.TakeWhile

/-!
# Blanks are apart from words

There are only finitely many blanks, so what sets them apart from the characters of words can be
checked for one after the other. A table of letters is looked up once for each of its gaps that
holds blanks, and never for a character of ASCII.

* `oddBelow_of_gap`: membership in a table is the same all over a gap of its boundaries.
* `isNameChar_of_lt`: of the characters below U+00AA only those of ASCII names are in a name.
* `forall_isSpace`: a property of characters that is checked at every code point of a blank holds
  of every blank.
* `trim_around`: trimming takes off the blanks around a text, and nothing of the text.
-/

namespace LedSketch.Text

/-! ## Blanks -/

/-- The code points of the blanks. -/
def blankCodes : List Nat :=
  List.range' 9 5 ++ List.range' 0x1C 5 ++ [0x85, 0xA0, 0x1680] ++ List.range' 0x2000 11
    ++ [0x2028, 0x2029, 0x202F, 0x205F, 0x3000]

theorem mem_blankCodes {c : Char} (h : isSpace c = true) : c.toNat ∈ blankCodes := by
  simp only [isSpace, isWhiteSpace, Bool.or_eq_true, Bool.and_eq_true, decide_eq_true_eq,
    beq_iff_eq] at h
  simp only [blankCodes, List.mem_append, List.mem_range'_1, List.mem_cons, List.not_mem_nil]
  omega

theorem forall_isSpace {p : Char → Bool}
    (h : (blankCodes.all fun n => p (Char.ofNat n)) = true) {c : Char} (hc : isSpace c = true) :
    p c = true := by
  have := List.all_eq_true.mp h c.toNat (mem_blankCodes hc)
  rwa [Char.ofNat_toNat] at this

theorem isNameStart_of_isSpace {c : Char} (h : isSpace c = true) : isNameStart c = false := by
  simpa using forall_isSpace (p := fun c => !isNameStart c) (by decide +kernel) h

theorem isDecimalDigit_of_isSpace {c : Char} (h : isSpace c = true) :
    isDecimalDigit c = false := by
  simpa using forall_isSpace (p := fun c => !isDecimalDigit c) (by decide +kernel) h

theorem ne_of_isSpace {c d : Char} (h : isSpace c = true) (hd : isSpace d = false) : c ≠ d := by
  rintro rfl
  rw [h] at hd
  cases hd

/-! ## Gaps of a table -/

/-- Whether a table has no boundary above `l` and up to `u`. -/
def isGap (boundaries : List Nat) (l u : Nat) : Bool := boundaries.all fun b => b ≤ l || u < b

theorem oddBelow_of_gap {boundaries : List Nat} {l u n : Nat} (h : isGap boundaries l u = true)
    (hl : l ≤ n) (hu : n ≤ u) : Unicode.oddBelow boundaries n = Unicode.oddBelow boundaries l := by
  refine List.foldl_ext _ _ _ fun odd b hb => ?_
  have hb := List.all_eq_true.mp h b hb
  simp only [Bool.or_eq_true, decide_eq_true_eq] at hb
  have : b ≤ n ↔ b ≤ l := by omega
  simp only [this]

/-- The gaps that hold blanks: all below U+00AA, two characters, and the general punctuation. -/
def blankGaps : List (Nat × Nat) :=
  [(0, 0xA9), (0x1680, 0x1680), (0x2000, 0x206F), (0x3000, 0x3000)]

theorem oddBelow_of_blankGap {l u n : Nat} (h : (l, u) ∈ blankGaps) (hl : l ≤ n) (hu : n ≤ u) :
    Unicode.oddBelow Unicode.letterOrNumber n = false := by
  have key : (blankGaps.all fun g => !Unicode.oddBelow Unicode.letterOrNumber g.1 &&
      (g.1 == g.2 || isGap Unicode.letterOrNumber g.1 g.2)) = true := by decide +kernel
  have hgap := List.all_eq_true.mp key _ h
  simp only [Bool.and_eq_true, Bool.not_eq_true', Bool.or_eq_true, beq_iff_eq] at hgap
  obtain ⟨hout, rfl | hgap⟩ := hgap
  · rwa [Nat.le_antisymm hu hl]
  · rw [oddBelow_of_gap hgap hl hu, hout]

/-! ## Characters of words -/

theorem isWordChar_of_lt {c : Char} (h : c.toNat < 0xAA) :
    isWordChar c = (isAsciiAlnum c || c == '_') := by
  rw [isWordChar, oddBelow_of_blankGap (l := 0) (u := 0xA9) (by decide) (Nat.zero_le _)
    (Nat.le_of_lt_succ h), Bool.or_false]

theorem isNameChar_of_lt {c : Char} (h : c.toNat < 0xAA) :
    isNameChar c = (isAsciiAlnum c || c == '_' || c == '$') := by
  rw [isNameChar, isWordChar_of_lt h]

/-- Whether a character of ASCII, or just above it, is in no name. -/
def isAsciiMark (c : Char) : Bool := c.toNat < 0xAA && !(isAsciiAlnum c || c == '_' || c == '$')

theorem isNameChar_of_isAsciiMark {c : Char} (h : isAsciiMark c = true) : isNameChar c = false := by
  simp only [isAsciiMark, Bool.and_eq_true, decide_eq_true_eq, Bool.not_eq_true'] at h
  rw [isNameChar_of_lt h.1, h.2]

/-- No blank is a letter or a number. -/
theorem oddBelow_of_isSpace {c : Char} (h : isSpace c = true) :
    Unicode.oddBelow Unicode.letterOrNumber c.toNat = false := by
  have : ∃ l u, (l, u) ∈ blankGaps ∧ l ≤ c.toNat ∧ c.toNat ≤ u := by
    have hcodes : ∀ n ∈ blankCodes, ∃ g ∈ blankGaps, g.1 ≤ n ∧ n ≤ g.2 := by decide
    obtain ⟨⟨l, u⟩, hg, hn⟩ := hcodes _ (mem_blankCodes h)
    exact ⟨l, u, hg, hn⟩
  obtain ⟨l, u, hg, hl, hu⟩ := this
  exact oddBelow_of_blankGap hg hl hu

theorem isNameChar_of_isSpace {c : Char} (h : isSpace c = true) : isNameChar c = false := by
  have hascii := forall_isSpace (p := fun c => !(isAsciiAlnum c || c == '_' || c == '$'))
    (by decide) h
  simp only [Bool.not_eq_true', Bool.or_eq_false_iff] at hascii
  rw [isNameChar, isWordChar, oddBelow_of_isSpace h, hascii.1.1, hascii.1.2, hascii.2]
  rfl

/-! ## Blanks around a text -/

section Around

variable {p : Char → Bool} {cs before after : List Char}

/-- What is dropped at both ends is what stands around a text that has none of it. -/
theorem dropWhile_around (hb : ∀ c ∈ before, p c = true) (ha : ∀ c ∈ after, p c = true)
    (hcs : ∀ c ∈ cs, p c = false) :
    (((before ++ cs ++ after).dropWhile p).reverse.dropWhile p).reverse = cs := by
  have hrest : ∀ c ∈ after.reverse, p c = true := by simpa using ha
  cases cs with
  | nil =>
    -- Everything is dropped from the front already.
    rw [List.append_nil, List.dropWhile_append_of_pos hb, List.dropWhile_eq_nil_iff.mpr ha]
    rfl
  | cons d ds =>
    have back : (d :: ds).reverse.dropWhile p = (d :: ds).reverse := by
      refine List.dropWhile_eq_self_iff.mpr fun hl => ?_
      rw [hcs _ (List.mem_reverse.mp (List.getElem_mem hl))]
      exact Bool.false_ne_true
    have front : (d :: ds ++ after).dropWhile p = d :: ds ++ after :=
      List.dropWhile_cons_of_neg (by simp [hcs d List.mem_cons_self])
    rw [List.append_assoc, List.dropWhile_append_of_pos hb, front, List.reverse_append,
      List.dropWhile_append_of_pos hrest, back, List.reverse_reverse]

theorem trim_around (hb : ∀ c ∈ before, isSpace c = true) (ha : ∀ c ∈ after, isSpace c = true)
    (hcs : ∀ c ∈ cs, isSpace c = false) : trim (before ++ cs ++ after) = cs :=
  dropWhile_around hb ha hcs

end Around

end LedSketch.Text
