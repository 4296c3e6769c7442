import LedSketch.Number.Basic
import LedSketch.Proofs.Text.Blank
import Mathlib.Tactic.SplitIfs

/-!
# Integers are read back from their digits

The text of an integer is its decimal digits, behind a sign if it is negative. An integer has a text
exactly if its digits are within the limit, and that text, with any blanks around it, is read as the
same integer again.

* `Reading.readInt_signed`: digits are read as the number that they are the digits of.
* `Number.intText_eq`: which integers have a text.
* `Number.ofText_padded`: texts that stand for integers.
-/

namespace LedSketch

-- Powers are those of the core library, also where other ones are in scope; there the type of an
-- exponent has to be known.
attribute [local instance (high)] instPowNat

/-! ## Digits of ASCII -/

namespace Text

variable {c : Char}

theorem decimalDigit?_of_isDigit (h : c.isDigit = true) :
    decimalDigit? c = some (c.toNat - 48) := by
  have hc : '0' ≤ c ∧ c ≤ '9' := by simpa [Char.isDigit, Char.le_def] using h
  rw [decimalDigit?, if_pos (by simpa using hc)]

theorem isDecimalDigit_of_isDigit (h : c.isDigit = true) : isDecimalDigit c = true := by
  rw [isDecimalDigit, decimalDigit?_of_isDigit h]
  rfl

theorem letterDigit?_of_isDigit (h : c.isDigit = true) :
    letterDigit? c = some (c.toNat - 48) := by
  have hrange := (Char.isDigit_iff_toNat.mp h).2
  rw [letterDigit?, if_neg, if_neg, decimalDigit?_of_isDigit h]
  all_goals
    simp only [Bool.and_eq_true, decide_eq_true_eq, Char.le_def, UInt32.le_iff_toNat_le]
    rintro ⟨hle, -⟩
    exact absurd (Nat.le_trans hle hrange) (by decide)

theorem isSpace_of_isDigit (h : c.isDigit = true) : isSpace c = false := by
  rw [← Bool.not_eq_true]
  intro hc
  have := isDecimalDigit_of_isSpace hc
  rw [isDecimalDigit_of_isDigit h] at this
  cases this

theorem isWhiteSpace_of_isDigit (h : c.isDigit = true) : isWhiteSpace c = false := by
  have := isSpace_of_isDigit h
  rw [isSpace, Bool.or_eq_false_iff] at this
  exact this.1

end Text

open Text

/-! ## Digits of a number -/

namespace Decimal

variable {c : Char} {n : Int}

theorem isDigit_of_mem_digits {n : Nat} (h : c ∈ digits n) : c.isDigit = true :=
  Nat.isDigit_of_mem_toDigits (by decide) (by decide) h

theorem digits_ne_nil (n : Nat) : digits n ≠ [] := List.ne_nil_of_length_pos Nat.length_toDigits_pos

theorem toList_intText (n : Int) :
    (intText n).toList = if n < 0 then '-' :: digits n.natAbs else digits n.natAbs :=
  String.toList_ofList

theorem mem_intText (h : c ∈ (intText n).toList) : c = '-' ∨ c.isDigit = true := by
  rw [toList_intText] at h
  split_ifs at h
  · exact (List.mem_cons.mp h).imp_right isDigit_of_mem_digits
  · exact .inr (isDigit_of_mem_digits h)

theorem isSpace_of_mem_intText (h : c ∈ (intText n).toList) : isSpace c = false := by
  rcases mem_intText h with rfl | hc
  · decide
  · exact isSpace_of_isDigit hc

theorem toList_intText_ne_nil (n : Int) : (intText n).toList ≠ [] := by
  rw [toList_intText]
  split_ifs
  · exact List.cons_ne_nil _ _
  · exact digits_ne_nil _

/-- The test that spares the power of ten changes nothing. -/
theorem exceedsDigits_iff {limit n : Nat} : exceedsDigits limit n = true ↔ 10 ^ limit ≤ n := by
  rw [exceedsDigits, Bool.and_eq_true, decide_eq_true_eq, decide_eq_true_eq]
  refine ⟨fun h => h.2, fun h => ⟨?_, h⟩⟩
  have hpos : 0 < n := Nat.lt_of_lt_of_le (Nat.pow_pos (by decide)) h
  -- A digit is worth more than three bits.
  rw [Nat.le_log2 (Nat.ne_of_gt hpos), Nat.mul_comm, Nat.pow_mul]
  exact Nat.le_trans (Nat.pow_le_pow_left (by decide) limit) h

theorem exceedsDigits_eq {limit : Nat} (hlimit : 0 < limit) (n : Nat) :
    exceedsDigits limit n = decide (limit < (digits n).length) := by
  rw [Bool.eq_iff_iff, exceedsDigits_iff, decide_eq_true_eq, ← Nat.not_le, ← Nat.not_lt, digits,
    Nat.length_toDigits_le_iff (by decide) hlimit]

end Decimal

/-! ## Reading digits -/

namespace Reading

variable {cs w : List Char} {n : Int}

/-- Where there is no white space, there is none to take off. -/
theorem stripped_of_no_space (h : ∀ c ∈ cs, isWhiteSpace c = false) : stripped cs = cs := by
  simpa [stripped] using dropWhile_around (List.forall_mem_nil _) (List.forall_mem_nil _) h

/-- Digits without underscores between them. -/
theorem digitRun?_eq {digit? : Char → Option Nat} {f : Char → Nat} (hne : cs ≠ [])
    (hu : '_' ∉ cs) (h : ∀ c ∈ cs, digit? c = some (f c)) :
    digitRun? digit? cs = some (cs.map f) := by
  induction cs with
  | nil => exact absurd rfl hne
  | cons c cs ih =>
    have hc := h c List.mem_cons_self
    cases cs with
    | nil => rw [digitRun?, hc]; rfl
    | cons d cs =>
      rw [digitRun?, hc, ih (by simp) (fun hm => hu (List.mem_cons_of_mem c hm))
        fun e he => h e (List.mem_cons_of_mem c he)]
      · rfl
      · exact nofun
      · rintro es heq
        exact hu (by simp [(List.cons.inj heq).1])

/-- **Digits behind a sign, or without one**, are read as the number that they are the digits of. -/
theorem readInt_signed (negative : Bool) (hw : ∀ c ∈ w, c.isDigit = true) (hne : w ≠ [])
    (hlen : w.length ≤ digitLimit) :
    readInt 10 (if negative then '-' :: w else w) =
      .ok (if negative then -Nat.ofDigitChars 10 w 0 else Nat.ofDigitChars 10 w 0) := by
  have hno {d : Char} (hd : d.isDigit = false) : d ∉ w := by
    intro hm
    rw [hw d hm] at hd
    cases hd
  have hstripped : stripped (if negative then '-' :: w else w) =
      if negative then '-' :: w else w := by
    have hblank : ∀ c ∈ w, isWhiteSpace c = false := fun c hc => isWhiteSpace_of_isDigit (hw c hc)
    refine stripped_of_no_space ?_
    cases negative with
    | false => exact hblank
    | true => exact List.forall_mem_cons.mpr ⟨by decide, hblank⟩
  have hsign : takeSign (if negative then '-' :: w else w) = (negative, w) := by
    cases negative with
    | true => rfl
    | false =>
      rw [if_neg Bool.false_ne_true]
      unfold takeSign
      split
      · exact absurd List.mem_cons_self (hno (d := '-') (by decide))
      · exact absurd List.mem_cons_self (hno (d := '+') (by decide))
      · rfl
  have hmark : dropBaseMark 10 w = w := by
    unfold dropBaseMark
    split <;> rfl
  have hdigit (c : Char) (hc : c ∈ w) : ((letterDigit? c).bind fun d =>
      if d < 10 then some d else none) = some (c.toNat - 48) := by
    have hrange : c.toNat ≤ 57 := (Char.isDigit_iff_toNat.mp (hw c hc)).2
    rw [letterDigit?_of_isDigit (hw c hc), Option.bind_some, if_pos (by omega)]
  have hvalue : ofDigits 10 (w.map fun c => c.toNat - 48) = Nat.ofDigitChars 10 w 0 := by
    rw [ofDigits, List.foldl_map, Nat.ofDigitChars]
    simp only [Nat.mul_comm, Char.reduceToNat]
  simp only [readInt, hstripped, hsign, hmark, digitRun?_eq hne (hno (by decide)) hdigit, hvalue,
    List.length_map, Nat.not_lt.mpr hlen, decide_false, Bool.and_false, Bool.false_eq_true, if_false]

/-- The text of an integer is read as that integer. -/
theorem readInt_intText (h : (Decimal.digits n.natAbs).length ≤ digitLimit) :
    readInt 10 (Decimal.intText n).toList = .ok n := by
  have hread := readInt_signed (decide (n < 0)) (fun _ => Decimal.isDigit_of_mem_digits)
    (Decimal.digits_ne_nil n.natAbs) h
  have hvalue : Nat.ofDigitChars 10 (Decimal.digits n.natAbs) 0 = n.natAbs :=
    Nat.ofDigitChars_ten_toDigits
  simp only [decide_eq_true_eq, hvalue] at hread
  rw [Decimal.toList_intText, hread, Except.ok.injEq]
  omega

end Reading

/-! ## Texts that stand for integers -/

namespace Number

variable {n : Int} {before after : String}

/-- **Which integers have a text**: those with no more digits than the limit. -/
theorem intText_eq (n : Int) :
    intText n = if (Decimal.digits n.natAbs).length ≤ Reading.digitLimit then
      .ok (Decimal.intText n) else .error .integerTooLong := by
  rw [intText, Decimal.exceedsDigits_eq (by decide)]
  by_cases h : (Decimal.digits n.natAbs).length ≤ Reading.digitLimit
  · rw [decide_eq_false (Nat.not_lt.mpr h), if_pos h]
    rfl
  · rw [decide_eq_true (Nat.lt_of_not_le h), if_neg h]
    rfl

/-- **The text of an integer** stands for it, with any blanks around it. -/
theorem ofText_padded (h : (Decimal.digits n.natAbs).length ≤ Reading.digitLimit)
    (hb : ∀ c ∈ before.toList, isSpace c = true) (ha : ∀ c ∈ after.toList, isSpace c = true) :
    ofText (before ++ Decimal.intText n ++ after) = .int n := by
  have htrim : trim (before ++ Decimal.intText n ++ after).toList = (Decimal.intText n).toList := by
    rw [String.toList_append, String.toList_append]
    exact trim_around hb ha fun c => Decimal.isSpace_of_mem_intText
  have hread := Reading.readInt_intText h
  have hne := Decimal.toList_intText_ne_nil n
  have hmark (m : Char) (hm : m ∈ (Decimal.intText n).toList) :
      m ≠ 'x' ∧ m ≠ 'X' ∧ m ≠ 'b' ∧ m ≠ 'B' := by
    refine ⟨?_, ?_, ?_, ?_⟩ <;> rintro rfl <;> exact absurd (Decimal.mem_intText hm) (by decide)
  unfold ofText
  rw [htrim]
  generalize (Decimal.intText n).toList = cs at *
  have hten (base : Nat) (hbase : base = 10) : Reading.readInt base cs = .ok n := hbase ▸ hread
  dsimp only
  rw [if_neg (by simpa using hne), hten]
  -- A zero in front is no mark of a base, since no digit follows it that could be one.
  split
  · rename_i m ds
    simp [hmark m (by simp)]
  · rfl

end Number
end LedSketch
