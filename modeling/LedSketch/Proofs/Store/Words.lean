import LedSketch.Running.Evaluate
import Mathlib.Data.Nat.Bitwise

/-!
# Bitwise operators are operations on words

The bitwise operators compute with integers of any size and fold the result into 32 bits. What they
give is the signed value of the same operation on words of 32 bits in two's complement.

* `Word.getLsbD_combine`: an operation on integers, bit by bit.
* `Word.operation?`: what the operators do to words.
* `bitwise_on_words`: the operators on values.
-/

namespace LedSketch

namespace Word

variable {a b : Int} {w i : Nat}

theorem signed_magnitude (a : Int) :
    (if a < 0 then -(magnitude a : Int) - 1 else magnitude a) = a := by
  unfold magnitude
  split <;> omega

/-- The bits of a word are those of the magnitude, flipped by the sign. -/
theorem getLsbD_signed (s : Bool) (n : Nat) (hi : i < w) :
    (BitVec.ofInt w (if s then -n - 1 else n)).getLsbD i = (n.testBit i ^^ s) := by
  have bits : (BitVec.ofNat w n).getLsbD i = n.testBit i := by
    rw [BitVec.getLsbD_ofNat, decide_eq_true hi, Bool.true_and]
  cases s with
  | false =>
    rw [if_neg Bool.false_ne_true, BitVec.ofInt_natCast, bits, Bool.xor_false]
  | true =>
    have h : -(n : Int) - 1 = Int.negSucc n := by omega
    rw [if_pos rfl, h, BitVec.ofInt_negSucc_eq_not_ofNat, BitVec.getLsbD_not, bits,
      decide_eq_true hi, Bool.true_and, Bool.xor_true]

theorem getLsbD_ofInt (a : Int) (hi : i < w) :
    (BitVec.ofInt w a).getLsbD i = ((magnitude a).testBit i ^^ decide (a < 0)) := by
  have h := getLsbD_signed (decide (a < 0)) (magnitude a) hi
  simpa only [decide_eq_true_eq, signed_magnitude] using h

/-- **An operation on integers of any size** is one on each of their bits. -/
theorem getLsbD_combine (f : Bool → Bool → Bool) (a b : Int) (hi : i < w) :
    (BitVec.ofInt w (combine f a b)).getLsbD i =
      f ((BitVec.ofInt w a).getLsbD i) ((BitVec.ofInt w b).getLsbD i) := by
  rw [combine, getLsbD_signed _ _ hi, Nat.testBit_bitwise (by simp), getLsbD_ofInt a hi,
    getLsbD_ofInt b hi, Bool.xor_assoc, Bool.xor_self, Bool.xor_false]

variable (x y : BitVec 32)

theorem bitwise_toInt (f : Bool → Bool → Bool) {z : BitVec 32}
    (hz : ∀ i < 32, z.getLsbD i = f (x.getLsbD i) (y.getLsbD i)) :
    bitwise f x.toInt y.toInt = z.toInt := by
  have h : BitVec.ofInt 32 (combine f x.toInt y.toInt) = z := by
    refine BitVec.eq_of_getLsbD_eq fun i hi => ?_
    rw [getLsbD_combine f _ _ hi, BitVec.ofInt_toInt, BitVec.ofInt_toInt, hz i hi]
  rw [bitwise, ← h, BitVec.toInt_ofInt]

/-- The shift count of a word and that of its signed value are the same. -/
theorem toInt_emod_count : (y.toInt % 32).toNat = y.toNat % 32 := by
  have := y.isLt
  rw [BitVec.toInt_eq_toNat_cond]
  split <;> omega

theorem shiftLeft_toInt : shiftLeft x.toInt y.toInt = (x <<< (y.toNat % 32)).toInt := by
  rw [shiftLeft, toInt_emod_count, BitVec.toInt_shiftLeft, Nat.shiftLeft_eq,
    BitVec.toInt_eq_toNat_bmod]
  simp

theorem shiftRight_toInt : shiftRight x.toInt y.toInt = (x.sshiftRight (y.toNat % 32)).toInt := by
  have h : (0 : Int) ≤ 2 ^ (y.toNat % 32) := Int.pow_nonneg (by decide)
  rw [shiftRight, toInt_emod_count, BitVec.toInt_sshiftRight, Int.shiftRight_eq_div_pow,
    Int.fdiv_eq_ediv_of_nonneg _ h, Int.natCast_pow]
  rfl

theorem complement_toInt : complement x.toInt = (~~~x).toInt := by
  have h : -x.toInt - 1 = -1 - x.toInt := by omega
  have h' : (2 : Int) ^ 32 - 1 - x.toNat = -1 - x.toNat + (2 ^ 32 : Nat) := by omega
  rw [complement, BitVec.toInt_not, h, h', Int.add_bmod_right, BitVec.toInt_eq_toNat_bmod,
    Int.sub_bmod_bmod]

/-- What the bitwise operators do to two words. -/
def operation? : String → Option (BitVec 32 → BitVec 32 → BitVec 32)
  | "&" => some (· &&& ·)
  | "|" => some (· ||| ·)
  | "^" => some (· ^^^ ·)
  | "<<" => some fun x y => x <<< (y.toNat % 32)
  | ">>" => some fun x y => x.sshiftRight (y.toNat % 32)
  | _ => none

end Word

namespace Value

/-- Only the word of an integer matters to a bitwise operator. -/
theorem toInt32_eq {v : Value} {n : Int} (h : v.toNumber.truncate = .ok n) :
    v.toInt32 = (BitVec.ofInt 32 n).toInt := by
  rw [toInt32, Number.toInt32, h, BitVec.toInt_ofInt]
  rfl

end Value

open Word

/-- **Bitwise operators** give the signed value of the operation on the words of their operands. The
operands are all values that stand for an integer of any size: integers, truth values, null, and
texts that read as one; of a double the fraction is dropped. -/
theorem bitwise_on_words {a b : Value} {m n : Int} (ha : a.toNumber.truncate = .ok m)
    (hb : b.toNumber.truncate = .ok n) :
    (∀ st op f, operation? op = some f → ∃ r : Int, Store.binaryOperator st op a b = .ok (.int r) ∧
      r = (f (.ofInt 32 m) (.ofInt 32 n)).toInt ∧ -2 ^ 31 ≤ r ∧ r ≤ 2 ^ 31 - 1) ∧
    ∃ r : Int, Running.unaryOperator "~" a = pure (.int r) ∧
      r = (~~~BitVec.ofInt 32 m).toInt ∧ -2 ^ 31 ≤ r ∧ r ≤ 2 ^ 31 - 1 := by
  have range (x : BitVec 32) : -2 ^ 31 ≤ x.toInt ∧ x.toInt ≤ 2 ^ 31 - 1 := by
    have := BitVec.two_mul_toInt_lt (x := x)
    have := BitVec.le_two_mul_toInt (x := x)
    omega
  refine ⟨fun st op f hf => ⟨_, ?_, rfl, range _⟩, _, ?_, rfl, range _⟩
  · have hx := Value.toInt32_eq ha
    have hy := Value.toInt32_eq hb
    unfold operation? at hf
    split at hf <;> cases hf <;> simp only [Store.binaryOperator, hx, hy]
    · rw [bitwise_toInt _ _ _ fun i _ => BitVec.getLsbD_and]
    · rw [bitwise_toInt _ _ _ fun i _ => BitVec.getLsbD_or]
    · rw [bitwise_toInt _ _ _ fun i _ => BitVec.getLsbD_xor]
    · rw [shiftLeft_toInt]
    · rw [shiftRight_toInt]
  · rw [Running.unaryOperator, Value.toInt32_eq ha, complement_toInt]

theorem bitwise_on_words_huge :
    (Value.str " -4294967301").toNumber.truncate = .ok (-4294967301) ∧
    (Value.int (-31)).toNumber.truncate = .ok (-31) ∧
    Store.binaryOperator {} "<<" (.str " -4294967301") (.int (-31)) = .ok (.int (-10)) := by
  have ha : (Value.str " -4294967301").toNumber.truncate = .ok (-4294967301) := by decide +kernel
  have hb : (Value.int (-31)).toNumber.truncate = .ok (-31) := rfl
  obtain ⟨r, hr, hx, -⟩ := (bitwise_on_words ha hb).1 {} "<<" _ rfl
  have hr' : r = -10 := hx.trans (by decide)
  exact ⟨ha, hb, hr' ▸ hr⟩

end LedSketch
