import LedSketch.Number.Basic
import Mathlib

/-!
# The exact value of a number

A finite double is a fraction, which its bits spell out. How the arithmetic of doubles classifies a
double, as finite, as below zero or as zero, agrees with that fraction.

* `decode?_eq`: the bits and the arithmetic mean the same double.
* `isSome_ofRatio?_of_whole`: what has a nearest double has one when it is divided, too.
* `Number.fraction?`: the fraction that a number is, if it is finite.
* `Number.isPositive_iff`: a number passes for positive and finite exactly if it is.
-/

namespace LedSketch

open Float.Model

namespace Binary64

/-! ## Bits -/

/-- What the arithmetic of doubles takes a double for, as an exact value. -/
def ofUnpacked? : UnpackedFloat → Option Exact
  | .notANumber | .infinity _ => none
  | .zero s => some ⟨s == .negative, 0, -1074⟩
  | .finite s m e _ => some ⟨s == .negative, m, e⟩

variable (b : BitVec Format.binary64.numBits)

theorem toNat_unpackExponent :
    (UnpackedFloat.unpackExponent b).toNat = b.toNat / 2 ^ 52 % 2048 := by
  rw [UnpackedFloat.unpackExponent_def, BitVec.extractLsb'_toNat, Nat.shiftRight_eq_div_pow]
  rfl

theorem toNat_unpackMantissa : (UnpackedFloat.unpackMantissa b).toNat = b.toNat % 2 ^ 52 := by
  rw [UnpackedFloat.unpackMantissa_def, BitVec.extractLsb'_toNat, Nat.shiftRight_zero]

/-- The mantissa of a normal double has one more bit, which is not written. -/
theorem toNat_append_unpackMantissa :
    (1#1 ++ UnpackedFloat.unpackMantissa b).toNat = 2 ^ 52 + b.toNat % 2 ^ 52 := by
  rw [BitVec.toNat_append, ← Nat.shiftLeft_add_eq_or_of_lt (BitVec.isLt _),
    toNat_unpackMantissa]
  rfl

theorem toNat_unpackSign : (UnpackedFloat.unpackSign b).toNat = b.toNat / 2 ^ 63 := by
  have hb : b.toNat < 2 ^ 64 := b.isLt
  rw [UnpackedFloat.unpackSign_def, BitVec.extractLsb'_toNat, Nat.shiftRight_eq_div_pow]
  change b.toNat / 2 ^ 63 % 2 ^ 1 = b.toNat / 2 ^ 63
  omega

theorem sign_eq : (UnpackedFloat.Sign.ofBitVec (UnpackedFloat.unpackSign b) == .negative) =
    decide (2 ^ 63 ≤ b.toNat) := by
  have hsign := toNat_unpackSign b
  generalize UnpackedFloat.unpackSign b = s at hsign ⊢
  obtain rfl | rfl : s = 0#1 ∨ s = 1#1 := by
    clear hsign
    decide +revert
  · have : ¬ 2 ^ 63 ≤ b.toNat := by
      change 0 = _ at hsign
      omega
    rw [decide_eq_false this]
    rfl
  · have : 2 ^ 63 ≤ b.toNat := by
      change 1 = _ at hsign
      omega
    rw [decide_eq_true this]
    rfl

theorem eq_ofNat_iff {n : Nat} (v : BitVec n) (k : Nat) (hk : k < 2 ^ n) :
    v = BitVec.ofNat n k ↔ v.toNat = k := by
  rw [← BitVec.toNat_inj, BitVec.toNat_ofNat, Nat.mod_eq_of_lt hk]

theorem ofUnpacked?_unpack : ofUnpacked? (UnpackedFloat.unpack Format.binary64 b) =
    if b.toNat / 2 ^ 52 % 2048 = 2047 then none
    else if b.toNat / 2 ^ 52 % 2048 = 0 then
      some ⟨decide (2 ^ 63 ≤ b.toNat), b.toNat % 2 ^ 52, -1074⟩
    else some ⟨decide (2 ^ 63 ≤ b.toNat), 2 ^ 52 + b.toNat % 2 ^ 52,
      (b.toNat / 2 ^ 52 % 2048 : Nat) - 1075⟩ := by
  have hfull : UnpackedFloat.unpackExponent b =
      -BitVec.ofNat Format.binary64.exponentBits 1 ↔ b.toNat / 2 ^ 52 % 2048 = 2047 := by
    rw [← toNat_unpackExponent]
    exact eq_ofNat_iff _ 2047 (by decide)
  have hnone : UnpackedFloat.unpackExponent b = BitVec.ofNat Format.binary64.exponentBits 0 ↔
      b.toNat / 2 ^ 52 % 2048 = 0 := by
    rw [← toNat_unpackExponent]
    exact eq_ofNat_iff _ 0 (by decide)
  rw [UnpackedFloat.unpack]
  dsimp only
  simp only [hfull, hnone, ← sign_eq]
  split
  · split <;> rfl
  split
  · split
    · next h =>
      have := toNat_unpackMantissa b
      rw [h] at this
      rw [← this]
      rfl
    · next h _ =>
      rw [ofUnpacked?, toNat_unpackMantissa, toNat_unpackExponent, h]
      rfl
  · rw [ofUnpacked?, toNat_append_unpackMantissa, toNat_unpackExponent]
    rfl

/-- **The bits of a double say what the arithmetic takes it for.** -/
theorem decode?_eq (x : Float) : decode? x = ofUnpacked? x.toModel.unpack :=
  (ofUnpacked?_unpack x.toBits.toBitVec).symm

/-! ## Finite doubles and their sign -/

theorem isFinite_eq (x : Float) : x.isFinite = (decode? x).isSome := by
  rw [decode?_eq]
  change x.toModel.unpack.isFinite = _
  cases x.toModel.unpack <;> rfl

theorem unpack_zero : (0.0 : Float).toModel.unpack = .zero .positive := rfl

/-- The value of an exact double. -/
def Exact.value (d : Exact) : ℚ :=
  (if d.negative then -1 else 1) * d.mantissa * (2 : ℚ) ^ d.exponent

theorem Exact.value_pos_iff (d : Exact) :
    0 < d.value ↔ d.negative = false ∧ d.mantissa ≠ 0 := by
  have hpow : (0 : ℚ) < 2 ^ d.exponent := by positivity
  rw [value, mul_pos_iff_of_pos_right hpow]
  cases d.negative with
  | false => simp [Nat.pos_iff_ne_zero]
  | true => simp

theorem lt_iff (x y : Float) : x < y ↔ x.toModel.unpack.lt y.toModel.unpack = true := by
  change decide _ = true ↔ _
  rw [decide_eq_true_iff]
  rfl

theorem beq_eq (x y : Float) : (x == y) = x.toModel.unpack.beq y.toModel.unpack := rfl

/-- A finite double is above zero exactly if it is neither below zero nor zero for the arithmetic of
doubles. -/
theorem value_pos_iff {x : Float} {d : Exact} (h : decode? x = some d) :
    0 < d.value ↔ ¬ x < 0.0 ∧ (x == 0.0) = false := by
  rw [Exact.value_pos_iff, lt_iff, beq_eq, unpack_zero]
  rw [decode?_eq] at h
  cases hx : x.toModel.unpack with
  | notANumber | infinity s =>
    rw [hx] at h
    cases h
  | zero s =>
    rw [hx] at h
    cases h
    simp [UnpackedFloat.beq, UnpackedFloat.compare]
  | finite s m e hm =>
    rw [hx] at h
    cases h
    cases s <;> simp [UnpackedFloat.beq, UnpackedFloat.lt, UnpackedFloat.compare, hm.ne']

/-! ## The doubles of integers -/

/-- Bits whose exponent is not all ones are those of the double that they make. -/
theorem toBits_ofBits {u : UInt64} (h : u.toNat / 2 ^ 52 % 2048 ≠ 2047) :
    (Float.ofBits u).toBits = u := by
  have hvalid : Format.binary64.Valid u.toBitVec := by
    refine ⟨fun hfull => absurd ?_ h⟩
    have := toNat_unpackExponent u.toBitVec
    rw [hfull] at this
    exact this.symm
  exact UInt64.toBitVec_inj.mp (UnpackedFloat.pack_unpack_of_valid hvalid)

theorem isFinite_ofBits {u : UInt64} (h : u.toNat / 2 ^ 52 % 2048 ≠ 2047) :
    (Float.ofBits u).isFinite = true := by
  rw [isFinite_eq, decode?, toBits_ofBits h, if_neg h]
  split <;> rfl

theorem isFinite_of_ofRatio? {negative : Bool} {num den : Nat} {x : Float}
    (h : ofRatio? negative num den = some x) : x.isFinite = true := by
  obtain ⟨k, hk, rfl⟩ : ∃ k < 2047 * 2 ^ 52,
      x = Float.ofBits (UInt64.ofNat ((if negative then 2 ^ 63 else 0) + k)) := by
    unfold ofRatio? at h
    dsimp only at h
    split at h
    · exact ⟨0, by decide, (Option.some.inj h).symm⟩
    · obtain ⟨hk, hx⟩ := Option.ite_none_right_eq_some.mp h
      exact ⟨_, hk, (Option.some.inj hx).symm⟩
  refine isFinite_ofBits ?_
  rw [UInt64.toNat_ofNat']
  cases negative <;> simp <;> omega

/-! ## Which fractions have a nearest double -/

theorem roundHalfEven_le {num den k : Nat} (h : num < den * k) : roundHalfEven num den ≤ k := by
  have hq : num / den < k := Nat.div_lt_of_lt_mul h
  unfold roundHalfEven
  grind

theorem div_le_roundHalfEven (num den : Nat) : num / den ≤ roundHalfEven num den := by
  unfold roundHalfEven
  grind

/-- Whether a fraction reaches 53 bits in front of a place, as the search for its last place
asks. -/
theorem reaches_iff (num den : Nat) (e : Int) :
    (if 0 ≤ e then decide (den * 2 ^ (e.toNat + 52) ≤ num)
      else decide (den * 2 ^ 52 ≤ num * 2 ^ (-e).toNat)) = true ↔
      (den : ℚ) * 2 ^ (e + 52) ≤ num := by
  split
  · next h =>
    obtain ⟨k, rfl⟩ := Int.eq_ofNat_of_zero_le h
    have : ((k : ℤ) + 52) = ((k + 52 : ℕ) : ℤ) := by push_cast; rfl
    rw [decide_eq_true_iff, this, zpow_natCast, Int.toNat_natCast]
    exact_mod_cast Iff.rfl
  · next h =>
    obtain ⟨k, rfl⟩ : ∃ k : ℕ, e = -k := ⟨(-e).toNat, by omega⟩
    rw [decide_eq_true_iff, neg_neg, Int.toNat_natCast, zpow_add₀ two_ne_zero, zpow_neg,
      zpow_natCast, ← mul_assoc, mul_right_comm, ← div_eq_mul_inv,
      div_le_iff₀ (by positivity)]
    exact_mod_cast Iff.rfl

/-- The place that the binary logarithms of a fraction suggest as its last. -/
def suggested (num den : Nat) : Int := (num.log2 : Int) - den.log2 - 52

theorem lastPlace_eq (num den : Nat) : lastPlace num den = max (-1074)
    (if (den : ℚ) * 2 ^ (suggested num den + 52) ≤ num then suggested num den
      else suggested num den - 1) := by
  simp only [lastPlace, ← reaches_iff]
  rfl

/-- In front of its last place a fraction has at most 53 bits. -/
theorem lt_lastPlace (num : Nat) {den : Nat} (hden : den ≠ 0) :
    (num : ℚ) < den * 2 ^ (lastPlace num den + 53) := by
  have hpos : (0 : ℚ) < den := by positivity
  have mono {e e' : ℤ} (h : (num : ℚ) < den * 2 ^ (e + 53)) (hle : e ≤ e') :
      (num : ℚ) < den * 2 ^ (e' + 53) := by
    refine h.trans_le (mul_le_mul_of_nonneg_left ?_ hpos.le)
    exact zpow_le_zpow_right₀ (by norm_num) (by omega)
  have hlog : (num : ℚ) < den * 2 ^ (suggested num den + 53) := by
    have hnum : (num : ℚ) < 2 ^ ((num.log2 + 1 : ℕ) : ℤ) := by
      rw [zpow_natCast]
      exact_mod_cast Nat.lt_log2_self
    have hlow : (2 : ℚ) ^ (den.log2 : ℤ) ≤ den := by
      rw [zpow_natCast]
      exact_mod_cast Nat.log2_self_le hden
    have hsum : ((num.log2 + 1 : ℕ) : ℤ) = den.log2 + (suggested num den + 53) := by
      unfold suggested
      omega
    rw [hsum, zpow_add₀ two_ne_zero] at hnum
    exact hnum.trans_le (mul_le_mul_of_nonneg_right hlow (zpow_nonneg zero_le_two _))
  rw [lastPlace_eq]
  split
  · exact mono hlog (le_max_right _ _)
  · next h =>
    have hlt : (num : ℚ) < den * 2 ^ (suggested num den - 1 + 53) := by
      rwa [sub_add_eq_add_sub, add_sub_assoc, ← not_le]
    exact mono hlt (le_max_right _ _)

theorem lastPlace_le (num den : Nat) : lastPlace num den ≤ max (-1074) (suggested num den) := by
  rw [lastPlace_eq]
  split <;> omega

/-- A whole number has 53 bits in front of the place that is suggested as its last. -/
theorem suggested_le_lastPlace {num : Nat} (hnum : num ≠ 0) :
    suggested num 1 ≤ lastPlace num 1 := by
  have hlog : ((1 : ℕ) : ℚ) * 2 ^ (suggested num 1 + 52) ≤ num := by
    rw [suggested, show Nat.log2 1 = 0 by decide, Nat.cast_zero, sub_zero, sub_add_cancel,
      Nat.cast_one, one_mul, zpow_natCast]
    exact_mod_cast Nat.log2_self_le hnum
  rw [lastPlace_eq, if_pos hlog]
  exact le_max_right _ _

/-- The integer in front of the last place of a fraction. -/
def significand (num den : Nat) : Nat :=
  if 0 ≤ lastPlace num den then roundHalfEven num (den * 2 ^ (lastPlace num den).toNat)
  else roundHalfEven (num * 2 ^ (-lastPlace num den).toNat) den

theorem significand_le (num : Nat) {den : Nat} (hden : den ≠ 0) : significand num den ≤ 2 ^ 53 := by
  have hlt := lt_lastPlace num hden
  unfold significand
  split
  · next h =>
    obtain ⟨k, hk⟩ := Int.eq_ofNat_of_zero_le h
    rw [hk, zpow_add₀ two_ne_zero, zpow_natCast] at hlt
    rw [hk, Int.toNat_natCast]
    refine roundHalfEven_le ?_
    rw [mul_assoc]
    exact_mod_cast hlt
  · next h =>
    obtain ⟨k, hk⟩ : ∃ k : ℕ, lastPlace num den = -k := ⟨(-lastPlace num den).toNat, by omega⟩
    rw [hk, zpow_add₀ two_ne_zero, zpow_neg, zpow_natCast] at hlt
    rw [hk, neg_neg, Int.toNat_natCast]
    refine roundHalfEven_le ?_
    have := mul_lt_mul_of_pos_right hlt (show (0 : ℚ) < 2 ^ k by positivity)
    have hcancel : (den : ℚ) * ((2 ^ k)⁻¹ * 2 ^ (53 : ℤ)) * 2 ^ k = den * 2 ^ 53 := by
      field_simp
    rw [hcancel] at this
    exact_mod_cast this

/-- The bits of the double `k * 2 ^ e` without its sign, for a `k` of at most 53 bits that has all of
them in front of any place but the last one of all doubles. The power `2 ^ 53` is carried over. -/
def encoding (k : Nat) (e : Int) : Nat :=
  if k < 2 ^ 52 then k else (e + 1075).toNat * 2 ^ 52 + (k - 2 ^ 52)

/-- The bits of the double nearest to a fraction, without its sign, as far as the exponent has room
for them. -/
def magnitude (num den : Nat) : Nat := encoding (significand num den) (lastPlace num den)

theorem ofRatio?_eq (negative : Bool) {num den : Nat} (hnum : num ≠ 0) (hden : den ≠ 0) :
    ofRatio? negative num den = if magnitude num den < 2047 * 2 ^ 52 then
      some (Float.ofBits (UInt64.ofNat ((if negative then 2 ^ 63 else 0) + magnitude num den)))
      else none := by
  have hne : ¬ (decide (num = 0) || decide (den = 0)) = true := by simp [hnum, hden]
  rw [ofRatio?]
  dsimp only
  rw [if_neg hne]
  rfl

theorem isSome_ofRatio?_iff {negative : Bool} {num den : Nat} (hnum : num ≠ 0)
    (hden : den ≠ 0) :
    (ofRatio? negative num den).isSome = true ↔ magnitude num den < 2047 * 2 ^ 52 := by
  rw [ofRatio?_eq negative hnum hden]
  split <;> simp_all

/-- **A whole number that has a nearest double has one when it is divided**, too. -/
theorem isSome_ofRatio?_of_whole {sign : Bool} {num : Nat} (h : (ofRatio? sign num 1).isSome = true)
    (negative : Bool) {den : Nat} (hden : 2 ≤ den.log2) :
    (ofRatio? negative num den).isSome = true := by
  obtain rfl | hnum := Nat.eq_zero_or_pos num
  · rfl
  have hden0 : den ≠ 0 := by
    rintro rfl
    simp at hden
  rw [isSome_ofRatio?_iff hnum.ne' one_ne_zero] at h
  rw [isSome_ofRatio?_iff hnum.ne' hden0]
  have hle := significand_le num hden0
  have hlast := lastPlace_le num den
  have hsuggested : suggested num 1 = suggested num den + den.log2 := by
    simp only [suggested, show Nat.log2 1 = 0 by decide]
    omega
  by_contra hbig
  have hplace : 971 ≤ lastPlace num den := by
    unfold magnitude encoding at hbig
    split at hbig <;> omega
  have hlarge : 973 ≤ lastPlace num 1 :=
    le_trans (by omega) (suggested_le_lastPlace hnum.ne')
  have heq : lastPlace num 1 = suggested num 1 := by
    have := lastPlace_le num 1
    have := suggested_le_lastPlace hnum.ne'
    omega
  have hsig : 2 ^ 52 ≤ significand num 1 := by
    rw [significand, if_pos (by omega), one_mul]
    refine le_trans ?_ (div_le_roundHalfEven _ _)
    rw [Nat.le_div_iff_mul_le (by positivity), ← pow_add]
    have : 52 + (lastPlace num 1).toNat = num.log2 := by
      rw [heq, suggested, show Nat.log2 1 = 0 by decide] at *
      omega
    rw [this]
    exact Nat.log2_self_le hnum.ne'
  rw [magnitude, encoding, if_neg (by omega)] at h
  omega

end Binary64

namespace Number

open Binary64

/-- The fraction that a number is, if it is finite. -/
def fraction? : Number → Option ℚ
  | int n => some n
  | float x => (decode? x).map Exact.value

/-- **What passes for finite and positive is so**, if it can be told at all: an integer beyond the
range of doubles is a mishap. -/
theorem isPositive_iff {n : Number} {finite : Bool} (h : n.isFinite = .ok finite) :
    (finite = true ∧ n.isNegative = false ∧ n.isZero = false) ↔
      ∃ q, n.fraction? = some q ∧ 0 < q := by
  cases n with
  | int k =>
    have hfinite : finite = true := by
      simp only [isFinite, toFloat] at h
      cases hx : ofInt? k with
      | none =>
        simp only [hx] at h
        cases h
      | some x =>
        simp only [hx] at h
        cases h
        exact isFinite_of_ofRatio? hx
    suffices 0 ≤ k ∧ k ≠ 0 ↔ 0 < k by simpa [hfinite, isNegative, isZero, fraction?] using this
    omega
  | float x =>
    obtain rfl : x.isFinite = finite := Except.ok.inj h
    rw [isFinite_eq, isNegative, isZero, fraction?]
    cases hd : decode? x with
    | none => simp
    | some d => simp [value_pos_iff hd]

end Number
end LedSketch
