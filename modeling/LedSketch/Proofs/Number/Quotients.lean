import LedSketch.Proofs.Number.Nearest

/-!
# Quotients of doubles

The arithmetic of doubles divides two mantissas in front of a place that leaves enough bits, keeps
what remains as two more bits, shifts all of it to the last place of the quotient, and rounds there.
The two bits say at every place where the quotient lies, so what is packed is the double nearest to
it.

* `Cut`: a fraction is cut to a mantissa and two more bits; `Cut.shiftRight` keeps that and
  `Cut.near` rounds it.
* `toNat_pack_roundWithAccuracy`: what is rounded is packed to the bits of its mantissa and place.
* `isNearest_div`: the quotient of two positive doubles is nearest to the quotient of their values.

Out of scope: negative quotients, quotients in the upper half of the range of doubles, and which of
two nearest doubles is taken.
-/

namespace LedSketch.Binary64

open Float.Model UnpackedFloat

/-! ## Mantissas that are cut -/

/-- The fraction that a mantissa and the bit behind it make. -/
def base (m : ExtendedMantissa) : ℚ := m.mantissa + if m.roundBit then 1 / 2 else 0

/-- A fraction is cut to a mantissa and the bit behind it, and one more bit says whether anything is
lost. -/
structure Cut (r : ℚ) (m : ExtendedMantissa) : Prop where
  le : base m ≤ r
  lt : r < base m + 1 / 2
  sticky : m.stickyBit = false ↔ r = base m

namespace Cut

variable {r : ℚ} {m : ExtendedMantissa}

theorem mantissa_le (h : Cut r m) : m.mantissa ≤ r := by
  have := h.le
  unfold base at this
  split_ifs at this <;> linarith

theorem lt_mantissa (h : Cut r m) : r < m.mantissa + 1 := by
  have := h.lt
  unfold base at this
  split_ifs at this <;> linarith

theorem base_shiftRightOne (m : ExtendedMantissa) : base m.shiftRightOne = m.mantissa / 2 := by
  have hm : (m.mantissa : ℚ) = 2 * (m.mantissa / 2 : ℕ) + (m.mantissa % 2 : ℕ) := by
    exact_mod_cast (Nat.div_add_mod m.mantissa 2).symm
  unfold base ExtendedMantissa.shiftRightOne
  obtain hparity | hparity := Nat.mod_two_eq_zero_or_one m.mantissa <;>
    rw [hparity] at hm <;> simp only [hparity] <;> norm_num at hm ⊢ <;> linarith

/-- A shift by one place halves. -/
theorem shiftRightOne (h : Cut r m) : Cut (r / 2) m.shiftRightOne where
  le := by
    rw [base_shiftRightOne]
    linarith [h.mantissa_le]
  lt := by
    rw [base_shiftRightOne]
    linarith [h.lt_mantissa]
  sticky := by
    have hsticky := h.sticky
    have hle := h.le
    rw [base_shiftRightOne, div_left_inj' two_ne_zero]
    unfold base at hsticky hle
    unfold ExtendedMantissa.shiftRightOne
    cases hround : m.roundBit with
    | false => simpa [hround] using hsticky
    | true =>
      simp only [hround, ↓reduceIte] at hle
      exact iff_of_false (by simp) (by linarith)

/-- A shift by any number of places divides by as many twos. -/
theorem shiftRight (h : Cut r m) (n : Nat) : Cut (r / 2 ^ n) (m >>> n) := by
  induction n with
  | zero => rwa [pow_zero, div_one]
  | succ n ih =>
    rw [pow_succ, ← div_div]
    exact ih.shiftRightOne

/-- What the bits behind a mantissa make of it is at most a half away. -/
theorem near (h : Cut r m) : |(m.roundedMantissa : ℚ) - r| ≤ 1 / 2 := by
  obtain ⟨hle, hlt, hsticky⟩ := h
  obtain ⟨m, roundBit, stickyBit⟩ := m
  have hparity : (m % 2 : ℕ) ≤ (1 : ℚ) := by exact_mod_cast Nat.lt_succ_iff.mp (m.mod_lt two_pos)
  have hnonneg : (0 : ℚ) ≤ (m % 2 : ℕ) := by positivity
  unfold base at hle hlt hsticky
  rw [abs_le, ExtendedMantissa.roundedMantissa]
  cases roundBit <;> cases stickyBit <;>
    norm_num [ExtendedMantissa.accuracy, Accuracy.roundToNearestEven] at hle hlt hsticky ⊢ <;>
    constructor <;> linarith

end Cut

/-- What is divided leaves a remainder that says where the quotient is cut. -/
theorem cut_div (a : Nat) {b : Nat} (hb : b ≠ 0) :
    Cut (a / b) (.ofMantissaAndAccuracy (a / b) (accuracyOfFraction (a % b) b)) := by
  have hpos : (0 : ℚ) < b := by positivity
  have hr : ((a % b : ℕ) : ℚ) < b := by exact_mod_cast Nat.mod_lt a (Nat.pos_of_ne_zero hb)
  rw [div_eq_add_mod a hb, accuracyOfFraction]
  split_ifs with hzero
  · rw [hzero]
    constructor <;> simp [base, ExtendedMantissa.ofMantissaAndAccuracy]
  · have hpositive : 0 < ((a % b : ℕ) : ℚ) / b := by positivity
    have hbelow : ((a % b : ℕ) : ℚ) / b < 1 := (div_lt_one hpos).mpr hr
    have hcast : (2 : ℚ) * (a % b : ℕ) = (2 * (a % b) : ℕ) := by push_cast; rfl
    cases hcompare : compare (2 * (a % b)) b with
    | lt =>
      have hhalf : ((a % b : ℕ) : ℚ) / b < 1 / 2 := by
        rw [div_lt_div_iff₀ hpos two_pos, one_mul, mul_comm, hcast]
        exact_mod_cast Nat.compare_eq_lt.mp hcompare
      constructor <;> simp [base, ExtendedMantissa.ofMantissaAndAccuracy] <;> grind
    | eq =>
      have hhalf : ((a % b : ℕ) : ℚ) / b = 1 / 2 := by
        rw [div_eq_div_iff hpos.ne' two_ne_zero, one_mul, mul_comm, hcast]
        exact_mod_cast Nat.compare_eq_eq.mp hcompare
      constructor <;> simp [base, ExtendedMantissa.ofMantissaAndAccuracy] <;> grind
    | gt =>
      have hhalf : 1 / 2 < ((a % b : ℕ) : ℚ) / b := by
        rw [div_lt_div_iff₀ two_pos hpos, one_mul, mul_comm _ 2, hcast]
        exact_mod_cast Nat.compare_eq_gt.mp hcompare
      constructor <;> simp [base, ExtendedMantissa.ofMantissaAndAccuracy] <;> grind

/-! ## The bits of what is packed -/

theorem toNat_packComponents (exponent : BitVec 11) (mantissa : BitVec 52) :
    (packComponents Format.binary64 .positive exponent mantissa).toNat =
      exponent.toNat * 2 ^ 52 + mantissa.toNat := by
  unfold packComponents
  rw [BitVec.toNat_append, ← Nat.shiftLeft_add_eq_or_of_lt (BitVec.isLt _), BitVec.toNat_append,
    ← Nat.shiftLeft_add_eq_or_of_lt (BitVec.isLt _), Nat.shiftLeft_eq]
  change (0 <<< 11 + exponent.toNat) * 2 ^ 52 + mantissa.toNat = _
  rw [Nat.zero_shiftLeft, zero_add]

theorem toNat_pack {k : Nat} {e : Int} (hk : 0 < k) (hlt : k < 2 ^ 53)
    (hfull : k < 2 ^ 52 → e = -1074) (hfin : encoding k e < 2047 * 2 ^ 52) :
    (UnpackedFloat.pack Format.binary64 (.finite .positive k e hk)).toNat = encoding k e := by
  have hbiased : (e + Format.binary64.exponentBias + (52 : ℕ) : ℤ) = e + 1075 := by
    rw [show Format.binary64.exponentBias = 1023 from rfl]
    push_cast
    ring
  have hbits : k.log2 + 1 = Format.binary64.mantissaBits ↔ ¬ k < 2 ^ 52 := by
    change k.log2 + 1 = 53 ↔ _
    have hlow := (Nat.log2_lt (k := 52) hk.ne').symm
    have hhigh := (Nat.log2_lt (k := 53) hk.ne').mpr hlt
    rw [hlow]
    omega
  unfold encoding at hfin ⊢
  unfold UnpackedFloat.pack
  dsimp only
  rw [hbiased]
  by_cases hsmall : k < 2 ^ 52
  · have hexponent : (e + 1075).toNat = 1 := by rw [hfull hsmall]; rfl
    rw [hexponent, if_neg (by decide), if_neg (by rw [hbits]; exact not_not.mpr hsmall),
      if_pos hsmall, toNat_packComponents, BitVec.toNat_ofNat, BitVec.toNat_ofNat,
      Nat.mod_eq_of_lt hsmall, Nat.zero_mod, zero_mul, zero_add]
  · rw [if_neg hsmall] at hfin
    have hexponent : (e + 1075).toNat < 2 ^ 11 := by omega
    rw [if_neg (by omega), if_pos (hbits.mpr hsmall), if_neg hsmall, toNat_packComponents,
      BitVec.toNat_ofNat, BitVec.toNat_ofNat, Nat.mod_eq_of_lt hexponent]
    omega

/-! ## Rounding what is cut -/

theorem targetExponent_eq (m : Nat) (e : Int) :
    Format.binary64.targetExponent (totalExponent m e) = max (m.log2 + e - 52) (-1074) := by
  change max ((m.log2 : Int) + 1 + e - 53) (-1074) = _
  omega

/-- Nothing is shifted out of at most 53 bits. -/
theorem shiftToTargetExponent_of_lt {k : Nat} {e : Int} (hk : k < 2 ^ 53) (he : -1074 ≤ e) :
    shiftToTargetExponent Format.binary64 k e .exact = (⟨k, false, false⟩, e) := by
  have hlog : k.log2 ≤ 52 := by
    obtain rfl | hne := eq_or_ne k 0
    · decide
    · exact Nat.lt_succ_iff.mp ((Nat.log2_lt hne).mpr hk)
  have hshift : (max ((k.log2 : Int) + e - 52) (-1074) - e).toNat = 0 := by omega
  rw [shiftToTargetExponent, targetExponent_eq, shiftToExponent]
  rw [hshift, Int.natCast_zero, add_zero]
  rfl

/-- The power `2 ^ 53` is shifted by one place. -/
theorem shiftToTargetExponent_carry {e : Int} (he : -1074 ≤ e) :
    shiftToTargetExponent Format.binary64 (2 ^ 53) e .exact =
      (⟨2 ^ 52, false, false⟩, e + 1) := by
  have hshift : (max (((2 ^ 53).log2 : Int) + e - 52) (-1074) - e).toNat = 1 := by
    rw [Nat.log2_two_pow]
    omega
  rw [shiftToTargetExponent, targetExponent_eq, shiftToExponent]
  rw [hshift]
  rfl

/-- What is cut and rounded gets the bits of what it is rounded to. -/
theorem toNat_pack_roundWithAccuracy {m k : Nat} {e e' : Int} {a : Accuracy} {q : ℚ}
    (hk : (shiftToTargetExponent Format.binary64 m e a).1.roundedMantissa = k)
    (he' : (shiftToTargetExponent Format.binary64 m e a).2 = e')
    (h : Rounded q k e') (hfin : encoding k e' < 2047 * 2 ^ 52) :
    (UnpackedFloat.pack Format.binary64
      (roundWithAccuracy Format.binary64 .positive m e a)).toNat = encoding k e' := by
  have hle := h.le_of_fits
  unfold roundWithAccuracy
  dsimp only
  rw [hk, he']
  obtain hlt | rfl := hle.lt_or_eq
  · rw [shiftToTargetExponent_of_lt hlt h.bottom]
    dsimp only
    split_ifs with hzero
    · rw [hzero]
      rfl
    · exact toNat_pack (Nat.pos_of_ne_zero hzero) hlt h.bottom_of_lt hfin
  · have hcarry : encoding (2 ^ 53) e' = encoding (2 ^ 52) (e' + 1) := by
      have hnext : (e' + 1 + 1075).toNat = (e' + 1075).toNat + 1 := by
        have := h.bottom
        omega
      rw [encoding, encoding, if_neg (by decide), if_neg (by decide), hnext,
        show 2 ^ 53 - 2 ^ 52 = 2 ^ 52 by norm_num, Nat.sub_self]
      ring
    rw [shiftToTargetExponent_carry h.bottom]
    dsimp only
    rw [dif_neg (by decide), hcarry]
    exact toNat_pack (by decide) (by decide) (absurd · (lt_irrefl _)) (hcarry ▸ hfin)

/-- **A fraction that is cut behind enough bits is rounded** at the place that it is shifted to. -/
theorem rounded_shiftToTargetExponent {m : Nat} {e : Int} {a : Accuracy} {q : ℚ}
    (h : Cut (q / 2 ^ e) (.ofMantissaAndAccuracy m a)) (hfull : 2 ^ 52 ≤ m ∨ e ≤ -1074) :
    Rounded q (shiftToTargetExponent Format.binary64 m e a).1.roundedMantissa
      (shiftToTargetExponent Format.binary64 m e a).2 := by
  have hmantissa : (ExtendedMantissa.ofMantissaAndAccuracy m a).mantissa = m := by
    unfold ExtendedMantissa.ofMantissaAndAccuracy
    split <;> rfl
  have hle := h.mantissa_le
  have hlt := h.lt_mantissa
  rw [hmantissa] at hle hlt
  rw [le_div_iff₀ (by positivity)] at hle
  rw [div_lt_iff₀ (by positivity)] at hlt
  rw [shiftToTargetExponent, targetExponent_eq, shiftToExponent]
  generalize hn : (max ((m.log2 : Int) + e - 52) (-1074) - e).toNat = n
  have hlog : 2 ^ 52 ≤ m → 52 ≤ m.log2 := fun hm =>
    (Nat.le_log2 (by omega)).mpr hm
  have hplace : e + n = max ((m.log2 : Int) + e - 52) (-1074) := by omega
  dsimp only
  refine ⟨by omega, ?_, ?_, ?_⟩
  · obtain hlast | hlast : e + n = -1074 ∨ e + n + 52 = m.log2 + e := by omega
    · exact .inl hlast
    · have hm : m ≠ 0 := by
        rintro rfl
        rw [Nat.log2_zero] at hlog hplace hlast
        omega
      have hpow : (2 : ℚ) ^ (m.log2 : ℤ) ≤ m := by
        rw [zpow_natCast]
        exact_mod_cast Nat.log2_self_le hm
      rw [hlast, zpow_add₀ two_ne_zero]
      exact .inr ((mul_le_mul_of_nonneg_right hpow (by positivity)).trans hle)
  · have hpow : ((m : ℚ) + 1) ≤ 2 ^ ((m.log2 + 1 : ℕ) : ℤ) := by
      rw [zpow_natCast]
      exact_mod_cast Nat.lt_log2_self
    calc q < (m + 1) * 2 ^ e := hlt
      _ ≤ 2 ^ ((m.log2 + 1 : ℕ) : ℤ) * 2 ^ e := by gcongr
      _ = 2 ^ (((m.log2 + 1 : ℕ) : ℤ) + e) := (zpow_add₀ two_ne_zero _ _).symm
      _ ≤ 2 ^ (e + n + 53) := zpow_le_zpow_right₀ one_le_two (by omega)
  · have := (h.shiftRight n).near
    rwa [div_div, ← zpow_natCast, ← zpow_add₀ two_ne_zero] at this

/-! ## Division -/

theorem unpack_of_value_pos {x : Float} {d : Exact} (h : decode? x = some d) (hpos : 0 < d.value) :
    (∃ hm, x.toModel.unpack = .finite .positive d.mantissa d.exponent hm) ∧
    d.value = d.mantissa * 2 ^ d.exponent := by
  obtain ⟨hsign, hmantissa⟩ := d.value_pos_iff.mp hpos
  refine ⟨?_, by rw [Exact.value, hsign, if_neg Bool.false_ne_true, one_mul]⟩
  rw [decode?_eq] at h
  cases hx : x.toModel.unpack with
  | notANumber | infinity s =>
    rw [hx] at h
    cases h
  | zero s =>
    rw [hx] at h
    cases h
    exact absurd rfl hmantissa
  | finite s m e hm =>
    rw [hx] at h
    cases h
    cases s with
    | positive => exact ⟨hm, rfl⟩
    | negative => cases hsign

theorem toNat_toBits_div (x y : Float) : (x / y).toBits.toNat =
    (UnpackedFloat.pack Format.binary64
      (UnpackedFloat.div Format.binary64 x.toModel.unpack y.toModel.unpack)).toNat := rfl

/-- The place in front of which the quotient of two mantissas is taken. -/
def quotientPlace (a : Nat) (c : Int) (b : Nat) (d : Int) : Int :=
  min (c - d) (max ((a.log2 + c : Int) - (b.log2 + d) - 53) (-1074))

theorem divCore_eq (a : Nat) (c : Int) (b : Nat) (d : Int) :
    ∃ s : ℕ, c - d = quotientPlace a c b d + s ∧ divCore Format.binary64 a c b d =
      (a * 2 ^ s / b, quotientPlace a c b d, accuracyOfFraction (a * 2 ^ s % b) b) := by
  have hplace : min (c - d) (Format.binary64.targetExponent
      (totalExponent a c - totalExponent b d)) = quotientPlace a c b d := by
    change min (c - d) (max ((a.log2 + 1 + c : Int) - (b.log2 + 1 + d) - 53) (-1074)) = _
    unfold quotientPlace
    omega
  refine ⟨(c - d - quotientPlace a c b d).toNat, ?_, ?_⟩
  · unfold quotientPlace
    omega
  · unfold divCore
    dsimp only
    rw [hplace, Nat.shiftLeft_eq]

/-- The quotient of two mantissas has enough bits. -/
theorem divCore_full {a b : Nat} (c d : Int) (ha : a ≠ 0) (hb : b ≠ 0) :
    2 ^ 52 ≤ (divCore Format.binary64 a c b d).1 ∨
      (divCore Format.binary64 a c b d).2.1 ≤ -1074 := by
  obtain ⟨s, hs, hcore⟩ := divCore_eq a c b d
  rw [hcore, or_iff_not_imp_right]
  intro hplace
  have hlog : 52 + (b.log2 + 1) ≤ a.log2 + s := by
    dsimp only at hplace
    unfold quotientPlace at hs hplace
    omega
  rw [Nat.le_div_iff_mul_le (Nat.pos_of_ne_zero hb)]
  calc 2 ^ 52 * b ≤ 2 ^ 52 * 2 ^ (b.log2 + 1) := Nat.mul_le_mul_left _ Nat.lt_log2_self.le
    _ ≤ 2 ^ (a.log2 + s) := by
      rw [← pow_add]
      exact Nat.pow_le_pow_right two_pos hlog
    _ = 2 ^ a.log2 * 2 ^ s := pow_add _ _ _
    _ ≤ a * 2 ^ s := Nat.mul_le_mul_right _ (Nat.log2_self_le ha)

theorem cut_divCore (a : Nat) {b : Nat} (c d : Int) (hb : b ≠ 0) :
    Cut ((a * 2 ^ c) / (b * 2 ^ d) / 2 ^ (divCore Format.binary64 a c b d).2.1)
      (.ofMantissaAndAccuracy (divCore Format.binary64 a c b d).1
        (divCore Format.binary64 a c b d).2.2) := by
  obtain ⟨s, hs, hcore⟩ := divCore_eq a c b d
  rw [hcore]
  have hpow : (2 : ℚ) ^ c = 2 ^ quotientPlace a c b d * 2 ^ s * 2 ^ d := by
    rw [← zpow_natCast, ← zpow_add₀ two_ne_zero, ← zpow_add₀ two_ne_zero]
    congr 1
    omega
  have hquotient : (a * 2 ^ c) / (b * 2 ^ d) / (2 : ℚ) ^ quotientPlace a c b d =
      (a * 2 ^ s : ℕ) / b := by
    have : (b : ℚ) ≠ 0 := Nat.cast_ne_zero.mpr hb
    rw [hpow]
    push_cast
    field_simp
  dsimp only
  rw [hquotient]
  exact cut_div _ hb

/-- **The quotient of two positive doubles is nearest to the quotient of their values**, if that is
below half of the range of doubles. -/
theorem isNearest_div {x y : Float} {a b : Exact} (hx : decode? x = some a)
    (hy : decode? y = some b) (ha : 0 < a.value) (hb : 0 < b.value)
    (hq : a.value / b.value < 2 ^ 1023) : IsNearest (a.value / b.value) (x / y) := by
  obtain ⟨⟨hma, hxu⟩, hav⟩ := unpack_of_value_pos hx ha
  obtain ⟨⟨hmb, hyu⟩, hbv⟩ := unpack_of_value_pos hy hb
  have hrounded := rounded_shiftToTargetExponent
    (cut_divCore _ a.exponent b.exponent hmb.ne') (divCore_full a.exponent b.exponent hma.ne' hmb.ne')
  rw [← hav, ← hbv] at hrounded
  have hfin := hrounded.encoding_lt hq
  refine hrounded.isNearest_of_bits ?_ hfin
  rw [toNat_toBits_div, hxu, hyu]
  exact toNat_pack_roundWithAccuracy rfl rfl hrounded hfin

end LedSketch.Binary64
