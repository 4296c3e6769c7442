import LedSketch.Proofs.Number.Doubles

/-!
# The nearest double

What a double means is its exact value, so a fraction is turned into a double correctly if no other
double has a value that is nearer to it. Rounding at the last place that a double has for a fraction
brings that about: whatever is not on the grid of that place lies below all fractions that need it.

* `IsNearest`: no finite double lies nearer to a fraction.
* `Rounded`: an integer rounds a fraction at a place; `Rounded.isNearest_of_bits`: the double with
  the bits of that integer at that place is nearest.
* `isNearest_ofRatio?`: the double of a quotient of integers is nearest to it.
-/

namespace LedSketch.Binary64

/-! ## Rounding at a place -/

/-- A double is nearest to a fraction if it is finite and no finite double lies closer. -/
def IsNearest (q : ℚ) (x : Float) : Prop :=
  ∃ d, decode? x = some d ∧ ∀ y d', decode? y = some d' → |d.value - q| ≤ |d'.value - q|

/-- The integer `k` rounds the fraction `q` at the place `e`: `q` has all of its 53 bits in front of
that place, or as many as there are in front of the last place of all doubles. -/
structure Rounded (q : ℚ) (k : Nat) (e : Int) : Prop where
  bottom : -1074 ≤ e
  full : e = -1074 ∨ 2 ^ (e + 52) ≤ q
  fits : q < 2 ^ (e + 53)
  near : |k - q / 2 ^ e| ≤ 1 / 2

/-- What a finite double is made of. -/
theorem bounds_of_decode? {x : Float} {d : Exact} (h : decode? x = some d) :
    d.mantissa < 2 ^ 53 ∧ -1074 ≤ d.exponent ∧ d.exponent ≤ 971 := by
  have hfield := Nat.mod_lt (x.toBits.toNat / 2 ^ 52) (show 0 < 2048 by decide)
  have hfraction := Nat.mod_lt x.toBits.toNat (show 0 < 2 ^ 52 by decide)
  unfold decode? at h
  dsimp only at h
  split_ifs at h with hspecial hnone
  · cases h
    exact ⟨hfraction.trans (by decide), le_refl _, (by decide : (-1074 : Int) ≤ 971)⟩
  · cases h
    refine ⟨?_, ?_, ?_⟩ <;> dsimp only <;> omega

theorem abs_value (d : Exact) : |d.value| = d.mantissa * 2 ^ d.exponent := by
  have hpow : (0 : ℚ) < 2 ^ d.exponent := by positivity
  rw [Exact.value, abs_mul, abs_mul, abs_of_pos hpow, Nat.abs_cast]
  cases d.negative <;> simp

/-- A finite double is below the power of two that is 53 places in front of its last place. -/
theorem abs_value_lt {x : Float} {d : Exact} (h : decode? x = some d) :
    |d.value| < 2 ^ (53 + d.exponent) := by
  rw [abs_value, zpow_add₀ two_ne_zero]
  exact mul_lt_mul_of_pos_right (by exact_mod_cast (bounds_of_decode? h).1) (by positivity)

/-- No integer is nearer than one that is at most a half away. -/
theorem near_le {r : ℚ} {k : Nat} (near : |k - r| ≤ 1 / 2) (j : ℤ) : |k - r| ≤ |j - r| := by
  obtain rfl | hne := eq_or_ne j k
  · rfl
  · have hone : (1 : ℚ) ≤ |j - k| := by
      exact_mod_cast Int.one_le_abs (sub_ne_zero.mpr hne)
    push_cast at hone
    have := abs_sub_le (j : ℚ) r k
    rw [abs_sub_comm r] at this
    linarith

namespace Rounded

variable {q : ℚ} {k : Nat} {e : Int}

theorem dist_eq (v : ℚ) (q : ℚ) (e : Int) : |v * 2 ^ e - q| = |v - q / 2 ^ e| * 2 ^ e := by
  have hpow : (0 : ℚ) < 2 ^ e := by positivity
  rw [← abs_of_pos hpow, ← abs_mul, abs_of_pos hpow, sub_mul, div_mul_cancel₀ _ hpow.ne']

/-- Nothing on the grid of a place is nearer than what rounds at that place. -/
theorem le_grid (h : Rounded q k e) (j : ℤ) : |k * 2 ^ e - q| ≤ |j * 2 ^ e - q| := by
  rw [dist_eq, dist_eq]
  exact mul_le_mul_of_nonneg_right (near_le h.near j) (by positivity)

/-- A double whose last place is not behind a place lies on the grid of that place. -/
theorem exists_grid {d : Exact} (h : e ≤ d.exponent) : ∃ j : ℤ, d.value = j * 2 ^ e := by
  obtain ⟨n, hn⟩ := Int.eq_ofNat_of_zero_le (sub_nonneg.mpr h)
  refine ⟨(if d.negative then -1 else 1) * d.mantissa * 2 ^ n, ?_⟩
  rw [Exact.value, show d.exponent = n + e by omega, zpow_add₀ two_ne_zero]
  push_cast
  rw [zpow_natCast, mul_assoc _ _ ((2 : ℚ) ^ e)]

/-- **What rounds at a place is nearest.** A double that is not on the grid of the place is below
all fractions that have 53 bits in front of it. -/
theorem isNearest (h : Rounded q k e) {x : Float} {d : Exact} (hx : decode? x = some d)
    (hd : d.value = k * 2 ^ e) : IsNearest q x := by
  refine ⟨d, hx, fun y d' hy => ?_⟩
  rw [hd]
  obtain hle | hlt := le_or_gt e d'.exponent
  · obtain ⟨j, hj⟩ := exists_grid hle
    rw [hj]
    exact h.le_grid j
  · obtain ⟨-, hbottom, -⟩ := bounds_of_decode? hy
    have hq : (2 : ℚ) ^ (e + 52) ≤ q := h.full.resolve_left (by omega)
    have hsmall : d'.value < 2 ^ (e + 52) :=
      calc d'.value ≤ |d'.value| := le_abs_self _
        _ < 2 ^ (53 + d'.exponent) := abs_value_lt hy
        _ ≤ 2 ^ (e + 52) := zpow_le_zpow_right₀ one_le_two (by omega)
    have hgrid : ((2 ^ 52 : ℤ) : ℚ) * 2 ^ e = 2 ^ (e + 52) := by
      rw [zpow_add₀ two_ne_zero, mul_comm]
      norm_cast
    have := h.le_grid (2 ^ 52)
    rw [hgrid, abs_of_nonpos (a := 2 ^ (e + 52) - q) (by linarith)] at this
    rw [abs_of_nonpos (a := d'.value - q) (by linarith)]
    linarith

end Rounded

/-! ## The bits of what is rounded -/

/-- The bits of a positive double without its highest bit. -/
theorem decode?_of_subnormal {x : Float} {m : Nat} (h : x.toBits.toNat = m) (hm : m < 2 ^ 52) :
    decode? x = some ⟨false, m, -1074⟩ := by
  unfold decode?
  dsimp only
  rw [h, if_neg (by omega), if_pos (by omega), decide_eq_false (by omega)]
  rw [Nat.mod_eq_of_lt hm]

/-- The bits of a positive double with its highest bit, which is not written. -/
theorem decode?_of_normal {x : Float} {n m : Nat} (h : x.toBits.toNat = (n + 1) * 2 ^ 52 + m)
    (hn : n < 2046) (hm : m < 2 ^ 52) :
    decode? x = some ⟨false, 2 ^ 52 + m, n - 1074⟩ := by
  have hfraction : x.toBits.toNat % 2 ^ 52 = m := by omega
  have hfield : x.toBits.toNat / 2 ^ 52 % 2048 = n + 1 := by omega
  have hsign : ¬ 2 ^ 63 ≤ x.toBits.toNat := by omega
  unfold decode?
  dsimp only
  rw [hfraction, hfield, if_neg (by omega), if_neg (by omega), decide_eq_false hsign]
  congr 2
  omega

namespace Rounded

variable {q : ℚ} {k : Nat} {e : Int}

theorem le_of_fits (h : Rounded q k e) : k ≤ 2 ^ 53 := by
  have hr : q / 2 ^ e < 2 ^ 53 := by
    rw [div_lt_iff₀ (by positivity), ← zpow_natCast, ← zpow_add₀ two_ne_zero]
    exact (h.fits.trans_eq (by rw [add_comm]; rfl))
  have hlt : (k : ℚ) < 2 ^ 53 + 1 := by linarith [(abs_le.mp h.near).2]
  exact Nat.lt_succ_iff.mp (by exact_mod_cast hlt)

theorem bottom_of_lt (h : Rounded q k e) (hk : k < 2 ^ 52) : e = -1074 := by
  refine h.full.resolve_right fun hfull => ?_
  have hr : 2 ^ 52 ≤ q / 2 ^ e := by
    rw [le_div_iff₀ (by positivity), ← zpow_natCast, ← zpow_add₀ two_ne_zero]
    exact (le_of_eq (by rw [add_comm]; rfl)).trans hfull
  have hle : (k : ℚ) + 1 ≤ 2 ^ 52 := by exact_mod_cast hk
  linarith [(abs_le.mp h.near).1]

/-- What is below half of the range of doubles rounds to a finite double. -/
theorem encoding_lt (h : Rounded q k e) (hq : q < 2 ^ 1023) : encoding k e < 2047 * 2 ^ 52 := by
  have hk := h.le_of_fits
  have he : e < 971 := by
    obtain rfl | hfull := h.full
    · decide
    · rw [← zpow_natCast] at hq
      have := (zpow_lt_zpow_iff_right₀ one_lt_two).mp (hfull.trans_lt hq)
      push_cast at this
      omega
  unfold encoding
  split_ifs <;> omega

/-- **The double with the bits of what rounds a fraction is nearest to the fraction.** -/
theorem isNearest_of_bits (h : Rounded q k e) {x : Float} (hbits : x.toBits.toNat = encoding k e)
    (hfin : encoding k e < 2047 * 2 ^ 52) : IsNearest q x := by
  have hk := h.le_of_fits
  have hbottom := h.bottom
  unfold encoding at hbits hfin
  by_cases hsmall : k < 2 ^ 52
  · obtain rfl := h.bottom_of_lt hsmall
    have hdecode := decode?_of_subnormal (hbits.trans (if_pos hsmall)) hsmall
    exact h.isNearest hdecode (by simp [Exact.value])
  · rw [if_neg hsmall] at hbits hfin
    obtain ⟨n, hn⟩ : ∃ n : ℕ, (e + 1075).toNat = n + 1 := ⟨(e + 1074).toNat, by omega⟩
    obtain rfl : e = n - 1074 := by omega
    rw [hn] at hbits hfin
    obtain hlt | rfl := hk.lt_or_eq
    · have hdecode := decode?_of_normal hbits (by omega) (by omega)
      refine h.isNearest hdecode ?_
      rw [Nat.add_sub_cancel' (not_lt.mp hsmall)]
      simp [Exact.value]
    · have hcarry : x.toBits.toNat = (n + 1 + 1) * 2 ^ 52 + 0 := by
        rw [hbits, show 2 ^ 53 - 2 ^ 52 = 2 ^ 52 by norm_num]
        ring
      have hdecode := decode?_of_normal hcarry (by omega) (by decide)
      refine h.isNearest hdecode ?_
      have hplace : ((n + 1 : ℕ) : ℤ) - 1074 = 1 + (n - 1074) := by omega
      rw [Exact.value]
      dsimp only
      rw [hplace, zpow_add₀ (two_ne_zero' ℚ)]
      norm_num
      ring

end Rounded

/-! ## Fractions of integers -/

theorem div_eq_add_mod (num : Nat) {den : Nat} (hden : den ≠ 0) :
    (num : ℚ) / den = (num / den : ℕ) + (num % den : ℕ) / den := by
  have hpos : (0 : ℚ) < den := by positivity
  rw [div_eq_iff hpos.ne', add_mul, div_mul_cancel₀ _ hpos.ne']
  exact_mod_cast (Nat.div_add_mod' num den).symm

theorem abs_roundHalfEven_sub_le (num : Nat) {den : Nat} (hden : den ≠ 0) :
    |(roundHalfEven num den : ℚ) - num / den| ≤ 1 / 2 := by
  have hpos : (0 : ℚ) < den := by positivity
  have hfraction := div_eq_add_mod num hden
  obtain ⟨hdown, hr⟩ | ⟨hup, hr⟩ :
      (roundHalfEven num den = num / den ∧ 2 * (num % den) ≤ den) ∨
      (roundHalfEven num den = num / den + 1 ∧ den ≤ 2 * (num % den)) := by
    unfold roundHalfEven
    grind
  · have hle : ((num % den : ℕ) : ℚ) / den ≤ 1 / 2 := by
      rw [div_le_iff₀ hpos]
      have : (2 : ℚ) * (num % den : ℕ) ≤ den := by exact_mod_cast hr
      linarith
    have hnonneg : (0 : ℚ) ≤ (num % den : ℕ) / den := by positivity
    rw [hdown, hfraction, abs_le]
    constructor <;> linarith
  · have hge : 1 / 2 ≤ ((num % den : ℕ) : ℚ) / den := by
      rw [le_div_iff₀ hpos]
      have : (den : ℚ) ≤ 2 * (num % den : ℕ) := by exact_mod_cast hr
      linarith
    have hlt : ((num % den : ℕ) : ℚ) / den ≤ 1 := by
      rw [div_le_one hpos]
      exact_mod_cast (Nat.mod_lt _ (Nat.pos_of_ne_zero hden)).le
    rw [hup, hfraction, abs_le]
    push_cast
    constructor <;> linarith

/-- A fraction has all of its bits in front of its last place, if that is not the last place of all
doubles. -/
theorem lastPlace_full {num den : Nat} (hnum : num ≠ 0) (hden : den ≠ 0) :
    lastPlace num den = -1074 ∨ (2 : ℚ) ^ (lastPlace num den + 52) ≤ num / den := by
  have hpos : (0 : ℚ) < den := by positivity
  rw [lastPlace_eq, le_div_iff₀' hpos]
  refine (le_total _ _).imp max_eq_left fun h => ?_
  rw [max_eq_right h]
  split_ifs with hreached
  · exact hreached
  · have hlow : (2 : ℚ) ^ (num.log2 : ℤ) ≤ num := by
      rw [zpow_natCast]
      exact_mod_cast Nat.log2_self_le hnum
    have hlog : (den : ℚ) ≤ 2 ^ ((den.log2 + 1 : ℕ) : ℤ) := by
      rw [zpow_natCast]
      exact_mod_cast Nat.lt_log2_self.le
    have hsum : (num.log2 : ℤ) = (den.log2 + 1 : ℕ) + (suggested num den - 1 + 52) := by
      unfold suggested
      omega
    rw [hsum, zpow_add₀ two_ne_zero] at hlow
    exact (mul_le_mul_of_nonneg_right hlog (by positivity)).trans hlow

theorem significand_near (num : Nat) {den : Nat} (hden : den ≠ 0) :
    |(significand num den : ℚ) - num / den / 2 ^ lastPlace num den| ≤ 1 / 2 := by
  unfold significand
  split_ifs with h
  · obtain ⟨k, hk⟩ := Int.eq_ofNat_of_zero_le h
    have := abs_roundHalfEven_sub_le num (mul_ne_zero hden (pow_ne_zero k two_ne_zero))
    rw [hk, Int.toNat_natCast, zpow_natCast, div_div]
    exact_mod_cast this
  · obtain ⟨k, hk⟩ : ∃ k : ℕ, lastPlace num den = -k := ⟨(-lastPlace num den).toNat, by omega⟩
    have := abs_roundHalfEven_sub_le (num * 2 ^ k) hden
    rw [hk, neg_neg, Int.toNat_natCast, zpow_neg, div_inv_eq_mul, zpow_natCast,
      div_mul_eq_mul_div]
    exact_mod_cast this

/-- **A fraction rounds to its significand at its last place.** -/
theorem rounded_significand {num den : Nat} (hnum : num ≠ 0) (hden : den ≠ 0) :
    Rounded (num / den) (significand num den) (lastPlace num den) where
  bottom := by
    rw [lastPlace_eq]
    exact le_max_left _ _
  full := lastPlace_full hnum hden
  fits := by
    rw [div_lt_iff₀' (by positivity)]
    exact lt_lastPlace num hden
  near := significand_near num hden

/-- **The double of a fraction is nearest to it.** -/
theorem isNearest_ofRatio? {num den : Nat} {x : Float} (hnum : num ≠ 0) (hden : den ≠ 0)
    (h : ofRatio? false num den = some x) : IsNearest (num / den) x := by
  rw [ofRatio?_eq false hnum hden] at h
  obtain ⟨hfin, hx⟩ := Option.ite_none_right_eq_some.mp h
  obtain rfl := Option.some.inj hx
  refine (rounded_significand hnum hden).isNearest_of_bits ?_ hfin
  have hword : (UInt64.ofNat (0 + magnitude num den)).toNat = magnitude num den := by
    rw [UInt64.toNat_ofNat', zero_add, Nat.mod_eq_of_lt (by omega)]
  rw [if_neg Bool.false_ne_true, toBits_ofBits (by omega), hword]
  rfl

end LedSketch.Binary64
