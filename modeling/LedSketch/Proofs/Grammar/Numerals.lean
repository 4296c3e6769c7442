import Mathlib.Tactic.SplitIfs
import LedSketch.Proofs.Grammar.Building
import LedSketch.Proofs.Grammar.Lexemes

/-!
# Every numeral has a value

What the lexeme of numerals takes is a marked numeral, or decimal digits with a fraction and an
exponent or without them. All of them are numbers, unless they are integers with more decimal digits
than are read.

* `Numeral`: the texts of numerals.
* `numeral_of_takes`: the lexeme takes no others.
* `ofNumeral_numeral`: such texts have a value.
-/

namespace LedSketch.Grammar

open Text

variable {cs ds : List Char} {c : Char} {n : Nat}

/-- A list of decimal digits. -/
def Digits (cs : List Char) : Prop := ∀ c ∈ cs, isDecimalDigit c = true

/-- A point and the digits behind it, or nothing. -/
inductive Fraction : List Char → Prop
  | none : Fraction []
  | some {ds : List Char} (hd : Digits ds) : Fraction ('.' :: ds)

/-- The mark of an exponent, a sign or none, and its digits; or nothing. -/
inductive Exponent : List Char → Prop
  | none : Exponent []
  | plain {e ds} (he : e = 'e' ∨ e = 'E') (hd : Digits ds) (hne : ds ≠ []) : Exponent (e :: ds)
  | signed {e s ds} (he : e = 'e' ∨ e = 'E') (hs : s = '+' ∨ s = '-') (hd : Digits ds)
    (hne : ds ≠ []) : Exponent (e :: s :: ds)

/-- **The texts of numerals.** -/
inductive Numeral : List Char → Prop
  | hex {m ds} (hm : m = 'x' ∨ m = 'X') (hd : ∀ c ∈ ds, isHexDigit c = true) (hne : ds ≠ []) :
    Numeral ('0' :: m :: ds)
  | binary {m ds} (hm : m = 'b' ∨ m = 'B') (hd : ∀ c ∈ ds, c = '0' ∨ c = '1') (hne : ds ≠ []) :
    Numeral ('0' :: m :: ds)
  | decimal {ws fs xs} (hw : Digits ws) (hf : Fraction fs) (hx : Exponent xs)
    (hne : ws ++ fs.drop 1 ≠ []) : Numeral (ws ++ fs ++ xs)

/-! ## What is taken -/

theorem digits_take (cs : List Char) : Digits (cs.take (runLength isDecimalDigit cs)) := by
  rw [take_runLength]
  exact fun c hc => List.mem_takeWhile_imp hc

theorem take_runLength_ne_nil {p : Char → Bool} (h : runLength p cs ≠ 0) :
    cs.take (runLength p cs) ≠ [] := by
  rw [take_runLength]
  exact fun hn => h (by rw [runLength, hn]; rfl)

theorem exponent_take (cs : List Char) : Exponent (cs.take (exponentLength cs)) := by
  cases cs with
  | nil => exact .none
  | cons e rest =>
    by_cases he : (e = 'e' || e = 'E') = true
    · have he' : e = 'e' ∨ e = 'E' := by simpa using he
      cases hs : startsWith (fun c => c == '+' || c == '-') rest with
      | false =>
        simp only [exponentLength, he, if_true, hs, Bool.false_eq_true, if_false, List.drop_zero]
        split_ifs with hd
        · exact .none
        · rw [Nat.add_zero, Nat.add_comm, List.take_succ_cons]
          exact .plain he' (digits_take _) (take_runLength_ne_nil hd)
      | true =>
        cases rest with
        | nil => cases hs
        | cons s rest =>
          have hs' : s = '+' ∨ s = '-' := by simpa [startsWith] using hs
          simp only [exponentLength, he, if_true, hs, List.drop_succ_cons, List.drop_zero]
          split_ifs with hd
          · exact .none
          · rw [Nat.add_comm, List.take_succ_cons, List.take_succ_cons]
            exact .signed he' hs' (digits_take _) (take_runLength_ne_nil hd)
    · simp only [exponentLength, he, if_false, Bool.false_eq_true]
      exact .none

theorem numeral_of_marked (h : markedNumeral? cs = some n) : Numeral (cs.take n) := by
  unfold markedNumeral? at h
  split at h
  · rename_i m rest
    dsimp only at h
    split_ifs at h with hx hn hb hn
    · cases h
      rw [List.take_succ_cons, List.take_succ_cons, take_runLength]
      exact .hex (by simpa using hx) (fun c hc => List.mem_takeWhile_imp hc)
        (by rw [← take_runLength]; exact take_runLength_ne_nil hn)
    · cases h
      rw [List.take_succ_cons, List.take_succ_cons, take_runLength]
      exact .binary (by simpa using hb)
        (fun c hc => by simpa using List.mem_takeWhile_imp hc)
        (by rw [← take_runLength]; exact take_runLength_ne_nil hn)
    · exact absurd rfl ‹¬ 0 = 0›
  · cases h

theorem numeral_of_decimal {whole : Option Nat} (h : decimalNumeral? cs = some (n, whole)) :
    Numeral (cs.take n) ∧ ∀ k, whole = some k → Numeral (cs.take k) := by
  have hdigits : Digits (cs.take (runLength isDecimalDigit cs)) := digits_take cs
  unfold decimalNumeral? at h
  dsimp only at h
  split_ifs at h with hw
  · split at h
    · rename_i rest
      split_ifs at h with hn
      cases h
      refine ⟨?_, nofun⟩
      rw [Nat.add_assoc, Nat.add_comm, List.take_succ_cons, List.take_add]
      exact .decimal (show Digits [] from nofun) (.some (digits_take rest)) (exponent_take _)
        (take_runLength_ne_nil hn)
    · cases h
  · have hne := take_runLength_ne_nil hw
    split at h
    · rename_i rest hrest
      cases h
      constructor
      · rw [Nat.add_assoc, Nat.add_assoc, List.take_add, hrest, Nat.add_comm, List.take_succ_cons,
          List.take_add, ← List.cons_append, ← List.append_assoc]
        exact .decimal hdigits (.some (digits_take rest)) (exponent_take _) (by simp [hne])
      · rintro k ⟨⟩
        simpa using Numeral.decimal hdigits .none .none (by simpa using hne)
    · cases h
      refine ⟨?_, nofun⟩
      rw [List.take_add]
      simpa using Numeral.decimal hdigits .none (exponent_take _) (by simpa using hne)

/-- **The lexeme of numerals takes nothing else.** -/
theorem numeral_of_takes {s : String} (h : Lexeme.Takes numeral? s) : Numeral s.toList := by
  obtain ⟨cs, k, hk, rfl⟩ := h
  rw [String.toList_ofList]
  unfold numeral? at hk
  dsimp only at hk
  split at hk
  · rename_i n hn
    cases hk
    exact numeral_of_marked (Option.filter_eq_some_iff.mp hn).1
  · split at hk
    · rename_i n whole hn
      obtain ⟨hnum, hwhole⟩ := numeral_of_decimal hn
      split at hk
      · cases hk
        exact hnum
      · exact hwhole k hk
    · cases hk

/-! ## Values -/

theorem Digits.ne {d : Char} (h : Digits cs) (hd : isDecimalDigit d = false) : d ∉ cs := by
  intro hc
  rw [h d hc] at hd
  cases hd

theorem digit_lt_ten {d : Nat} (h : decimalDigit? c = some d) : d < 10 := by
  unfold decimalDigit? at h
  split_ifs at h with h₁
  · cases h
    simp only [Bool.and_eq_true, decide_eq_true_eq, Char.le_def, UInt32.le_iff_toNat_le] at h₁
    have h₂ : c.toNat ≤ 57 := h₁.2
    omega
  · obtain ⟨z, hz, rfl⟩ := Option.map_eq_some_iff.mp h
    have := List.find?_some hz
    simp only [Bool.and_eq_true, decide_eq_true_eq] at this
    omega

/-- Behind the digits of ASCII, and before the other scripts, there are no digits. -/
theorem decimal_not_between {a b : Char} (h : isDecimalDigit c = true) (ha : 58 ≤ a.toNat)
    (hb : b.toNat < 128) : ¬ (a ≤ c ∧ c ≤ b) := by
  simp only [Char.le_def, UInt32.le_iff_toNat_le]
  rintro ⟨h₁, h₂⟩
  have h₃ : a.toNat ≤ c.toNat := h₁
  have h₄ : c.toNat ≤ b.toNat := h₂
  unfold isDecimalDigit decimalDigit? at h
  rw [if_neg, if_pos (by omega)] at h
  · cases h
  · simp only [Bool.and_eq_true, decide_eq_true_eq, Char.le_def, UInt32.le_iff_toNat_le]
    rintro ⟨-, h₅⟩
    have : c.toNat ≤ 57 := h₅
    omega

/-- The digits of any script are digits of every base from ten on. -/
theorem letterDigit?_of_decimal (h : isDecimalDigit c = true) :
    ∃ d < 10, letterDigit? c = some d := by
  obtain ⟨d, hd⟩ := Option.isSome_iff_exists.mp h
  refine ⟨d, digit_lt_ten hd, ?_⟩
  have hnone {a b : Char} (ha : 58 ≤ a.toNat) (hb : b.toNat < 128) :
      ¬ (decide (a ≤ c) && decide (c ≤ b)) = true := by
    simpa only [Bool.and_eq_true, decide_eq_true_eq] using decimal_not_between h ha hb
  rw [letterDigit?, if_neg (hnone (by decide) (by decide)), if_neg (hnone (by decide) (by decide)),
    hd]

theorem letterDigit?_of_hex (h : isHexDigit c = true) : ∃ d < 16, letterDigit? c = some d := by
  simp only [isHexDigit, Bool.or_eq_true, Bool.and_eq_true, decide_eq_true_eq, Char.le_def,
    UInt32.le_iff_toNat_le] at h
  rcases h with (h | h) | h
  · have hdigit : isDecimalDigit c = true :=
      isDecimalDigit_of_isDigit (by simpa [Char.isDigit, UInt32.le_iff_toNat_le] using h)
    obtain ⟨d, hd, hc⟩ := letterDigit?_of_decimal hdigit
    exact ⟨d, by omega, hc⟩
  · have h₁ : 97 ≤ c.toNat := h.1
    have h₂ : c.toNat ≤ 102 := h.2
    refine ⟨c.toNat - 87, by omega, ?_⟩
    rw [letterDigit?, if_pos]
    simp only [Bool.and_eq_true, decide_eq_true_eq, Char.le_def, UInt32.le_iff_toNat_le]
    exact ⟨h.1, Nat.le_trans h.2 (by decide)⟩
  · have h₁ : 65 ≤ c.toNat := h.1
    have h₂ : c.toNat ≤ 70 := h.2
    refine ⟨c.toNat - 55, by omega, ?_⟩
    rw [letterDigit?, if_neg, if_pos]
    · simp only [Bool.and_eq_true, decide_eq_true_eq, Char.le_def, UInt32.le_iff_toNat_le]
      exact ⟨h.1, Nat.le_trans h.2 (by decide)⟩
    · simp only [Bool.and_eq_true, decide_eq_true_eq, Char.le_def, UInt32.le_iff_toNat_le]
      rintro ⟨h₃, -⟩
      have : 97 ≤ c.toNat := h₃
      omega

theorem digitRun?_some {digit? : Char → Option Nat} (hne : cs ≠ []) (hu : '_' ∉ cs)
    (h : ∀ c ∈ cs, ∃ d, digit? c = some d) :
    ∃ ds, Reading.digitRun? digit? cs = some ds ∧ ds.length = cs.length := by
  refine ⟨_, Reading.digitRun?_eq (f := fun c => (digit? c).getD 0) hne hu fun c hc => ?_,
    List.length_map _⟩
  obtain ⟨d, hd⟩ := h c hc
  rw [hd, Option.getD_some]

/-- A character that is neither a blank nor a sign nor an underscore. -/
def Figure (c : Char) : Prop := isWhiteSpace c = false ∧ c ∉ ['-', '+', '_']

instance : DecidablePred Figure := fun c =>
  inferInstanceAs (Decidable (isWhiteSpace c = false ∧ c ∉ ['-', '+', '_']))

theorem figure_of_decimal (h : isDecimalDigit c = true) : Figure c := by
  have hne {d : Char} (hd : isDecimalDigit d = false) : c ≠ d := by
    rintro rfl
    rw [h] at hd
    cases hd
  refine ⟨?_, ?_⟩
  · cases hs : isWhiteSpace c with
    | false => rfl
    | true =>
      rw [isDecimalDigit_of_isSpace (isSpace_of_isWhiteSpace hs)] at h
      cases h
  · simp [hne (d := '-') (by decide), hne (d := '+') (by decide),
      hne (d := '_') (by decide)]

theorem figure_of_hex (h : isHexDigit c = true) : Figure c := by
  have hle : c.toNat < 128 := by
    simp only [isHexDigit, Bool.or_eq_true, Bool.and_eq_true, decide_eq_true_eq, Char.le_def,
      UInt32.le_iff_toNat_le] at h
    rcases h with (h | h) | h
    · exact Nat.lt_of_le_of_lt h.2 (by decide)
    · exact Nat.lt_of_le_of_lt h.2 (by decide)
    · exact Nat.lt_of_le_of_lt h.2 (by decide)
  have key : ∀ n < 128, isHexDigit (Char.ofNat n) = true → Figure (Char.ofNat n) := by decide
  have := key c.toNat hle
  rw [Char.ofNat_toNat] at this
  exact this h

theorem takeSign_figures (h : ∀ c ∈ cs, Figure c) : Reading.takeSign cs = (false, cs) := by
  unfold Reading.takeSign
  split
  · exact absurd (h '-' List.mem_cons_self) (by decide)
  · exact absurd (h '+' List.mem_cons_self) (by decide)
  · rfl

/-- **An integer of a base** has a value, if it is not too long. -/
theorem readInt_ok {base : Nat} (hfig : ∀ c ∈ cs, Figure c)
    (hds : Reading.dropBaseMark base cs = ds) (hsub : ds ⊆ cs) (hne : ds ≠ [])
    (hd : ∀ c ∈ ds, ∃ d < base, letterDigit? c = some d)
    (hlen : base = 10 → ds.length ≤ Reading.digitLimit) :
    ∃ n, Reading.readInt base cs = .ok n := by
  have hu : '_' ∉ ds := fun h => absurd (hfig '_' (hsub h)) (by decide)
  have hdigit : ∀ c ∈ ds, ∃ d,
      ((letterDigit? c).bind fun d => if d < base then some d else none) = some d := by
    intro c hc
    obtain ⟨d, hlt, hd⟩ := hd c hc
    exact ⟨d, by simp [hd, hlt]⟩
  obtain ⟨vs, hvs, hvlen⟩ := digitRun?_some hne hu hdigit
  have hshort : ¬ (decide (base = 10) && decide (Reading.digitLimit < vs.length)) = true := by
    rw [hvlen]
    intro h
    simp only [Bool.and_eq_true, decide_eq_true_eq] at h
    exact absurd h.2 (Nat.not_lt.mpr (hlen h.1))
  refine ⟨Reading.ofDigits base vs, ?_⟩
  simp only [Reading.readInt, Reading.stripped_of_no_space fun c hc => (hfig c hc).1,
    takeSign_figures hfig, hds, hvs, hshort, if_false, Bool.false_eq_true]

theorem splitAt?_none {p : Char → Bool} (h : ∀ c ∈ cs, p c = false) :
    Reading.splitAt? p cs = (cs, none) := by
  have : cs.dropWhile (fun c => !p c) = [] := List.dropWhile_eq_nil_iff.mpr (by simpa using h)
  simp only [Reading.splitAt?, this]

theorem splitAt?_some {p : Char → Bool} (h : ∀ c ∈ cs, p c = false) (hc : p c = true) :
    Reading.splitAt? p (cs ++ c :: ds) = (cs, some ds) := by
  have hall : ∀ a ∈ cs, (!p a) = true := by simpa using h
  have hdrop : (cs ++ c :: ds).dropWhile (fun c => !p c) = c :: ds := by
    rw [List.dropWhile_append_of_pos hall, List.dropWhile_cons_of_neg (by simp [hc])]
  have htake : (cs ++ c :: ds).takeWhile (fun c => !p c) = cs := by
    rw [List.takeWhile_append_of_pos hall, List.takeWhile_cons_of_neg (by simp [hc]),
      List.append_nil]
  simp only [Reading.splitAt?, hdrop, htake]

theorem digitRun?_digitsOf (h : Digits cs) (hne : cs ≠ []) :
    ∃ vs, Reading.digitRun? decimalDigit? cs = some vs ∧ vs.length = cs.length :=
  digitRun?_some hne (h.ne (by decide)) fun c hc => Option.isSome_iff_exists.mp (h c hc)

theorem optionalRun?_some (h : Digits cs) :
    ∃ vs, Reading.optionalRun? cs = some vs ∧ vs.length = cs.length := by
  unfold Reading.optionalRun?
  split_ifs with hn
  · exact ⟨[], rfl, by simp [List.isEmpty_iff.mp hn]⟩
  · exact digitRun?_digitsOf h (by simpa using hn)

/-- The exponent behind a mantissa without the mark of one. -/
theorem exponent?_some {ms xs : List Char} (hx : Exponent xs) (hm : ∀ c ∈ ms, c ≠ 'e' ∧ c ≠ 'E') :
    ∃ tail x, Reading.splitAt? (fun c => c == 'e' || c == 'E') (ms ++ xs) = (ms, tail) ∧
      Reading.exponent? tail = some x := by
  have hms : ∀ c ∈ ms, (c == 'e' || c == 'E') = false := by simpa using hm
  cases hx with
  | none => exact ⟨none, 0, by rw [List.append_nil]; exact splitAt?_none hms, rfl⟩
  | @plain e ds he hd hne =>
    obtain ⟨vs, hvs, -⟩ := digitRun?_digitsOf hd hne
    refine ⟨some ds, Reading.ofDigits 10 vs, splitAt?_some hms (by simpa using he), ?_⟩
    simp only [Reading.exponent?, takeSign_figures fun c hc => figure_of_decimal (hd c hc), hvs]
    rfl
  | @signed e s ds he hs hd hne =>
    obtain ⟨vs, hvs, -⟩ := digitRun?_digitsOf hd hne
    refine ⟨some (s :: ds), if s = '-' then -Reading.ofDigits 10 vs else Reading.ofDigits 10 vs,
      splitAt?_some hms (by simpa using he), ?_⟩
    rcases hs with rfl | rfl
    · simp only [Reading.exponent?, Reading.takeSign, hvs]
      rfl
    · simp only [Reading.exponent?, Reading.takeSign, hvs]
      rfl

/-- What stands in a decimal numeral, apart from its digits. -/
def decimalMarks : List Char := ['.', 'e', 'E', '+', '-']

theorem plain_of_decimalMarks {c : Char} (h : c ∈ decimalMarks) :
    isWhiteSpace c = false ∧ isDigit c = false := by
  simp only [decimalMarks, List.mem_cons, List.not_mem_nil, or_false] at h
  rcases h with rfl | rfl | rfl | rfl | rfl <;> decide

theorem decimal_chars {ws fs xs : List Char} (hw : Digits ws) (hf : Fraction fs) (hx : Exponent xs) :
    ∀ c ∈ ws ++ fs ++ xs, isDecimalDigit c = true ∨ c ∈ decimalMarks := by
  intro c hc
  rw [List.mem_append, List.mem_append] at hc
  rcases hc with (hc | hc) | hc
  · exact Or.inl (hw c hc)
  · cases hf with
    | none => cases hc
    | some hd =>
      rcases List.mem_cons.mp hc with rfl | hc
      · exact Or.inr (by decide)
      · exact Or.inl (hd c hc)
  · cases hx with
    | none => cases hc
    | plain he hd hne =>
      rcases List.mem_cons.mp hc with rfl | hc
      · exact Or.inr (by rcases he with rfl | rfl <;> decide)
      · exact Or.inl (hd c hc)
    | signed he hs hd hne =>
      rcases List.mem_cons.mp hc with rfl | hc
      · exact Or.inr (by rcases he with rfl | rfl <;> decide)
      · rcases List.mem_cons.mp hc with rfl | hc
        · exact Or.inr (by rcases hs with rfl | rfl <;> decide)
        · exact Or.inl (hd c hc)

/-- A decimal fraction starts with a digit or a point. -/
theorem decimal_head {ws fs : List Char} (hw : Digits ws) (hf : Fraction fs)
    (hne : ws ++ fs.drop 1 ≠ []) (xs : List Char) :
    ∃ h tl, ws ++ fs ++ xs = h :: tl ∧ (isDecimalDigit h = true ∨ h = '.') := by
  cases ws with
  | cons w ws => exact ⟨w, _, rfl, Or.inl (hw w List.mem_cons_self)⟩
  | nil =>
    cases hf with
    | none => exact absurd rfl hne
    | some hd => exact ⟨'.', _, rfl, Or.inr rfl⟩

theorem head_ne {h d : Char} (hhead : isDecimalDigit h = true ∨ h = '.')
    (hd : isDecimalDigit d = false) (hp : d ≠ '.') : h ≠ d := by
  rintro rfl
  rcases hhead with hh | hh
  · rw [hh] at hd
    cases hd
  · exact hp hh

theorem takeSign_of_head {h : Char} (hhead : isDecimalDigit h = true ∨ h = '.') (tl : List Char) :
    Reading.takeSign (h :: tl) = (false, h :: tl) := by
  unfold Reading.takeSign
  split
  · exact absurd (List.cons.inj ‹_›).1 (head_ne hhead (by decide) (by decide))
  · exact absurd (List.cons.inj ‹_›).1 (head_ne hhead (by decide) (by decide))
  · rfl

/-- No decimal fraction is a word for a number. -/
theorem lowered_ne {h : Char} (hhead : isDecimalDigit h = true ∨ h = '.') (tl : List Char)
    {s : String} {d : Char} {ds : List Char} (hs : s.toList = d :: ds) (hd : d = 'i' ∨ d = 'n') :
    String.ofList ((h :: tl).map Char.toLower) ≠ s := by
  have hupper : ¬ ('A' ≤ h ∧ h ≤ 'Z') := by
    rcases hhead with hh | rfl
    · exact decimal_not_between hh (by decide) (by decide)
    · decide
  have hlower : h.toLower = h := by
    unfold Char.toLower
    exact dif_neg hupper
  intro heq
  have := congrArg String.toList heq
  rw [String.toList_ofList, hs, List.map_cons, hlower] at this
  rcases hd with rfl | rfl <;> exact head_ne hhead (by decide) (by decide) (List.cons.inj this).1

/-- In front of an exponent there is no letter that starts one. -/
theorem mantissa_ne {ws fs : List Char} (hw : Digits ws) (hf : Fraction fs) :
    ∀ c ∈ ws ++ fs, c ≠ 'e' ∧ c ≠ 'E' := by
  have digits {ds : List Char} (hd : Digits ds) : ∀ c ∈ ds, c ≠ 'e' ∧ c ≠ 'E' := fun c hc =>
    ⟨fun h => hd.ne (by decide) (h ▸ hc), fun h => hd.ne (by decide) (h ▸ hc)⟩
  intro c hc
  rcases List.mem_append.mp hc with hc | hc
  · exact digits hw c hc
  · cases hf with
    | none => cases hc
    | some hd =>
      rcases List.mem_cons.mp hc with rfl | hc
      · decide
      · exact digits hd c hc

/-- A decimal fraction is split at its point. -/
theorem splitAt?_mantissa {ws fs : List Char} (hw : Digits ws) (hf : Fraction fs) :
    ∃ fraction us, Reading.splitAt? (· == '.') (ws ++ fs) = (ws, fraction) ∧
      Reading.optionalRun? (fraction.getD []) = some us ∧ us.length = (fs.drop 1).length := by
  have hws : ∀ c ∈ ws, (c == '.') = false := by
    intro c hc
    exact beq_false_of_ne fun h => hw.ne (by decide) (h ▸ hc)
  cases hf with
  | none => exact ⟨none, [], by rw [List.append_nil]; exact splitAt?_none hws, rfl, rfl⟩
  | @some ds hd =>
    obtain ⟨us, hus, hlen⟩ := optionalRun?_some hd
    exact ⟨some ds, us, splitAt?_some hws (by decide), hus, hlen⟩

/-- **A decimal fraction** has a value. -/
theorem readFloat?_some {ws fs xs : List Char} (hw : Digits ws) (hf : Fraction fs)
    (hx : Exponent xs) (hne : ws ++ fs.drop 1 ≠ []) :
    ∃ x, Reading.readFloat? (ws ++ fs ++ xs) = some x := by
  have hspace : ∀ c ∈ ws ++ fs ++ xs, isWhiteSpace c = false := by
    intro c hc
    rcases decimal_chars hw hf hx c hc with hd | hm
    · exact (figure_of_decimal hd).1
    · exact (plain_of_decimalMarks hm).1
  obtain ⟨h, tl, hcons, hhead⟩ := decimal_head hw hf hne xs
  have hsign : Reading.takeSign (ws ++ fs ++ xs) = (false, ws ++ fs ++ xs) := by
    rw [hcons]
    exact takeSign_of_head hhead tl
  have hword {s : String} {d : Char} {ds : List Char} (hs : s.toList = d :: ds)
      (hd : d = 'i' ∨ d = 'n') : String.ofList ((ws ++ fs ++ xs).map Char.toLower) ≠ s := by
    rw [hcons]
    exact lowered_ne hhead tl hs hd
  obtain ⟨tail, e, htail, he⟩ := exponent?_some hx (mantissa_ne hw hf)
  obtain ⟨vs, hvs, hvlen⟩ := optionalRun?_some hw
  obtain ⟨fraction, us, hsplit, hus, hulen⟩ := splitAt?_mantissa hw hf
  have hsome : ¬ (vs.isEmpty && us.isEmpty) = true := by
    intro h
    simp only [Bool.and_eq_true, List.isEmpty_iff] at h
    rw [h.1] at hvlen
    rw [h.2] at hulen
    refine hne (List.append_eq_nil_iff.mpr ⟨?_, ?_⟩)
    · exact List.length_eq_zero_iff.mp hvlen.symm
    · exact List.length_eq_zero_iff.mp hulen.symm
  refine ⟨Reading.ofDecimal false (vs ++ us) (e - us.length), ?_⟩
  unfold Reading.readFloat?
  simp only [Reading.stripped_of_no_space hspace, hsign]
  rw [if_neg, if_neg (hword (show "nan".toList = 'n' :: ['a', 'n'] from rfl) (Or.inr rfl))]
  · simp only [htail, hsplit, hvs, hus, he, Option.bind_eq_bind, Option.bind_some, hsome, if_false,
      Bool.false_eq_true]
    rfl
  · simp only [Bool.or_eq_true, decide_eq_true_eq]
    rintro (h | h)
    · exact hword (show "inf".toList = 'i' :: ['n', 'f'] from rfl) (Or.inl rfl) h
    · exact hword (show "infinity".toList = 'i' :: "nfinity".toList from rfl) (Or.inl rfl) h

theorem ofNumeral_hex {m : Char} {ds : List Char} (hm : m = 'x' ∨ m = 'X')
    (hd : ∀ c ∈ ds, isHexDigit c = true) (hne : ds ≠ []) :
    ∃ v, Number.ofNumeral (String.ofList ('0' :: m :: ds)) = .ok v := by
  have hfig : ∀ c ∈ '0' :: m :: ds, Figure c := by
    simp only [List.forall_mem_cons]
    exact ⟨by decide, by rcases hm with rfl | rfl <;> decide, fun c hc => figure_of_hex (hd c hc)⟩
  have hmark : Reading.dropBaseMark 16 ('0' :: m :: ds) = ds := by
    unfold Reading.dropBaseMark
    simp only
    rw [if_pos (by rcases hm with rfl | rfl <;> decide)]
    split
    · exact absurd (hfig '_' (by simp)) (by decide)
    · rfl
  obtain ⟨n, hn⟩ := readInt_ok hfig hmark (by simp) hne
    (fun c hc => letterDigit?_of_hex (hd c hc)) (by rintro ⟨⟩)
  refine ⟨.int n, ?_⟩
  unfold Number.ofNumeral
  rw [String.toList_ofList]
  dsimp only
  rw [if_pos (by simpa using hm), hn]
  rfl

theorem ofNumeral_binary {m : Char} {ds : List Char} (hm : m = 'b' ∨ m = 'B')
    (hd : ∀ c ∈ ds, c = '0' ∨ c = '1') (hne : ds ≠ []) :
    ∃ v, Number.ofNumeral (String.ofList ('0' :: m :: ds)) = .ok v := by
  have hfig : ∀ c ∈ ds, Figure c := by
    intro c hc
    rcases hd c hc with rfl | rfl <;> decide
  have hmark : Reading.dropBaseMark 2 ds = ds := by
    unfold Reading.dropBaseMark
    split
    · rename_i m rest
      rw [if_neg]
      rcases hd m (by simp) with rfl | rfl <;> decide
    · rfl
  obtain ⟨n, hn⟩ := readInt_ok hfig hmark (fun _ h => h) hne (fun c hc => by
    rcases hd c hc with rfl | rfl
    · exact ⟨0, by decide, by decide⟩
    · exact ⟨1, by decide, by decide⟩) (by rintro ⟨⟩)
  refine ⟨.int n, ?_⟩
  unfold Number.ofNumeral
  rw [String.toList_ofList]
  dsimp only
  rw [if_neg (by rcases hm with rfl | rfl <;> simp), if_pos (by simpa using hm)]
  rw [List.drop_succ_cons, List.drop_succ_cons, List.drop_zero, hn]
  rfl

theorem ofNumeral_decimal {ws fs xs : List Char} (hw : Digits ws) (hf : Fraction fs)
    (hx : Exponent xs) (hne : ws ++ fs.drop 1 ≠ [])
    (hlen : (ws ++ fs ++ xs).all isDecimalDigit = true →
      (ws ++ fs ++ xs).length ≤ Reading.digitLimit) :
    ∃ v, Number.ofNumeral (String.ofList (ws ++ fs ++ xs)) = .ok v := by
  have hchars := decimal_chars hw hf hx
  have hmark {d : Char} (hd : isDecimalDigit d = false) (hm : d ∉ decimalMarks) :
      d ∉ ws ++ fs ++ xs := fun h => (hchars d h).elim (fun h => by rw [hd] at h; cases h) hm
  unfold Number.ofNumeral
  rw [String.toList_ofList]
  dsimp only
  rw [if_neg, if_neg]
  · split_ifs with hall
    · simp only [Bool.and_eq_true, List.all_eq_true] at hall
      have hdigits : Digits (ws ++ fs ++ xs) := fun c hc => (hchars c hc).resolve_right
        fun hm => absurd ((plain_of_decimalMarks hm).2.symm.trans (hall.2 c hc)) (by decide)
      obtain ⟨n, hn⟩ : ∃ n, Reading.readInt 10 _ = .ok n := readInt_ok
        (fun c hc => figure_of_decimal (hdigits c hc))
        (by unfold Reading.dropBaseMark; split <;> rfl) (fun _ h => h) (by simpa using hall.1)
        (fun c hc => letterDigit?_of_decimal (hdigits c hc))
        fun _ => hlen (List.all_eq_true.mpr hdigits)
      exact ⟨.int n, by rw [hn]; rfl⟩
    · obtain ⟨x, hx⟩ := readFloat?_some hw hf hx hne
      exact ⟨.float x, by rw [Reading.readFloat, hx]; rfl⟩
  all_goals
    split
    · rename_i m ds heq
      have hm : m ∈ ws ++ fs ++ xs := by simp [heq]
      simp only [Bool.or_eq_true, beq_iff_eq]
      rintro (rfl | rfl)
      · exact hmark (by decide) (by decide) hm
      · exact hmark (by decide) (by decide) hm
    · decide

/-- **Every numeral has a value**, if it is no integer with too many decimal digits. -/
theorem ofNumeral_numeral (h : Numeral cs)
    (hlen : cs.all isDecimalDigit = true → cs.length ≤ Reading.digitLimit) :
    ∃ v, Number.ofNumeral (String.ofList cs) = .ok v := by
  cases h with
  | hex hm hd hne => exact ofNumeral_hex hm hd hne
  | binary hm hd hne => exact ofNumeral_binary hm hd hne
  | decimal hw hf hx hne => exact ofNumeral_decimal hw hf hx hne hlen

end LedSketch.Grammar
