import LedSketch.Proofs.Grammar.Enclosed

/-!
# Reading marks, words and numbers

Each lexeme of code leads from a place between two lexemes to the next one, with the same braces and
bodies open.

* `Plain`: a lexeme that leaves the reader between two lexemes.
* `plain_literal`, `plain_word`, `plain_identifier?`, …: the lexemes of the grammar that are plain.
* `along_numeral`: numerals, which the scanner may cut in other places than the grammar.
* `along_property`: member names, which may be names of any kind, or part of a number.
-/

namespace LedSketch.Grammar

open Text Scan Scanner Dialect

variable {F : Frame} {ok : Option Bool → Prop} {r : Reader} {c : Char} {cs ds xs w : List Char}

/-- A lexeme that is read as code and leaves the reader between two lexemes. -/
def Plain (ok : Option Bool → Prop) (m : Lexeme) : Prop :=
  ∀ F cs n, m cs = some n → ∀ r, At F ok r cs →
    ∃ r', Along r cs (List.replicate n .code) r' (cs.drop n) ∧ At F ok r' (cs.drop n)

/-! ## Marks -/

/-- A character of code that is read by itself and means nothing to the scanner. -/
def isMarkChar (c : Char) : Bool :=
  isOrdinary c && !isNumberChar c && !isNameStart c && !isDecimalDigit c

theorem isMark_of_isMarkChar (h : isMarkChar c = true) : IsMark c := by
  simp only [isMarkChar, isOrdinary, Bool.and_eq_true, Bool.not_eq_true', List.contains_eq_mem,
    decide_eq_false_iff_not, List.mem_cons, List.not_mem_nil, or_false, not_or] at h
  obtain ⟨⟨⟨⟨h₁, h₂, h₃, h₄, h₅, h₆⟩, -⟩, h₇⟩, h₈⟩ := h
  exact isMark_of_ne h₁ h₂ h₃ h₄ (by simp [Quote.ofChar?, h₅, h₆]) h₇ h₈

theorem along_markChar (h : At F ok r (c :: cs)) (hc : isMarkChar c = true)
    (hok : c = ';' → ok none) : ∃ r', Along r (c :: cs) [.code] r' cs ∧ Inside .code F ok r' := by
  have hmark := isMark_of_isMarkChar hc
  simp only [isMarkChar, Bool.and_eq_true, Bool.not_eq_true'] at hc
  exact along_mark h hmark hc.1.1.2 hc.2 hc.1.2 hok

/-- The marks that may stand anywhere, also in front of the body of a function. -/
def plainMarks : List Char :=
  ['(', ')', '[', ']', ',', ':', '?', '=', '!', '<', '>', '+', '-', '*', '%', '&', '|', '^', '~']

theorem isMarkChar_of_lt (h : c.toNat < 0xAA) :
    isMarkChar c = (isOrdinary c && !(isAsciiAlnum c || c == '_' || c == '.') && !isNameStart c &&
      !isDecimalDigit c) := by
  rw [isMarkChar, isNumberChar_of_lt h]

theorem isMarkChar_of_mem (h : c ∈ plainMarks) : isMarkChar c = true := by
  have hlt : plainMarks.all (·.toNat < 0xAA) = true := by decide
  have key : plainMarks.all (fun c => isOrdinary c &&
      !(isAsciiAlnum c || c == '_' || c == '.') && !isNameStart c && !isDecimalDigit c) = true := by
    decide
  rw [isMarkChar_of_lt (by simpa using List.all_eq_true.mp hlt c h)]
  exact List.all_eq_true.mp key c h

/-- Whether a text consists of such marks. -/
def marks (xs : List Char) : Bool := xs.all plainMarks.contains

theorem along_marks (h : At F ok r (xs ++ ds)) (hx : marks xs = true) :
    ∃ r', Along r (xs ++ ds) (List.replicate xs.length .code) r' ds ∧ At F ok r' ds := by
  induction xs generalizing r with
  | nil => exact ⟨r, .refl r ds, h⟩
  | cons c xs ih =>
    simp only [marks, List.all_cons, Bool.and_eq_true, List.contains_iff_mem] at hx
    obtain ⟨r₁, h₁, hr₁⟩ := along_markChar h (isMarkChar_of_mem hx.1) fun hc =>
      absurd (hc ▸ hx.1) (by decide)
    obtain ⟨r₂, h₂, hr₂⟩ := ih (hr₁.at _) hx.2
    refine ⟨r₂, ?_, hr₂⟩
    rw [List.length_cons, Nat.add_comm]
    exact Along.join h₁ h₂

theorem literal_eq_some {s : String} {n : Nat} (h : Lexeme.literal s cs = some n) :
    cs = s.toList ++ cs.drop n ∧ n = s.toList.length := by
  unfold Lexeme.literal at h
  split_ifs at h with hp
  obtain ⟨ds, rfl⟩ := List.isPrefixOf_iff_prefix.mp hp
  cases h
  exact ⟨by rw [List.drop_left], rfl⟩

theorem notBefore_eq_some {stop s : String} {n : Nat}
    (h : Lexeme.notBefore stop s cs = some n) :
    Lexeme.literal s cs = some n ∧ startsWith stop.toList.contains (cs.drop n) = false := by
  unfold Lexeme.notBefore at h
  split at h
  · split_ifs at h with hs
    cases h
    exact ⟨‹_›, by simpa using hs⟩
  · cases h

theorem word_eq_some {s : String} {n : Nat} (h : Lexeme.word s cs = some n) :
    Lexeme.literal s cs = some n ∧ StopsRun isNameChar (cs.drop n) := by
  unfold Lexeme.word at h
  split at h
  · split_ifs at h with hs
    cases h
    refine ⟨‹_›, ?_⟩
    intro c hc
    cases hd : cs.drop n with
    | nil => rw [hd] at hc; cases hc
    | cons d ds =>
      rw [hd] at hc hs
      cases hc
      simpa [startsWith] using hs
  · cases h

theorem plain_literal {s : String} (hs : marks s.toList = true) : Plain ok (.literal s) := by
  intro F cs n h r hr
  obtain ⟨hcs, rfl⟩ := literal_eq_some h
  rw [hcs] at hr
  obtain ⟨r', h', hr'⟩ := along_marks hr hs
  rw [← hcs] at h'
  exact ⟨r', h', hr'⟩

theorem plain_notBefore {stop s : String} (hs : marks s.toList = true) :
    Plain ok (.notBefore stop s) :=
  fun F cs n h => plain_literal hs F cs n (notBefore_eq_some h).1

/-- The semicolon, which may end a prototype. -/
theorem plain_semicolon (hok : ok none) : Plain ok (.literal ";") := by
  intro F cs n h r hr
  obtain ⟨hcs, rfl⟩ := literal_eq_some h
  rw [hcs] at hr
  have hmark : isMarkChar ';' = true := by
    rw [isMarkChar_of_lt (by decide)]
    decide
  obtain ⟨r', h', hr'⟩ := along_markChar (c := ';') hr hmark fun _ => hok
  rw [hcs]
  exact ⟨r', h', hr'.at _⟩

/-- A slash that opens no comment. -/
theorem along_slash (h : At F ok r ('/' :: cs)) (h₁ : cs.head? ≠ some '/')
    (h₂ : cs.head? ≠ some '*') :
    ∃ r', Along r ('/' :: cs) [.code] r' cs ∧ Inside .code F ok r' := by
  have hstep := step_of_not_goesOn (not_goesOn (r := r) isNumberChar_slash) (by decide) cs
  rw [step_code h.code, stepCode_slash, if_neg h₁, if_neg h₂] at hstep
  have hname : isName ['/'] = false := by decide
  have halong := Along.single hstep
  simp only [Reader.take, takeOne, hname] at halong
  exact ⟨_, halong, h.toOpen.mark (c := '/') h.code (by rintro ⟨⟩)⟩

theorem plain_divide : Plain ok (.notBefore "=/*" "/") := by
  intro F cs n h r hr
  obtain ⟨hlit, hstop⟩ := notBefore_eq_some h
  obtain ⟨hcs, rfl⟩ := literal_eq_some hlit
  rw [hcs] at hr ⊢
  have hhead (d : Char) (hd : "=/*".toList.contains d = true) :
      (cs.drop "/".toList.length).head? ≠ some d := by
    intro he
    obtain ⟨ds, hds⟩ := List.head?_eq_some_iff.mp he
    rw [hds, startsWith, hd] at hstop
    cases hstop
  obtain ⟨r', h', hr'⟩ := along_slash hr (hhead '/' (by decide)) (hhead '*' (by decide))
  exact ⟨r', h', hr'.at _⟩

theorem plain_divideAssign : Plain ok (.notBefore "=" "/=") := by
  intro F cs n h r hr
  obtain ⟨hcs, rfl⟩ := literal_eq_some (notBefore_eq_some h).1
  rw [hcs] at hr ⊢
  change At F ok r ('/' :: '=' :: _) at hr
  obtain ⟨r₁, h₁, hr₁⟩ := along_slash hr nofun nofun
  obtain ⟨r₂, h₂, hr₂⟩ := along_markChar (c := '=') (hr₁.at _) (isMarkChar_of_mem (by decide)) nofun
  exact ⟨r₂, h₁.trans h₂, hr₂.at _⟩

theorem plain_firstOf {ms : List Lexeme} (h : ∀ m ∈ ms, Plain ok m) : Plain ok (.firstOf ms) := by
  intro F cs n hn
  obtain ⟨m, hm, hmn⟩ := List.exists_of_findSome?_eq_some hn
  exact h m hm F cs n hmn

/-! ## Blanks before a lexeme -/

theorem along_spaces (h : At F ok r (xs ++ ds)) (hx : ∀ c ∈ xs, isSpace c = true) :
    ∃ r', Along r (xs ++ ds) (List.replicate xs.length .code) r' ds ∧ At F ok r' ds := by
  induction xs generalizing r with
  | nil => exact ⟨r, .refl r ds, h⟩
  | cons c xs ih =>
    obtain ⟨r₁, h₁, hs₁, hi₁⟩ := along_space h.code (hx c List.mem_cons_self) (xs ++ ds)
    obtain ⟨r₂, h₂, hr₂⟩ :=
      ih (h.toOpen.at hs₁ (hi₁.between _)) fun d hd => hx d (List.mem_cons_of_mem c hd)
    refine ⟨r₂, ?_, hr₂⟩
    rw [List.length_cons, Nat.add_comm]
    exact Along.join h₁ h₂

/-- The blanks that a run counts. -/
theorem along_runLength {p : Char → Bool} (hp : ∀ c, p c = true → isSpace c = true)
    (h : At F ok r cs) :
    ∃ r', Along r cs (List.replicate (runLength p cs) .code) r' (cs.drop (runLength p cs)) ∧
      At F ok r' (cs.drop (runLength p cs)) := by
  have hsplit : cs.takeWhile p ++ cs.dropWhile p = cs := List.takeWhile_append_dropWhile
  rw [← hsplit] at h
  obtain ⟨r', h', hr'⟩ := along_spaces h fun c hc => hp c (List.mem_takeWhile_imp hc)
  rw [hsplit] at h'
  rw [show cs.drop (runLength p cs) = cs.dropWhile p from drop_length_takeWhile p cs]
  exact ⟨r', h', hr'⟩

theorem plain_indented {m : Lexeme} (hm : Plain ok m) : Plain ok (.indented m) := by
  intro F cs n h r hr
  obtain ⟨k, hk, rfl⟩ := Option.map_eq_some_iff.mp h
  obtain ⟨r₁, h₁, hr₁⟩ := along_runLength (fun _ => isSpace_of_isHorizontal) hr
  obtain ⟨r₂, h₂, hr₂⟩ := hm F _ k hk r₁ hr₁
  rw [List.drop_drop] at h₂ hr₂
  exact ⟨r₂, h₁.join h₂, hr₂⟩

theorem plain_sameLine : Plain ok sameLine? := by
  intro F cs n h r hr
  unfold sameLine? at h
  dsimp only at h
  split_ifs at h
  cases h
  exact along_runLength (fun _ => isSpace_of_isHorizontal) hr

theorem plain_trailingComma : Plain ok trailingComma? := by
  intro F cs n h r hr
  unfold trailingComma? at h
  dsimp only at h
  split_ifs at h with hcomma
  cases h
  obtain ⟨r₁, h₁, hr₁⟩ := along_runLength (fun _ => isSpace_of_isWhiteSpace) hr
  cases hd : cs.drop (runLength isWhiteSpace cs) with
  | nil => rw [hd] at hcomma; cases hcomma
  | cons c ds =>
    rw [hd] at hcomma h₁ hr₁
    obtain rfl : c = ',' := by simpa [startsWith] using hcomma
    obtain ⟨r₂, h₂, hr₂⟩ := along_markChar hr₁ (isMarkChar_of_mem (by decide)) (by rintro ⟨⟩)
    rw [← List.drop_drop, hd, List.drop_one, List.tail_cons]
    exact ⟨r₂, h₁.join h₂, hr₂.at ds⟩

/-! ## Words -/

theorem not_goesOn_of_isNameStart (h : Between r (c :: cs)) (hc : isNameStart c = true) :
    ¬ r.GoesOn c := by
  rintro ⟨-, hn, hnum⟩
  have hw : isWordChar c = false := h.2 hn c rfl
  have hdot : c ≠ '.' := by
    rintro rfl
    revert hc
    decide
  simp [isNumberChar, hw, hdot] at hnum

/-- **A name is read whole.** -/
theorem step_word (hm : r.scanner.mode = .code) (hw : isName w = true)
    (hg : ∀ c ∈ w.head?, ¬ r.GoesOn c) (hds : StopsRun isNameChar ds) :
    Along r (w ++ ds) (List.replicate w.length .code)
      ({ r with inNumber := false }.word (r.members (w ++ ds).length) w) ds := by
  cases w with
  | nil => cases hw
  | cons c w => exact Along.single (Reader.step_of_name hm hw (hg c rfl) hds)

/-- What an ordinary name comes to. -/
theorem Open.word {member : Bool} (h : Open F ok r) (hm : r.scanner.mode = .code)
    (hf : String.ofList w ≠ "function") (ha : String.ofList w = "async" → member = true) :
    Inside .code F ok ({ r with inNumber := false }.word member w) := by
  unfold Reader.word
  rw [if_neg hf]
  split_ifs with h₁ h₂
  · exact ⟨⟨h.depth, h.bodies, h.interpolations, h.pending, nofun⟩, hm, rfl⟩
  · exact absurd (ha h₁) (by simpa using h₂)
  · exact ⟨⟨h.depth, h.bodies, h.interpolations, h.pending, nofun⟩, hm, rfl⟩

/-- **An ordinary name** leaves everything open as it is. -/
theorem along_name (h : At F ok r (w ++ ds)) (hw : isName w = true) (hds : StopsRun isNameChar ds)
    (hf : String.ofList w ≠ "function") (ha : String.ofList w ≠ "async") :
    ∃ r', Along r (w ++ ds) (List.replicate w.length .code) r' ds ∧ Inside .code F ok r' := by
  cases w with
  | nil => cases hw
  | cons c w =>
    have hc := (isName_cons.mp hw).1
    have hg : ∀ d ∈ (c :: w).head?, ¬ r.GoesOn d := by
      rintro d ⟨⟩
      exact not_goesOn_of_isNameStart h.between hc
    exact ⟨_, step_word h.code hw hg hds,
      h.toOpen.word h.code hf fun he => absurd he ha⟩

theorem plain_word {s : String} (hs : isName s.toList = true) (hf : s ≠ "function")
    (ha : s ≠ "async") : Plain ok (.word s) := by
  intro F cs n h r hr
  obtain ⟨hlit, hstop⟩ := word_eq_some h
  obtain ⟨hcs, rfl⟩ := literal_eq_some hlit
  rw [hcs] at hr
  obtain ⟨r', h', hr'⟩ := along_name hr hs hstop (by simpa using hf) (by simpa using ha)
  rw [← hcs] at h'
  exact ⟨r', h', hr'.at _⟩

/-- A name is taken as far as names go on. -/
theorem takeWhile_name {w ds : List Char} (hw : isName w = true) (hds : StopsRun isNameChar ds) :
    (w ++ ds).takeWhile isNameChar = w := by
  refine takeWhile_append_of_stopsRun ?_ hds
  intro d hd
  cases w with
  | nil => cases hd
  | cons c w =>
    obtain ⟨hc, hall⟩ := isName_cons.mp hw
    rcases List.mem_cons.mp hd with rfl | hd
    · exact isNameChar_of_isNameStart hc
    · exact hall d hd

/-- A name that is taken by its length. -/
theorem property?_eq_some {n : Nat} (h : property? cs = some n) :
    isName (cs.take n) = true ∧ StopsRun isNameChar (cs.drop n) ∧ (cs.take n).length = n := by
  cases cs with
  | nil => cases h
  | cons c cs =>
    simp only [property?] at h
    split_ifs at h with hc
    cases h
    rw [List.take_succ_cons, List.drop_succ_cons, take_runLength,
      show cs.drop (runLength isNameChar cs) = cs.dropWhile isNameChar from
        drop_length_takeWhile _ cs]
    exact ⟨isName_cons.mpr ⟨hc, fun d => List.mem_takeWhile_imp⟩, stopsRun_dropWhile _ cs, rfl⟩

theorem take_ne_nil_of_property? {n : Nat} (h : property? cs = some n) : cs.take n ≠ [] := by
  intro hnil
  have hw := (property?_eq_some h).1
  rw [hnil] at hw
  cases hw

theorem plain_identifier : Plain ok identifier? := by
  intro F cs n h r hr
  unfold identifier? at h
  split at h
  · rename_i k hk
    split_ifs at h with hres
    cases h
    obtain ⟨hw, hstop, hlen⟩ := property?_eq_some hk
    have hne (v : String) (hv : v ∈ reservedWords) : String.ofList (cs.take n) ≠ v := by
      rintro rfl
      simp [hv] at hres
    rw [← List.take_append_drop n cs] at hr
    obtain ⟨r', h', hr'⟩ :=
      along_name hr hw hstop (hne "function" (by decide)) (hne "async" (by decide))
    rw [List.take_append_drop, hlen] at h'
    exact ⟨r', h', hr'.at _⟩
  · cases h

/-! ## Numbers -/

/-- The reader is in code, in the middle of a number. -/
structure InNumber (F : Frame) (ok : Option Bool → Prop) (r : Reader) : Prop
    extends Open F ok r where
  mode : r.scanner.mode = .code
  number : r.inNumber = true

theorem along_numberChar (h : Open F ok r) (hg : r.GoesOn c) (cs : List Char) :
    ∃ r', Along r (c :: cs) [.code] r' cs ∧ InNumber F ok r' := by
  have hstep : r.step c cs = ⟨.code, [c], cs, { r with lead := .other }⟩ := by
    unfold Reader.step
    rw [if_pos hg]
  exact ⟨_, Along.single hstep, ⟨h.depth, h.bodies, h.interpolations, h.pending, nofun⟩, hg.1,
    hg.2.1⟩

theorem InNumber.char (h : InNumber F ok r) (hc : isNumberChar c = true) (cs : List Char) :
    ∃ r', Along r (c :: cs) [.code] r' cs ∧ InNumber F ok r' :=
  along_numberChar h.toOpen ⟨h.mode, h.number, hc⟩ cs

theorem InNumber.chars (h : InNumber F ok r) (hx : ∀ c ∈ xs, isNumberChar c = true) (ds : List Char) :
    ∃ r', Along r (xs ++ ds) (List.replicate xs.length .code) r' ds ∧ InNumber F ok r' := by
  induction xs generalizing r with
  | nil => exact ⟨r, .refl r ds, h⟩
  | cons c xs ih =>
    obtain ⟨r₁, h₁, hr₁⟩ := h.char (hx c List.mem_cons_self) (xs ++ ds)
    obtain ⟨r₂, h₂, hr₂⟩ := ih hr₁ fun d hd => hx d (List.mem_cons_of_mem c hd)
    refine ⟨r₂, ?_, hr₂⟩
    rw [List.length_cons, Nat.add_comm]
    exact Along.join h₁ h₂

/-- A digit starts a number or goes on with one. -/
theorem along_digit (h : Open F ok r) (hm : r.scanner.mode = .code)
    (hc : isDecimalDigit c = true) (cs : List Char) :
    ∃ r', Along r (c :: cs) [.code] r' cs ∧ InNumber F ok r' := by
  by_cases hg : r.GoesOn c
  · exact along_numberChar h hg cs
  · have hstep : r.step c cs = ⟨.code, [c], cs, { r with inNumber := true, lead := .other }⟩ := by
      unfold Reader.step
      rw [if_neg hg, if_pos ⟨hm, hc⟩]
    exact ⟨_, Along.single hstep,
      ⟨h.depth, h.bodies, h.interpolations, h.pending, nofun⟩, hm, rfl⟩

theorem along_digits (h : Open F ok r) (hm : r.scanner.mode = .code) (xs : List Char) (hx : xs ≠ [])
    (hd : ∀ c ∈ xs, isDecimalDigit c = true) (ds : List Char) :
    ∃ r', Along r (xs ++ ds) (List.replicate xs.length .code) r' ds ∧ InNumber F ok r' := by
  induction xs generalizing r with
  | nil => exact absurd rfl hx
  | cons c xs ih =>
    obtain ⟨r₁, h₁, hr₁⟩ := along_digit h hm (hd c List.mem_cons_self) (xs ++ ds)
    rw [List.length_cons, Nat.add_comm]
    cases xs with
    | nil => exact ⟨r₁, h₁, hr₁⟩
    | cons d xs =>
      obtain ⟨r₂, h₂, hr₂⟩ :=
        ih hr₁.toOpen hr₁.mode nofun fun e he => hd e (List.mem_cons_of_mem c he)
      exact ⟨r₂, Along.join h₁ h₂, hr₂⟩

/-- The digits that a run counts. -/
theorem along_digitRun (h : Open F ok r) (hm : r.scanner.mode = .code)
    (hn : runLength isDecimalDigit cs ≠ 0) :
    ∃ r', Along r cs (List.replicate (runLength isDecimalDigit cs) .code) r'
        (cs.drop (runLength isDecimalDigit cs)) ∧ InNumber F ok r' := by
  have hsplit : cs.takeWhile isDecimalDigit ++ cs.dropWhile isDecimalDigit = cs :=
    List.takeWhile_append_dropWhile
  obtain ⟨r', h', hr'⟩ := along_digits h hm (cs.takeWhile isDecimalDigit)
    (fun he => hn (by simp [runLength, he])) (fun c => List.mem_takeWhile_imp)
    (cs.dropWhile isDecimalDigit)
  rw [hsplit] at h'
  rw [show cs.drop (runLength isDecimalDigit cs) = cs.dropWhile isDecimalDigit from
    drop_length_takeWhile _ cs]
  exact ⟨r', h', hr'⟩

theorem InNumber.runLength (h : InNumber F ok r) {p : Char → Bool}
    (hp : ∀ c, p c = true → isNumberChar c = true) (cs : List Char) :
    ∃ r', Along r cs (List.replicate (runLength p cs) .code) r' (cs.drop (runLength p cs)) ∧
      InNumber F ok r' := by
  have hsplit : cs.takeWhile p ++ cs.dropWhile p = cs := List.takeWhile_append_dropWhile
  obtain ⟨r', h', hr'⟩ :=
    h.chars (fun c hc => hp c (List.mem_takeWhile_imp hc)) (cs.dropWhile p)
  rw [hsplit] at h'
  rw [show cs.drop (Grammar.runLength p cs) = cs.dropWhile p from drop_length_takeWhile p cs]
  exact ⟨r', h', hr'⟩

/-- The digits that a run counts, if any. -/
theorem InNumber.digitRun (h : InNumber F ok r) (cs : List Char) :
    ∃ r', Along r cs (List.replicate (Grammar.runLength isDecimalDigit cs) .code) r'
        (cs.drop (Grammar.runLength isDecimalDigit cs)) ∧ InNumber F ok r' := by
  by_cases hn : Grammar.runLength isDecimalDigit cs = 0
  · rw [hn]
    exact ⟨r, .refl r cs, h⟩
  · exact along_digitRun h.toOpen h.mode hn

/-- An exponent, if there is one. -/
theorem InNumber.exponent (h : InNumber F ok r) (cs : List Char) :
    ∃ r', Along r cs (List.replicate (exponentLength cs) .code) r' (cs.drop (exponentLength cs)) ∧
      InNumber F ok r' := by
  have none (hn : exponentLength cs = 0) :
      ∃ r', Along r cs (List.replicate (exponentLength cs) .code) r'
        (cs.drop (exponentLength cs)) ∧ InNumber F ok r' := by
    rw [hn]
    exact ⟨r, .refl r cs, h⟩
  cases cs with
  | nil => exact none rfl
  | cons e rest =>
    by_cases he : (decide (e = 'e') || decide (e = 'E')) = true
    · have hchar : isNumberChar e = true := by
        have he' : e = 'e' ∨ e = 'E' := by simpa using he
        rcases he' with rfl | rfl <;> decide
      obtain ⟨r₁, h₁, hr₁⟩ := h.char hchar rest
      have hexp : exponentLength (e :: rest) =
          let sign := if startsWith (fun c => c == '+' || c == '-') rest then 1 else 0
          let digits := Grammar.runLength isDecimalDigit (rest.drop sign)
          if digits = 0 then 0 else 1 + sign + digits := by
        rw [exponentLength, if_pos he]
      dsimp only at hexp
      split_ifs at hexp with hs hd hd
      · exact none hexp
      · -- the sign ends what the scanner takes for the number
        cases rest with
        | nil => cases hs
        | cons s rest =>
          have hmark : isMarkChar s = true ∧ s ≠ ';' := by
            have hs' : s = '+' ∨ s = '-' := by simpa [startsWith] using hs
            rcases hs' with rfl | rfl <;> exact ⟨isMarkChar_of_mem (by decide), by decide⟩
          have hstop : StopsRun isWordChar (s :: rest) := by
            rintro d ⟨⟩
            have := hmark.1
            simp only [isMarkChar, isNumberChar, Bool.and_eq_true, Bool.not_eq_true',
              Bool.or_eq_false_iff] at this
            exact this.1.1.2.1
          obtain ⟨r₂, h₂, hr₂⟩ := along_markChar
            (⟨hr₁.toOpen, Or.inl hr₁.mode, fun _ => hstop⟩ : At F ok r₁ (s :: rest)) hmark.1
            fun hc => absurd hc hmark.2
          obtain ⟨r₃, h₃, hr₃⟩ := along_digitRun hr₂.toOpen hr₂.mode hd
          refine ⟨r₃, ?_, hr₃⟩
          rw [hexp, Nat.add_comm (1 + 1), List.drop_succ_cons, List.drop_succ_cons, Nat.add_comm]
          exact (Along.join (i := 1) (j := 1) h₁ h₂).join h₃
      · exact none hexp
      · obtain ⟨r₂, h₂, hr₂⟩ := along_digitRun hr₁.toOpen hr₁.mode hd
        refine ⟨r₂, ?_, hr₂⟩
        rw [hexp, Nat.add_zero, Nat.add_comm, List.drop_succ_cons, Nat.add_comm]
        exact Along.join (i := 1) h₁ h₂
    · exact none (by rw [exponentLength, if_neg he])

theorem isNumberChar_of_isAsciiAlnum (h : isAsciiAlnum c = true) : isNumberChar c = true := by
  simp [isNumberChar, isWordChar, h]

theorem isAsciiAlnum_of_isHexDigit (h : isHexDigit c = true) : isAsciiAlnum c = true := by
  simp only [isHexDigit, isAsciiAlnum, Bool.or_eq_true, Bool.and_eq_true, decide_eq_true_eq] at h ⊢
  rcases h with (h | h) | h
  · exact Or.inr h
  · have hz : 'f' ≤ 'z' := by decide
    exact Or.inl (Or.inl ⟨h.1, Char.le_trans h.2 hz⟩)
  · have hz : 'F' ≤ 'Z' := by decide
    exact Or.inl (Or.inr ⟨h.1, Char.le_trans h.2 hz⟩)

/-- A numeral with a mark of its base: a zero, the mark, and a run of digits. -/
theorem markedNumeral?_eq_some {n : Nat} (h : markedNumeral? cs = some n) :
    ∃ m ds p, cs = '0' :: m :: ds ∧ n = runLength p ds + 2 ∧ isNumberChar m = true ∧
      ∀ c, p c = true → isNumberChar c = true := by
  unfold markedNumeral? at h
  split at h
  · rename_i m ds
    dsimp only at h
    have hex : ∀ c, isHexDigit c = true → isNumberChar c = true :=
      fun c hc => isNumberChar_of_isAsciiAlnum (isAsciiAlnum_of_isHexDigit hc)
    have binary : ∀ c, (c == '0' || c == '1') = true → isNumberChar c = true := by
      intro c hc
      have hc' : c = '0' ∨ c = '1' := by simpa using hc
      rcases hc' with rfl | rfl <;> decide
    have mark (hm : m = 'x' ∨ m = 'X' ∨ m = 'b' ∨ m = 'B') : isNumberChar m = true := by
      rcases hm with rfl | rfl | rfl | rfl <;> decide
    split_ifs at h with h₁ h₂ h₃ h₄ h₅
    · cases h
      have hm : m = 'x' ∨ m = 'X' := by simpa using h₁
      exact ⟨m, ds, _, rfl, rfl, mark (hm.elim Or.inl fun h => Or.inr (Or.inl h)), hex⟩
    · cases h
      have hm : m = 'b' ∨ m = 'B' := by simpa using h₃
      exact ⟨m, ds, _, rfl, rfl, mark (Or.inr (Or.inr hm)), binary⟩
    · exact absurd rfl h₅
  · cases h

theorem along_marked {n : Nat} (h : At F ok r cs) (hn : markedNumeral? cs = some n) :
    ∃ r', Along r cs (List.replicate n .code) r' (cs.drop n) ∧ InNumber F ok r' := by
  obtain ⟨m, ds, p, rfl, rfl, hm, hp⟩ := markedNumeral?_eq_some hn
  obtain ⟨r₁, h₁, hr₁⟩ := along_digit h.toOpen h.code (c := '0') (by decide) (m :: ds)
  obtain ⟨r₂, h₂, hr₂⟩ := hr₁.char hm ds
  obtain ⟨r₃, h₃, hr₃⟩ := hr₂.runLength hp ds
  refine ⟨r₃, ?_, hr₃⟩
  rw [List.drop_succ_cons, List.drop_succ_cons, Nat.add_comm]
  exact (Along.join (i := 1) (j := 1) h₁ h₂).join h₃

/-- Where a point comes next, it is read as part of a number or before a member name. -/
theorem along_point (h : At F ok r ('.' :: cs)) :
    ∃ r', Along r ('.' :: cs) [.code] r' cs ∧ Open F ok r' ∧ r'.scanner.mode = .code := by
  by_cases hg : r.GoesOn '.'
  · obtain ⟨r', h', hr'⟩ := along_numberChar h.toOpen hg cs
    exact ⟨r', h', hr'.toOpen, hr'.mode⟩
  · have hstep := step_of_not_goesOn hg (by decide) cs
    have hmark : IsMark '.' := isMark_of_ne (by decide) (by decide) (by decide) (by decide) rfl
      (by decide) (by decide)
    rw [hmark r.scanner cs h.code] at hstep
    have halong := Along.single hstep
    have hin := h.toOpen.mark (c := '.') h.code nofun
    simp only [Reader.take, takeOne, show isName ['.'] = false by decide] at halong
    exact ⟨_, halong, hin.toOpen, hin.mode⟩

/-- A decimal numeral, or only the digits before its point. -/
theorem along_decimal {n : Nat} {whole : Option Nat} (h : At F ok r cs)
    (hn : decimalNumeral? cs = some (n, whole)) :
    (∃ r', Along r cs (List.replicate n .code) r' (cs.drop n) ∧ InNumber F ok r') ∧
      ∀ k, whole = some k →
        (cs.drop k).head? = some '.' ∧
          ∃ r', Along r cs (List.replicate k .code) r' (cs.drop k) ∧ InNumber F ok r' := by
  unfold decimalNumeral? at hn
  dsimp only at hn
  split_ifs at hn with hw
  · -- a numeral that starts with its point
    split at hn
    · rename_i ds
      split_ifs at hn with hd
      cases hn
      refine ⟨?_, nofun⟩
      obtain ⟨r₁, h₁, hr₁, hm₁⟩ := along_point h
      obtain ⟨r₂, h₂, hr₂⟩ := along_digitRun hr₁ hm₁ hd
      obtain ⟨r₃, h₃, hr₃⟩ := hr₂.exponent (ds.drop (runLength isDecimalDigit ds))
      refine ⟨r₃, ?_, hr₃⟩
      rw [List.drop_drop] at h₃
      rw [Nat.add_assoc, Nat.add_comm, List.drop_succ_cons, Nat.add_comm]
      exact Along.join (i := 1) h₁ (h₂.join h₃)
    · cases hn
  · have hcode : r.scanner.mode = .code := by
      cases cs with
      | nil => exact absurd rfl hw
      | cons c cs => exact h.code
    obtain ⟨r₁, h₁, hr₁⟩ := along_digitRun h.toOpen hcode hw
    split at hn
    · rename_i ds hds
      cases hn
      rw [hds] at h₁
      obtain ⟨r₂, h₂, hr₂⟩ := hr₁.char (c := '.') isNumberChar_point ds
      obtain ⟨r₃, h₃, hr₃⟩ := hr₂.digitRun ds
      obtain ⟨r₄, h₄, hr₄⟩ := hr₃.exponent (ds.drop (runLength isDecimalDigit ds))
      refine ⟨⟨r₄, ?_, hr₄⟩, ?_⟩
      · rw [List.drop_drop] at h₄
        have hdrop : cs.drop (runLength isDecimalDigit cs + 1 + runLength isDecimalDigit ds +
            exponentLength (ds.drop (runLength isDecimalDigit ds))) =
            ds.drop (runLength isDecimalDigit ds +
              exponentLength (ds.drop (runLength isDecimalDigit ds))) := by
          rw [Nat.add_assoc, Nat.add_assoc, ← List.drop_drop, hds, Nat.add_comm 1,
            List.drop_succ_cons]
        rw [hdrop, Nat.add_assoc]
        exact (h₁.join (j := 1) h₂).join (h₃.join h₄)
      · rintro k ⟨⟩
        rw [hds]
        exact ⟨rfl, r₁, h₁, hr₁⟩
    · cases hn
      refine ⟨?_, nofun⟩
      obtain ⟨r₂, h₂, hr₂⟩ := hr₁.exponent (cs.drop (runLength isDecimalDigit cs))
      rw [List.drop_drop] at h₂
      exact ⟨r₂, h₁.join h₂, hr₂⟩

/-- **A numeral** may end where the scanner's number goes on, but then a point comes next. -/
theorem along_numeral {n : Nat} (h : At F ok r cs) (hn : numeral? cs = some n) :
    ∃ r', Along r cs (List.replicate n .code) r' (cs.drop n) ∧ InNumber F ok r' ∧
      StopsRun isWordChar (cs.drop n) := by
  have free {k : Nat} (hk : (!startsWith isNameChar (cs.drop k)) = true)
      (hin : ∃ r', Along r cs (List.replicate k .code) r' (cs.drop k) ∧ InNumber F ok r') :
      ∃ r', Along r cs (List.replicate k .code) r' (cs.drop k) ∧ InNumber F ok r' ∧
        StopsRun isWordChar (cs.drop k) := by
    obtain ⟨r', h', hr'⟩ := hin
    refine ⟨r', h', hr', ?_⟩
    rintro c hc
    obtain ⟨ds, hds⟩ := List.head?_eq_some_iff.mp hc
    rw [hds] at hk
    simp only [startsWith, isNameChar, Bool.not_eq_true', Bool.or_eq_false_iff] at hk
    exact hk.1
  unfold numeral? at hn
  dsimp only at hn
  split at hn
  · rename_i k hk
    cases hn
    obtain ⟨hm, hfree⟩ := Option.filter_eq_some_iff.mp hk
    exact free hfree (along_marked h hm)
  · split at hn
    · rename_i k whole hk
      obtain ⟨hall, hwhole⟩ := along_decimal h hk
      split_ifs at hn with hfree
      · cases hn
        exact free hfree hall
      · obtain ⟨hpoint, r', h', hr'⟩ := hwhole n hn
        refine ⟨r', h', hr', ?_⟩
        rintro c hc
        rw [hpoint] at hc
        cases hc
        rw [isWordChar_of_lt (by decide)]
        decide
    · cases hn

theorem plain_numeral : Plain ok numeral? := by
  intro F cs n h r hr
  obtain ⟨r', h', hr', hstop⟩ := along_numeral hr h
  exact ⟨r', h', hr'.toOpen, Or.inl hr'.mode, fun _ => hstop⟩

/-! ## Member names -/

/-- The reader is behind the point of a member access. -/
structure AfterPoint (F : Frame) (ok : Option Bool → Prop) (r : Reader) (cs : List Char) : Prop
    extends Open F ok r where
  ready : r.scanner.mode = .code ∨ r.scanner.mode = .lineComment ∧ cs = []

theorem AfterPoint.code (h : AfterPoint F ok r (c :: cs)) : r.scanner.mode = .code := by
  rcases h.ready with h | ⟨-, h⟩
  · exact h
  · cases h

/-- Behind the point of a member access there may be white space and comments. -/
theorem along_gap_afterPoint (h : AfterPoint F ok r cs) :
    ∃ r', Along r cs (gapKinds cs) r' (cs.drop (gapKinds cs).length) ∧
      AfterPoint F ok r' (cs.drop (gapKinds cs).length) := by
  by_cases hn : r.inNumber = true → StopsRun isWordChar cs
  · obtain ⟨r', h', hs', hb'⟩ := along_gap ⟨h.ready, hn⟩
    exact ⟨r', h', h.toOpen.same hs', hb'.1⟩
  · -- in the middle of a number a word comes next, and no gap
    have hgap : gapKinds cs = [] := by
      simp only [Classical.not_imp, StopsRun, not_forall, Bool.not_eq_false] at hn
      obtain ⟨-, c, hc, hw⟩ := hn
      obtain ⟨ds, rfl⟩ := List.head?_eq_some_iff.mp hc
      have hne (d : Char) (hd : isWordChar d = false) : c ≠ d := by
        rintro rfl
        rw [hw] at hd
        cases hd
      have hspace : isWhiteSpace c = false := by
        by_contra hcon
        have := isNumberChar_of_isSpace (isSpace_of_isWhiteSpace (by simpa using hcon))
        simp [isNumberChar, hw] at this
      have hslash : isWordChar '/' = false := by
        rw [isWordChar_of_lt (by decide)]
        decide
      rw [gapKinds, if_neg (by simp [hspace])]
      · rintro es rfl
        exact absurd rfl (hne '/' hslash)
      · rintro es rfl
        exact absurd rfl (hne '/' hslash)
    rw [hgap]
    exact ⟨r, .refl r cs, h⟩

/-- What is left of a member name in the middle of a number. -/
theorem along_nameChars (h : InNumber F ok r) (hx : ∀ c ∈ xs, isNameChar c = true)
    (hds : StopsRun isNameChar ds) :
    ∃ r', Along r (xs ++ ds) (List.replicate xs.length .code) r' ds ∧ Open F ok r' ∧
      r'.scanner.mode = .code := by
  induction xs generalizing r with
  | nil => exact ⟨r, .refl r ds, h.toOpen, h.mode⟩
  | cons c xs ih =>
    have hrest := fun d hd => hx d (List.mem_cons_of_mem c hd)
    by_cases hc : isNumberChar c = true
    · obtain ⟨r₁, h₁, hr₁⟩ := h.char hc (xs ++ ds)
      obtain ⟨r₂, h₂, hr₂⟩ := ih hr₁ hrest
      refine ⟨r₂, ?_, hr₂⟩
      rw [List.length_cons, Nat.add_comm]
      exact Along.join (i := 1) h₁ h₂
    · -- a dollar sign ends what the scanner takes for the number, and starts a name
      have hname := hx c List.mem_cons_self
      obtain rfl : c = '$' := by
        simp only [isNameChar, isNumberChar, Bool.or_eq_true, beq_iff_eq] at hname hc
        exact hname.resolve_left fun hw => hc (Or.inl hw)
      have hw : isName ('$' :: xs) = true := isName_cons.mpr ⟨by decide, hrest⟩
      have hne (v : String) (hv : v.toList.head? ≠ some '$') :
          String.ofList ('$' :: xs) ≠ v := by
        rintro rfl
        exact hv (by simp)
      have hg : ∀ d ∈ ('$' :: xs).head?, ¬ r.GoesOn d := by
        rintro d ⟨⟩
        exact not_goesOn (by simpa using hc)
      have hword (member : Bool) := @Open.word F ok r ('$' :: xs) member h.toOpen h.mode
        (hne "function" (by decide)) fun he => absurd he (hne "async" (by decide))
      exact ⟨_, step_word h.mode hw hg hds, (hword _).toOpen, (hword _).mode⟩

/-- **A member name** may be any name, and a part of what the scanner takes for a number. -/
theorem along_property {n : Nat} (h : AfterPoint F ok r cs)
    (hok : String.ofList (cs.take n) = "function" → ok (some false))
    (hn : property? cs = some n) (hmem : r.members cs.length = true) :
    ∃ r', Along r cs (List.replicate n .code) r' (cs.drop n) ∧ At F ok r' (cs.drop n) := by
  obtain ⟨hw, hstop, hlen⟩ := property?_eq_some hn
  have hsplit : cs.take n ++ cs.drop n = cs := List.take_append_drop n cs
  generalize cs.take n = w at hw hlen hsplit hok
  generalize cs.drop n = ds at hstop hsplit ⊢
  subst hlen hsplit
  have hstop' : StopsRun isWordChar ds := by
    intro c hc
    have := hstop c hc
    simp only [isNameChar, Bool.or_eq_false_iff] at this
    exact this.1
  cases w with
  | nil => cases hw
  | cons c w =>
    have hm : r.scanner.mode = .code := h.code
    by_cases hg : r.GoesOn c
    · obtain ⟨r₁, h₁, hr₁⟩ := along_numberChar h.toOpen hg (w ++ ds)
      obtain ⟨r₂, h₂, hr₂, hm₂⟩ := along_nameChars hr₁ (isName_cons.mp hw).2 hstop
      refine ⟨r₂, ?_, hr₂, Or.inl hm₂, fun _ => hstop'⟩
      rw [List.length_cons, Nat.add_comm]
      exact Along.join (i := 1) h₁ h₂
    · have hstep := step_word hm hw (by rintro d ⟨⟩; exact hg) hstop
      refine ⟨_, hstep, ?_⟩
      by_cases hf : String.ofList (c :: w) = "function"
      · unfold Reader.word
        rw [if_pos hf]
        refine ⟨⟨h.depth, h.bodies, h.interpolations, ?_, by rintro ⟨⟩⟩, Or.inl hm, by rintro ⟨⟩⟩
        have hlead : (r.lead == .async) = false := by simpa using h.lead
        have hpending := hok hf
        rw [← hlead] at hpending
        exact hpending
      · exact (h.toOpen.word hm hf fun _ => hmem).at ds

end LedSketch.Grammar
