import LedSketch.Proofs.Grammar.Enclosed
import LedSketch.Proofs.Grammar.Words
import LedSketch.Proofs.Number.Digits
import LedSketch.Proofs.Syntax.HostText
import LedSketch.Syntax.Elaborate

/-!
# The lexemes of written texts

What lexemes take of a text whose start is known: words, names, numerals, strings, and the text of
templates. What a string or a chunk is decoded to is the text that was written.

* `word_other`: a word refuses where another name is written.
* `numeral?_digits`, `ofNumeral_digits`: the digits of a number are a numeral of that number.
* `decodeText_flatMap`: escapes are undone.
-/

namespace LedSketch.Grammar

open Text Scan Scanner Dialect HostText Lexeme

variable {cs ds w : List Char} {s : String} {n : Nat}

/-! ## Words and names -/

theorem literal_append (s : String) (ds : List Char) :
    literal s (s.toList ++ ds) = some s.toList.length := by
  rw [literal, if_pos (List.isPrefixOf_iff_prefix.mpr ⟨ds, rfl⟩)]

theorem startsWith_of_stopsRun {p : Char → Bool} (h : StopsRun p ds) : startsWith p ds = false := by
  cases ds with
  | nil => rfl
  | cons c ds => exact h c rfl

/-- A word where no longer name starts. -/
theorem word_append (s : String) (hds : StopsRun isNameChar ds) :
    word s (s.toList ++ ds) = some s.toList.length := by
  rw [word, literal_append]
  simp only [List.drop_left, startsWith_of_stopsRun hds, Bool.false_eq_true, if_false]

/-- Where another name is written, a word refuses. -/
theorem word_other (hw : isName w = true) (hds : StopsRun isNameChar ds)
    (hs : isName s.toList = true) (hne : w ≠ s.toList) : word s (w ++ ds) = none := by
  rw [Option.eq_none_iff_forall_ne_some]
  intro n hn
  obtain ⟨hlit, hstop⟩ := word_eq_some hn
  refine hne ?_
  rw [← takeWhile_name hw hds, (literal_eq_some hlit).1, takeWhile_name hs hstop]

theorem property?_name (hw : isName w = true) (hds : StopsRun isNameChar ds) :
    property? (w ++ ds) = some w.length := by
  have htake := takeWhile_name hw hds
  cases w with
  | nil => cases hw
  | cons c w =>
    obtain ⟨hc, -⟩ := isName_cons.mp hw
    rw [List.cons_append, List.takeWhile_cons_of_pos (isNameChar_of_isNameStart hc),
      List.cons.injEq] at htake
    rw [List.cons_append, property?, if_pos hc, runLength, htake.2, List.length_cons]

theorem identifier?_name {name : String} (hn : IsIdentifier name) (hds : StopsRun isNameChar ds) :
    identifier? (name.toList ++ ds) = some name.toList.length := by
  rw [identifier?, property?_name hn.1 hds]
  simp only [List.take_left, String.ofList_toList, List.contains_iff_mem, hn.2, if_false]

/-! ## Refusals -/

/-- A text is refused where another character comes next. -/
theorem literal_other {c d : Char} (hs : s.toList = d :: w) (hc : c ≠ d) (cs : List Char) :
    literal s (c :: cs) = none := by
  rw [literal, if_neg]
  rw [hs, List.isPrefixOf_iff_prefix, List.cons_prefix_cons]
  exact fun h => hc h.1.symm

/-- Words are refused where no name starts. -/
theorem word_mark {c : Char} (hs : isName s.toList = true) (hc : isNameStart c = false)
    (cs : List Char) : word s (c :: cs) = none := by
  cases hw : s.toList with
  | nil => rw [hw] at hs; cases hs
  | cons d w =>
    rw [hw] at hs
    have hne : c ≠ d := by
      rintro rfl
      rw [(isName_cons.mp hs).1] at hc
      cases hc
    rw [word, literal_other hw hne]

/-! ## Numerals -/

/-- What comes behind an operand: a mark that closes something, or a comma. -/
def closers : List Char := [')', ']', '}', ';', ',']

/-- A text that starts with such a mark. -/
def Closing (ds : List Char) : Prop := ∃ c ∈ closers, ∃ es, ds = c :: es

@[elab_as_elim]
theorem Closing.cases {P : List Char → Prop} (h : Closing ds) (paren : ∀ es, P (')' :: es))
    (bracket : ∀ es, P (']' :: es)) (brace : ∀ es, P ('}' :: es))
    (semicolon : ∀ es, P (';' :: es)) (comma : ∀ es, P (',' :: es)) : P ds := by
  obtain ⟨c, hc, es, rfl⟩ := h
  simp only [closers, List.mem_cons, List.not_mem_nil, or_false] at hc
  rcases hc with rfl | rfl | rfl | rfl | rfl
  exacts [paren es, bracket es, brace es, semicolon es, comma es]

theorem Closing.stops {q : Char → Bool} (h : Closing ds)
    (hq : closers.all (fun c => !q c) = true) : StopsRun q ds := by
  obtain ⟨c, hc, es, rfl⟩ := h
  rintro d ⟨⟩
  simpa only [Bool.not_eq_true'] using List.all_eq_true.mp hq c hc

theorem Closing.stopsRun (h : Closing ds) : StopsRun isNameChar ds := by
  refine h.stops (List.all_eq_true.mpr fun c hc => ?_)
  have key : closers.all isAsciiMark = true := by decide
  rw [isNameChar_of_isAsciiMark (List.all_eq_true.mp key c hc)]
  rfl

theorem runLength_append {p : Char → Bool} (hw : ∀ c ∈ w, p c = true) (hds : StopsRun p ds) :
    runLength p (w ++ ds) = w.length := by
  rw [runLength, takeWhile_append_of_stopsRun hw hds]

/-- No mark of a base comes behind a zero. -/
theorem markedNumeral?_digits (hw : ∀ c ∈ w, c.isDigit = true) (hds : Closing ds) :
    markedNumeral? (w ++ ds) = none := by
  have hmark (m : Char) (rest : List Char) (h : w ++ ds = '0' :: m :: rest) :
      m.isDigit = true ∨ m ∈ closers := by
    obtain ⟨c, hc, es, rfl⟩ := hds
    match w, h with
    | [], h =>
      obtain rfl := (List.cons.inj h).1
      exact absurd hc (by decide)
    | [_], h => exact .inr ((List.cons.inj (List.cons.inj h).2).1 ▸ hc)
    | _ :: d :: _, h =>
      exact .inl ((List.cons.inj (List.cons.inj h).2).1 ▸ hw d (by simp))
  unfold markedNumeral?
  split
  · rename_i m rest heq
    have hm := hmark m rest heq
    have hne (d : Char) (hd : d.isDigit = false ∧ d ∉ closers) : m ≠ d := by
      rintro rfl
      rcases hm with hm | hm
      · rw [hd.1] at hm
        cases hm
      · exact hd.2 hm
    simp [hne 'x' (by decide), hne 'X' (by decide), hne 'b' (by decide), hne 'B' (by decide)]
  · rfl

/-- The digits of a number are a numeral. -/
theorem numeral?_digits (n : Nat) (hds : Closing ds) :
    numeral? (Nat.toDigits 10 n ++ ds) = some (Nat.toDigits 10 n).length := by
  have hdigits : ∀ c ∈ Nat.toDigits 10 n, c.isDigit = true := fun c =>
    Decimal.isDigit_of_mem_digits
  have hall : ∀ c ∈ Nat.toDigits 10 n, isDecimalDigit c = true := fun c hc =>
    isDecimalDigit_of_isDigit (hdigits c hc)
  have hstop : StopsRun isDecimalDigit ds := hds.stops (by decide)
  have hend : exponentLength ds = 0 := Closing.cases hds (fun _ => rfl) (fun _ => rfl)
    (fun _ => rfl) (fun _ => rfl) fun _ => rfl
  have hdecimal : decimalNumeral? (Nat.toDigits 10 n ++ ds)
      = some ((Nat.toDigits 10 n).length, none) := by
    unfold decimalNumeral?
    simp only [runLength_append hall hstop, Nat.ne_of_gt Nat.length_toDigits_pos, if_false,
      List.drop_left]
    split
    · rename_i rest _
      obtain ⟨c, hc, es, h⟩ := hds
      obtain rfl := (List.cons.inj h).1
      exact absurd hc (by decide)
    · rw [hend, Nat.add_zero]
  rw [numeral?, markedNumeral?_digits hdigits hds, hdecimal]
  simp only [Option.filter_none, List.drop_left, startsWith_of_stopsRun hds.stopsRun, Bool.not_false,
    if_true]

theorem readInt_digits (h : (Nat.toDigits 10 n).length ≤ Reading.digitLimit) :
    Reading.readInt 10 (Nat.toDigits 10 n) = .ok n := by
  have hread := Reading.readInt_signed false (fun _ => Decimal.isDigit_of_mem_digits)
    (Decimal.digits_ne_nil n) h
  rwa [if_neg Bool.false_ne_true, if_neg Bool.false_ne_true, Decimal.digits,
    Nat.ofDigitChars_ten_toDigits] at hread

/-- The value of a numeral of decimal digits is the number that they are the digits of. -/
theorem ofNumeral_digits (h : (Nat.toDigits 10 n).length ≤ Reading.digitLimit) :
    Number.ofNumeral (String.ofList (Nat.toDigits 10 n)) = .ok (.int n) := by
  have hall : ∀ c ∈ Nat.toDigits 10 n, c.isDigit = true := fun c => Decimal.isDigit_of_mem_digits
  have hread := readInt_digits h
  have hne : Nat.toDigits 10 n ≠ [] := Decimal.digits_ne_nil n
  generalize Nat.toDigits 10 n = w at *
  have hdigits : (!w.isEmpty && w.all isDigit) = true := by
    simp only [Bool.and_eq_true, List.all_eq_true]
    refine ⟨by simpa using hne, fun c hc => ?_⟩
    rw [isDigit, isDecimalDigit_of_isDigit (hall c hc), Bool.true_or]
  have hmark (c d m : Char) (ds : List Char) (hw : w = c :: m :: ds) (hd : d.isDigit = false) :
      m ≠ d := by
    rintro rfl
    have := hall m (by simp [hw])
    rw [hd] at this
    cases this
  simp only [Number.ofNumeral, String.toList_ofList, hdigits, if_true, hread]
  split_ifs with hx hb
  · split at hx
    · rename_i m ds
      simp [hmark '0' 'x' m ds rfl (by decide), hmark '0' 'X' m ds rfl (by decide)] at hx
    · cases hx
  · split at hb
    · rename_i m ds
      simp [hmark '0' 'b' m ds rfl (by decide), hmark '0' 'B' m ds rfl (by decide)] at hb
    · cases hb
  · rfl

/-- Numerals start with a digit or a point. -/
theorem numeral?_other {c : Char} (hc : isDecimalDigit c = false) (hp : c ≠ '.')
    (cs : List Char) : numeral? (c :: cs) = none := by
  have hmarked : markedNumeral? (c :: cs) = none := by
    unfold markedNumeral?
    split
    · rename_i heq
      obtain ⟨rfl, -⟩ := List.cons.inj heq
      exact absurd hc (by decide)
    · rfl
  have hdecimal : decimalNumeral? (c :: cs) = none := by
    have hrun : runLength isDecimalDigit (c :: cs) = 0 := by
      rw [runLength, List.takeWhile_cons_of_neg (by simp [hc])]
      rfl
    unfold decimalNumeral?
    rw [hrun, if_pos rfl]
    split
    · rename_i heq
      exact absurd (List.cons.inj heq).1 hp
    · rfl
  rw [numeral?, hmarked, hdecimal]
  rfl

/-! ## Strings and templates -/

/-- A way to write characters: as themselves, or behind a backslash. -/
def Escapes (f : Char → List Char) : Prop :=
  ∀ c, (f c = [c] ∧ c ≠ '\\') ∨
    ∃ d, f c = ['\\', d] ∧ Escape.simple d = c ∧ d ∉ ['x', 'u', '\n', '\r']

theorem escapes_quotedBy (q : Quote) : Escapes (quotedBy q.char) := by
  intro c
  unfold quotedBy
  split_ifs with hn hq
  · exact .inr ⟨'n', rfl, hn.symm, by decide⟩
  · refine .inr ⟨c, rfl, ?_⟩
    rcases hq with rfl | rfl
    · cases q <;> exact ⟨rfl, by decide⟩
    · exact ⟨rfl, by decide⟩
  · exact .inl ⟨rfl, fun h => hq (.inr h)⟩

theorem escapes_chunkChar : Escapes chunkChar := by
  intro c
  unfold chunkChar
  split_ifs with hq
  · exact .inr ⟨c, rfl, by rcases hq with rfl | rfl | rfl <;> rfl,
      by rcases hq with rfl | rfl | rfl <;> decide⟩
  · exact .inl ⟨rfl, fun h => hq (.inr (.inr h))⟩

theorem decodeWithin_flatMap {f : Char → List Char} (hf : Escapes f) (cs : List Char)
    (hn : (cs.flatMap f).length ≤ n) : Escape.decodeWithin n (cs.flatMap f) = cs := by
  induction cs generalizing n with
  | nil => cases n <;> rfl
  | cons c cs ih =>
    rw [List.flatMap_cons] at hn ⊢
    obtain ⟨hc, hne⟩ | ⟨d, hc, hd, hmem⟩ := hf c
    · rw [hc] at hn ⊢
      simp only [List.singleton_append, List.length_cons] at hn ⊢
      obtain ⟨n, rfl⟩ := Nat.exists_eq_add_of_le' (show 1 ≤ n by omega)
      rw [Escape.decodeWithin, ih (by omega)]
      rintro d ds rfl
      exact absurd rfl hne
    · rw [hc] at hn ⊢
      simp only [List.cons_append, List.nil_append, List.length_cons] at hn ⊢
      obtain ⟨n, rfl⟩ := Nat.exists_eq_add_of_le' (show 1 ≤ n by omega)
      simp only [List.mem_cons, List.not_mem_nil, or_false, not_or] at hmem
      obtain ⟨hx, hu, hl, hr⟩ := hmem
      rw [Escape.decodeWithin]
      · simp only [hx, hu, if_false]
        rw [hd, ih (by omega)]
      · exact hl
      · exact fun _ h => absurd h hr

/-- **Escapes are undone.** -/
theorem decodeText_flatMap {f : Char → List Char} (hf : Escapes f) (s : String) :
    Escape.decodeText (String.ofList (s.toList.flatMap f)) = s := by
  rw [Escape.decodeText, String.toList_ofList, Escape.decode, decodeWithin_flatMap hf _ le_rfl,
    String.ofList_toList]

theorem stringTail?_quotedBy (q : Quote) (c : Char) (ds : List Char) :
    stringTail? q.char (quotedBy q.char c ++ ds)
      = (stringTail? q.char ds).map (· + (quotedBy q.char c).length) := by
  unfold quotedBy
  split_ifs with hn hq
  · rfl
  · rw [List.cons_append, List.cons_append, List.nil_append, stringTail?]
    rfl
  · rw [not_or] at hq
    rw [List.singleton_append, stringTail?, if_neg hq.1, if_neg (by simp [hq.2, hn])]
    · rfl
    · rintro d es rfl
      exact absurd rfl hq.2

theorem stringTail?_flatMap (q : Quote) (cs ds : List Char) :
    stringTail? q.char (cs.flatMap (quotedBy q.char) ++ q.char :: ds)
      = some ((cs.flatMap (quotedBy q.char)).length + 1) := by
  induction cs with
  | nil => cases q <;> rfl
  | cons c cs ih =>
    rw [List.flatMap_cons, List.append_assoc, stringTail?_quotedBy, ih, Option.map_some,
      List.length_append]
    congr 1
    omega

/-- A text as a string between two marks. -/
def quotedText (q : Quote) (s : String) : List Char :=
  q.char :: s.toList.flatMap (quotedBy q.char) ++ [q.char]

theorem quotedText_append (q : Quote) (s : String) (ds : List Char) :
    quotedText q s ++ ds = q.char :: (s.toList.flatMap (quotedBy q.char) ++ q.char :: ds) := by
  simp only [quotedText, List.cons_append, List.append_assoc, List.nil_append]

/-- A quoted text is a string. -/
theorem string?_quoted (q : Quote) (s : String) (ds : List Char) :
    string? (quotedText q s ++ ds) = some (quotedText q s).length := by
  rw [quotedText_append, string?, if_pos (by cases q <;> decide), stringTail?_flatMap]
  simp [quotedText]

/-- What is in the quotes is the text. -/
theorem decodeText_unquoted (q : Quote) (s : String) :
    Escape.decodeText (Elab.unquoted (String.ofList (quotedText q s))) = s := by
  rw [Elab.unquoted, String.toList_ofList, quotedText, List.cons_append, List.drop_one, List.tail_cons,
    List.dropLast_concat, decodeText_flatMap (escapes_quotedBy q)]

/-- What ends the text of a template: its own end, or an interpolation. -/
def Cut (ds : List Char) : Prop := (∃ es, ds = '\x60' :: es) ∨ ∃ es, ds = '$' :: '{' :: es

theorem chunkLength_chunkChar (c : Char) (ds : List Char) :
    chunkLength (chunkChar c ++ ds) = (chunkChar c).length + chunkLength ds := by
  unfold chunkChar
  split_ifs with hc
  · rw [List.cons_append, List.cons_append, List.nil_append, chunkLength]
    rfl
  · rw [not_or, not_or] at hc
    rw [List.singleton_append, chunkLength_cons hc.2.2 fun h => absurd h hc.2.1, if_neg hc.1]
    rfl

theorem chunkLength_flatMap (cs : List Char) (hds : Cut ds) :
    chunkLength (cs.flatMap chunkChar ++ ds) = (cs.flatMap chunkChar).length := by
  induction cs with
  | nil => rcases hds with ⟨es, rfl⟩ | ⟨es, rfl⟩ <;> rfl
  | cons c cs ih =>
    rw [List.flatMap_cons, List.append_assoc, chunkLength_chunkChar, ih, List.length_append]

/-- The text of a template is a chunk. -/
theorem chunk?_written (hs : s ≠ "") (hds : Cut ds) :
    chunk? (s.toList.flatMap chunkChar ++ ds) = some (s.toList.flatMap chunkChar).length := by
  have hne : (s.toList.flatMap chunkChar).length ≠ 0 := by
    cases hcs : s.toList with
    | nil => exact absurd (String.toList_eq_nil_iff.mp hcs) hs
    | cons c cs =>
      have : 0 < (chunkChar c).length := by
        unfold chunkChar
        split_ifs <;> exact Nat.succ_pos _
      rw [List.flatMap_cons, List.length_append]
      omega
  simp only [chunk?, chunkLength_flatMap s.toList hds, hne, if_false]

end LedSketch.Grammar
