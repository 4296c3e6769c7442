import LedSketch.Proofs.Dialect.Survival
import LedSketch.Proofs.Grammar.Words
import LedSketch.Proofs.Scan.Below

/-!
# The pass heeds its own awaits

A reader that goes over the host form of a sketch stays in step with the pass that writes it, and
where the pass writes an `await`, the reader finds that the innermost body may suspend. The one way
for the two to fall apart is a member named `async` directly in front of the word `function`: the
pass takes it for the mark of an async function.

* `Misled`: such a member is read further on.
* `InStep`: the reader is in step with the pass.
* `trusty_run`: what the pass writes is heeded unless it misleads.
-/

namespace LedSketch.Dialect

open Text Scan Scanner Grammar

variable {q : Rewriter} {r r' : Reader} {c : Char} {cs ds w k : List Char}

/-- **A member named `async` is read directly in front of the word `function`.** -/
def Reader.Misled (r : Reader) (cs : List Char) : Prop :=
  ∃ ks r' ds, Along r cs ks r' ds ∧ r'.Meets ds "function".toList ∧ r'.lead = .member

theorem Reader.lead_word (r : Reader) (w : List Char) : (r.word false w).lead ≠ .member := by
  unfold Reader.word
  split_ifs with _ _ hmember
  · nofun
  · cases hmember
  · nofun
  · nofun

theorem Reader.lead_mark (hl : r.lead ≠ .member) : (r.mark w).lead ≠ .member := by
  unfold Reader.mark
  dsimp only
  split_ifs
  · exact hl
  all_goals nofun

theorem Reader.lead_step (hm : ∀ n, r.members n = false) (hl : r.lead ≠ .member) (c : Char)
    (cs : List Char) : (r.step c cs).reader.lead ≠ .member := by
  unfold Reader.step
  split_ifs
  · nofun
  · nofun
  · unfold Reader.take
    dsimp only
    split
    · dsimp only
      rw [hm]
      split_ifs
      · exact lead_word _ _
      · exact lead_mark hl
    · nofun
    · nofun
    · exact hl
    · exact hl

/-- **Where there are no member names, nothing misleads.** -/
theorem Reader.not_misled (hm : ∀ n, r.members n = false) (hl : r.lead ≠ .member)
    (cs : List Char) : ¬ r.Misled cs := by
  rintro ⟨ks, r', ds, ha, -, hmember⟩
  induction ha with
  | refl => exact hl hmember
  | @step r _ c cs _ _ _ ih =>
    exact ih (fun n => by rw [r.members_step, hm]) (r.lead_step hm hl c cs) hmember

/-- A text is heeded, or it misleads. -/
def Reader.Trusty (r : Reader) (cs : List Char) : Prop := r.Misled cs ∨ r.Heeds cs

/-! ## Step by step -/

namespace Reader

theorem trusty_nil (r : Reader) : r.Trusty [] := by
  refine Or.inr fun ks r' ds h hm => ?_
  cases h
  obtain ⟨-, -, es, hes, -⟩ := hm
  cases hes

/-- A text may be trusted if its first step and what is left may be. -/
theorem trusty_cons (hm : r.Meets (c :: cs) "await".toList → r.suspendable = true)
    (h : (r.step c cs).reader.Trusty (r.step c cs).rest) : r.Trusty (c :: cs) := by
  rcases h with ⟨ks, r', ds, ha, hmeets, hlead⟩ | hheeds
  · exact Or.inl ⟨_, r', ds, .step ha, hmeets, hlead⟩
  · refine Or.inr fun ks r' ds ha hmeets => ?_
    cases ha with
    | refl => exact hm hmeets
    | step ha => exact hheeds _ _ _ ha hmeets

/-- Only a name is met. -/
theorem not_meets_of_start (hc : isNameStart c = false) {v : List Char} :
    ¬ r.Meets (c :: cs) v := by
  rintro ⟨-, hv, es, hes, -⟩
  cases v with
  | nil => cases hv
  | cons d v =>
    obtain ⟨rfl, -⟩ := List.cons.inj hes
    rw [(isName_cons.mp hv).1] at hc
    cases hc

/-- The name that is met is the one that comes next. -/
theorem eq_of_meets {v : List Char} (hw : isName w = true) (hds : StopsRun isNameChar ds)
    (h : r.Meets (w ++ ds) v) : w = v := by
  obtain ⟨-, hv, es, hes, hstop, -⟩ := h
  rw [← takeWhile_name hw hds, hes, takeWhile_name hv hstop]

/-- The reader is in code, and `cs` does not go on a number. -/
structure Free (r : Reader) (cs : List Char) : Prop where
  code : r.scanner.mode = .code
  number : ∀ c ∈ cs.head?, ¬ r.GoesOn c

theorem not_goesOn_of_idle (hn : r.inNumber = false) : ¬ r.GoesOn c := by
  rintro ⟨-, h, -⟩
  rw [hn] at h
  cases h

/-- **A name may be trusted** if what is left behind it may be. -/
theorem trusty_name (hf : r.Free w) (hw : isName w = true) (hds : StopsRun isNameChar ds)
    (ha : w = "await".toList → r.suspendable = true)
    (h : ∀ member, r.members (w ++ ds).length = member →
      ({ r with inNumber := false }.word member w).Trusty ds) : r.Trusty (w ++ ds) := by
  cases w with
  | nil => cases hw
  | cons c w =>
    rw [List.cons_append]
    refine trusty_cons (fun hmeets => ha (eq_of_meets hw hds hmeets)) ?_
    rw [step_of_name hf.code hw (hf.number c rfl) hds]
    exact h _ rfl

/-- A character of code that is no part of a name or of a number. -/
theorem trusty_mark (hm : r.scanner.mode = .code) (hc : IsMark c) (hn : isNumberChar c = false)
    (hd : isDecimalDigit c = false) (hs : isNameStart c = false)
    (h : ({ r with inNumber := false }.mark [c]).Trusty ds) : r.Trusty (c :: ds) := by
  refine trusty_cons (fun hmeets => absurd hmeets (not_meets_of_start hs)) ?_
  have hname : isName [c] = false := by simp [isName, hs]
  rw [step_of_not_goesOn (not_goesOn hn) hd, hc r.scanner ds hm]
  simpa only [take, takeOne, hname, Bool.false_eq_true, if_false] using h

/-- A blank changes nothing. -/
theorem trusty_space (hm : r.scanner.mode = .code) (hc : isSpace c = true)
    (h : ({ r with inNumber := false } : Reader).Trusty ds) : r.Trusty (c :: ds) := by
  refine trusty_mark hm (isMark_of_isSpace hc) (isNumberChar_of_isSpace hc)
    (isDecimalDigit_of_isSpace hc) (isNameStart_of_isSpace hc) ?_
  have hblank : isBlank [c] = true := by simp [isBlank, hc]
  simpa only [mark, hblank, if_true] using h

theorem trusty_spaces {xs : List Char} (hm : r.scanner.mode = .code) (hn : r.inNumber = false)
    (hx : ∀ c ∈ xs, isSpace c = true) (h : r.Trusty ds) : r.Trusty (xs ++ ds) := by
  induction xs with
  | nil => exact h
  | cons c xs ih =>
    refine trusty_space hm (hx c List.mem_cons_self) ?_
    rw [show ({ r with inNumber := false } : Reader) = r by rw [← hn]]
    exact ih fun d hd => hx d (List.mem_cons_of_mem c hd)

/-- A number is read character by character. -/
theorem trusty_numberChars {xs : List Char} (hm : r.scanner.mode = .code) (hn : r.inNumber = true)
    (hl : r.lead = .other) (hx : ∀ c ∈ xs, isNumberChar c = true) (h : r.Trusty ds) :
    r.Trusty (xs ++ ds) := by
  induction xs with
  | nil => exact h
  | cons c xs ih =>
    have hg : r.GoesOn c := ⟨hm, hn, hx c List.mem_cons_self⟩
    refine trusty_cons (fun hmeets => ?_) ?_
    · obtain ⟨-, -, -, -, -, hnot⟩ := hmeets
      exact absurd hg (hnot c rfl)
    · unfold step
      rw [if_pos hg]
      dsimp only
      rw [show ({ r with lead := .other } : Reader) = r by rw [← hl]]
      exact ih fun d hd => hx d (List.mem_cons_of_mem c hd)

end Reader

/-! ## In step with the pass -/

/-- The pass and the reader of what it writes have the same open. -/
structure Abreast (q : Rewriter) (r : Reader) : Prop where
  alike : Alike q.scanner r.scanner
  below : Below q.scanner.nesting r.scanner.nesting
  parens : q.parens = r.parens

/-- The pass and the reader of what it writes are at the same place, in front of what is left. -/
structure InStep (q : Rewriter) (r : Reader) (cs : List Char) : Prop extends Abreast q r where
  number : r.inNumber = true → StopsRun isNumberChar cs
  lead : q.previous = some "async" → r.lead ≠ .other

/-- A segment that is no name tells nothing about `async`. -/
theorem ofList_ne_async (h : isName w = false) : String.ofList w ≠ "async" := by
  intro hw
  rw [← String.toList_ofList (l := w), hw] at h
  revert h
  decide

/-- What the pass remembers of code that is no name, the reader does. -/
theorem inStep_mark {s : Scanner} (ha : Alike s r.scanner)
    (hb : Below s.nesting r.scanner.nesting) (hp : q.parens = r.parens)
    (hl : q.previous = some "async" → r.lead ≠ .other) (hn : r.inNumber = false)
    (hw : isName w = false) : InStep ({ q with scanner := s }.punctuation w) (r.mark w) ds := by
  have number {r' : Reader} (hr' : r'.inNumber = r.inNumber) :
      r'.inNumber = true → StopsRun isNumberChar ds := by
    rw [hr', hn]
    nofun
  have lead {l : Lead} : some (String.ofList w) = some "async" → l ≠ .other :=
    fun he => absurd (Option.some.inj he) (ofList_ne_async hw)
  unfold Rewriter.punctuation Reader.mark
  dsimp only
  rw [← hp]
  split_ifs
  · exact ⟨⟨ha, hb, hp⟩, number rfl, hl⟩
  · exact ⟨⟨ha, hb, rfl⟩, number rfl, lead⟩
  · exact ⟨⟨ha, hb, rfl⟩, number rfl, lead⟩
  · exact ⟨⟨⟨ha.mode, ha.depth, ha.interpolations⟩, hb.cancelPending, rfl⟩, number rfl, lead⟩
  · exact ⟨⟨ha, hb, rfl⟩, number rfl, lead⟩

/-- **A segment that is no name** keeps the reader in step, if it is not read as a number. -/
theorem InStep.take (h : InStep q r (c :: cs)) (hname : ¬ Rewriter.AtName q.scanner c)
    (hk : Follows (q.scanner.step c cs).scanner.mode (q.scanner.step c cs).rest k) :
    InStep (q.step c cs).rewriter
        (r.take (r.scanner.step c ((q.scanner.step c cs).text.tail ++ k))).reader
        (q.step c cs).rest ∧
      (r.take (r.scanner.step c ((q.scanner.step c cs).text.tail ++ k))).rest = k := by
  have hfollows := step_of_follows rfl hk
  have hsame := step_of_alike h.alike c ((q.scanner.step c cs).text.tail ++ k)
  have hbelow := below_step h.alike h.below c ((q.scanner.step c cs).text.tail ++ k)
  rw [hfollows] at hsame hbelow
  generalize r.scanner.step c ((q.scanner.step c cs).text.tail ++ k) = u at hsame hbelow
  obtain ⟨hkind, htext, hrest, halike⟩ := hsame
  dsimp only [Step.withRest] at hkind htext hrest halike hbelow
  refine ⟨?_, by rw [Reader.take_rest]; exact hrest.symm⟩
  unfold Rewriter.step Reader.take
  dsimp only
  rw [← hkind, ← htext]
  cases hc : (q.scanner.step c cs).kind with
  | code =>
    have hw := Rewriter.not_isName_of_not_atName hname hc
    simp only [hw, Bool.false_eq_true, if_false]
    exact inStep_mark halike hbelow h.parens h.lead rfl hw
  | string => exact ⟨⟨halike, hbelow, h.parens⟩, nofun, nofun⟩
  | template => exact ⟨⟨halike, hbelow, h.parens⟩, nofun, nofun⟩
  | lineComment => exact ⟨⟨halike, hbelow, h.parens⟩, nofun, h.lead⟩
  | blockComment => exact ⟨⟨halike, hbelow, h.parens⟩, nofun, h.lead⟩

theorem isNameStart_of_isDecimalDigit (hc : isDecimalDigit c = true) : isNameStart c = false := by
  cases hs : isNameStart c with
  | false => rfl
  | true => rw [Reader.isDecimalDigit_of_isNameStart hs] at hc; cases hc

/-- A number is one segment for the scanner. -/
theorem step_digit {s : Scanner} (hs : s.mode = .code) (hc : isDecimalDigit c = true)
    (cs : List Char) : s.step c cs = s.takeRun .code isNumberChar c cs := by
  have hord := Reader.isOrdinary_of_isDecimalDigit hc
  simp only [isOrdinary, Bool.not_eq_true', List.contains_eq_mem, decide_eq_false_iff_not,
    List.mem_cons, List.not_mem_nil, or_false, not_or] at hord
  obtain ⟨h₁, h₂, h₃, h₄, h₅, h₆⟩ := hord
  rw [step_code hs, stepCode_of_ne s h₁ h₂ h₃ h₄]
  simp only [Quote.ofChar?, if_neg h₅, if_neg h₆, isNameStart_of_isDecimalDigit hc,
    Bool.false_eq_true, if_false, hc, if_true]
  rfl

theorem punctuation_digit (hc : isDecimalDigit c = true) (w : List Char) :
    q.punctuation (c :: w) = { q with previous := some (String.ofList (c :: w)) } := by
  have hne {d : Char} (hd : isDecimalDigit d = false) : ¬ (c :: w) = [d] := by
    intro he
    rw [(List.cons.inj he).1, hd] at hc
    cases hc
  have hblank : isBlank (c :: w) = false := by
    cases hs : isSpace c with
    | false => simp [isBlank, hs]
    | true => rw [isDecimalDigit_of_isSpace hs] at hc; cases hc
  unfold Rewriter.punctuation
  simp only [hblank, Bool.false_eq_true, if_false, if_neg (hne (d := '(') (by decide)),
    if_neg (hne (d := ')') (by decide)), decide_eq_false (hne (d := ';') (by decide)),
    Bool.false_and]

/-- **A number may be trusted.** The reader takes it character by character. -/
theorem InStep.trusty_number (h : InStep q r (c :: cs)) (hm : q.scanner.mode = .code)
    (hc : isDecimalDigit c = true)
    (ih : ∀ r', InStep (q.step c cs).rewriter r' (q.step c cs).rest → r'.Trusty k) :
    r.Trusty (c :: (cs.takeWhile isNumberChar ++ k)) := by
  have hstart := isNameStart_of_isDecimalDigit hc
  have hname : ¬ Rewriter.AtName q.scanner c := by
    rintro ⟨-, hs⟩
    rw [hstart] at hs
    cases hs
  have hmode : r.scanner.mode = .code := h.alike.mode ▸ hm
  have hnot : ¬ r.GoesOn c := by
    rintro ⟨-, hn, hg⟩
    rw [h.number hn c rfl] at hg
    cases hg
  refine Reader.trusty_cons (fun hmeets => absurd hmeets (Reader.not_meets_of_start hstart)) ?_
  unfold Reader.step
  rw [if_neg hnot, if_pos ⟨hmode, hc⟩]
  refine Reader.trusty_numberChars hmode rfl rfl (fun d => List.mem_takeWhile_imp) (ih _ ?_)
  have hw : isName (c :: cs.takeWhile isNumberChar) = false := by
    simp [isName, hstart]
  unfold Rewriter.step
  rw [step_digit hm hc]
  simp only [takeRun, hw, Bool.false_eq_true, if_false]
  rw [punctuation_digit hc]
  refine ⟨⟨h.alike, h.below, h.parens⟩, fun _ => stopsRun_dropWhile _ _, fun he => ?_⟩
  exact absurd (Option.some.inj he) (ofList_ne_async hw)

/-- **A segment that is no name may be trusted** if what is left behind it may be. -/
theorem InStep.trusty_other (h : InStep q r (c :: cs)) (hname : ¬ Rewriter.AtName q.scanner c)
    (hk : Follows (q.scanner.step c cs).scanner.mode (q.scanner.step c cs).rest k)
    (ih : ∀ r', InStep (q.step c cs).rewriter r' (q.step c cs).rest → r'.Trusty k) :
    r.Trusty ((q.scanner.step c cs).text ++ k) := by
  have hmeets (ds : List Char) : ¬ r.Meets (c :: ds) "await".toList := by
    intro hmeets
    refine Reader.not_meets_of_start ?_ hmeets
    simpa using fun hs => hname ⟨h.alike.mode.trans hmeets.1, hs⟩
  by_cases hdigit : q.scanner.mode = .code ∧ isDecimalDigit c = true
  · rw [step_digit hdigit.1 hdigit.2]
    exact h.trusty_number hdigit.1 hdigit.2 ih
  · have hnot : ¬ r.GoesOn c := by
      rintro ⟨-, hn, hg⟩
      rw [h.number hn c rfl] at hg
      cases hg
    have hstep (ds : List Char) : r.step c ds = r.take (r.scanner.step c ds) := by
      unfold Reader.step
      rw [if_neg hnot, if_neg (h.alike.mode ▸ hdigit)]
    rw [text_eq_cons, List.cons_append]
    refine Reader.trusty_cons (fun hm => absurd hm (hmeets _)) ?_
    obtain ⟨hin, hrest⟩ := h.take hname hk
    rw [hstep, hrest]
    exact ih _ hin

/-! ## In step with the fates of a name -/

namespace Reader

theorem word_other {member : Bool} (hf : String.ofList w ≠ "function")
    (ha : String.ofList w ≠ "async") : r.word member w = { r with lead := .other } := by
  unfold word
  rw [if_neg hf, if_neg ha]

/-- **A name that means nothing to the reader.** -/
theorem trusty_plain (hf : r.Free w) (hw : isName w = true) (hds : StopsRun isNameChar ds)
    (hfunction : String.ofList w ≠ "function") (hasync : String.ofList w ≠ "async")
    (hawait : String.ofList w = "await" → r.suspendable = true)
    (h : ({ r with inNumber := false, lead := .other } : Reader).Trusty ds) :
    r.Trusty (w ++ ds) := by
  refine trusty_name hf hw hds (fun he => hawait ?_) fun member _ => ?_
  · rw [he, String.ofList_toList]
  · rw [word_other hfunction hasync]
    exact h

/-- **The word `function`**: it misleads behind a member named `async`. -/
theorem trusty_function (hf : r.Free "function".toList) (hds : StopsRun isNameChar ds)
    (h : r.lead ≠ .member →
      ({ r with inNumber := false }.word false "function".toList).Trusty ds) :
    r.Trusty ("function".toList ++ ds) := by
  by_cases hlead : r.lead = .member
  · exact Or.inl ⟨[], r, _, .refl r _, ⟨hf.code, by decide, ds, rfl, hds, hf.number⟩, hlead⟩
  · refine trusty_name hf (by decide) hds (fun he => absurd he (by decide)) fun member _ => ?_
    have hmember : ({ r with inNumber := false }.word member "function".toList) =
        { r with inNumber := false }.word false "function".toList := by
      unfold word
      rw [String.ofList_toList, if_pos rfl, if_pos rfl]
    rw [hmember]
    exact h hlead

/-- Blanks and the name that is declared. -/
theorem trusty_declared (hm : r.scanner.mode = .code) (hn : r.inNumber = false) {bs : List Char}
    (hb : ∀ c ∈ bs, isSpace c = true) (hw : isName w = true) (hid : isIdentifier w = true)
    (hds : StopsRun isNameChar ds) (h : ({ r with lead := .other } : Reader).Trusty ds) :
    r.Trusty (bs ++ (w ++ ds)) := by
  have hne (v : String) (hv : v ∈ keywords) : String.ofList w ≠ v := by
    rintro rfl
    simp [isIdentifier, hv] at hid
  refine trusty_spaces hm hn hb ?_
  refine trusty_plain ⟨hm, fun _ _ => not_goesOn_of_idle hn⟩ hw hds (hne _ (by decide)) (hne _ (by decide))
    (fun he => absurd he (hne _ (by decide))) ?_
  rw [show ({ r with inNumber := false, lead := .other } : Reader) = { r with lead := .other } by
    rw [← hn]]
  exact h

/-- The empty parentheses of an entry point. -/
theorem trusty_parens (hm : r.scanner.mode = .code) (hn : r.inNumber = false)
    {before inside : List Char} (hb : ∀ c ∈ before ++ inside, isSpace c = true)
    (h : ({ r with lead := .other } : Reader).Trusty ds) :
    r.Trusty (before ++ '(' :: (inside ++ ')' :: ds)) := by
  have hopen : ({ r with inNumber := false } : Reader).mark ['('] =
      { r with inNumber := false, lead := .other, parens := r.parens + 1 } := rfl
  have hclose : ({ r with inNumber := false, lead := .other, parens := r.parens + 1 } :
      Reader).mark [')'] = { r with lead := .other } := by
    rw [← hn]
    rfl
  refine trusty_spaces hm hn (fun c hc => hb c (List.mem_append_left _ hc)) ?_
  refine trusty_mark hm isMark_openParen isNumberChar_openParen (by decide) (by decide) ?_
  rw [hopen]
  refine trusty_spaces hm rfl (fun c hc => hb c (List.mem_append_right _ hc)) ?_
  refine trusty_mark hm isMark_closeParen isNumberChar_closeParen (by decide) (by decide) ?_
  exact hclose ▸ h

end Reader

theorem InStep.free {rest : List Char} (h : InStep q r (w ++ rest)) (hm : q.scanner.mode = .code)
    (hw : isName w = true) : r.Free w where
  code := h.alike.mode ▸ hm
  number c hc := by
    cases w with
    | nil => cases hw
    | cons d w =>
      cases hc
      rintro ⟨-, hn, hg⟩
      rw [h.number hn c rfl] at hg
      cases hg

/-- A name that starts with a letter is not met behind a number. -/
theorem InStep.not_inNumber (h : InStep q r (c :: cs)) (hc : isLetter c = true) :
    r.inNumber = false := by
  cases hn : r.inNumber with
  | false => rfl
  | true =>
    have := h.number hn c rfl
    simp [isNumberChar, isWordChar_of_isLetter hc] at this

/-- **A name that is copied** keeps the reader in step. -/
theorem InStep.word {member : Bool} (h : InStep q r cs)
    (hlead : String.ofList w = "function" → r.lead ≠ .member) :
    InStep (q.afterWord w) ({ r with inNumber := false }.word member w) ds := by
  unfold Rewriter.afterWord Reader.word
  dsimp only
  split_ifs with hf ha hmember
  · refine ⟨⟨⟨h.alike.mode, h.alike.depth, h.alike.interpolations⟩, h.below.declare ?_, h.parens⟩,
      nofun, fun he => ?_⟩
    · intro hprevious
      have hother := h.lead (by simpa using hprevious)
      have hnot := hlead hf
      cases hl : r.lead with
      | async => rfl
      | member => exact absurd hl hnot
      | other => exact absurd hl hother
    · rw [hf] at he
      exact absurd (Option.some.inj he) (by decide)
  · exact ⟨⟨h.alike, h.below, h.parens⟩, nofun, fun _ => nofun⟩
  · exact ⟨⟨h.alike, h.below, h.parens⟩, nofun, fun _ => nofun⟩
  · exact ⟨⟨h.alike, h.below, h.parens⟩, nofun, fun he => absurd (Option.some.inj he) ha⟩

/-- **A name that is copied may be trusted** if it is no `await`. -/
theorem InStep.trusty_copied {rest : List Char} (h : InStep q r (w ++ rest))
    (hm : q.scanner.mode = .code) (hw : isName w = true) (hk : StopsRun isNameChar k)
    (hawait : String.ofList w ≠ "await")
    (ih : ∀ r', InStep (q.afterWord w) r' rest → r'.Trusty k) : r.Trusty (w ++ k) := by
  have hfree := h.free hm hw
  by_cases hf : String.ofList w = "function"
  · obtain rfl : w = "function".toList := by rw [← hf, String.toList_ofList]
    exact Reader.trusty_function hfree hk fun hlead => ih _ (h.word fun _ => hlead)
  · refine Reader.trusty_name hfree hw hk (fun he => absurd ?_ hawait) fun member _ => ?_
    · rw [he, String.ofList_toList]
    · exact ih _ (h.word fun he => absurd he hf)

/-- An awaited pause may be trusted: the pass writes `await` only where it may suspend. -/
theorem InStep.trusty_awaited {rest : List Char} (h : InStep q r ((c :: w) ++ rest))
    (hm : q.scanner.mode = .code) (hw : isName (c :: w) = true) (hk : StopsRun isNameChar k)
    (name : String.ofList (c :: w) = "delay")
    (suspendable : q.scanner.nesting.suspendable = true)
    (ih : ∀ r', InStep (q.afterWord (c :: w)) r' rest → r'.Trusty k) :
    r.Trusty ("await ".toList ++ (c :: w) ++ k) := by
  have hmode : r.scanner.mode = .code := h.alike.mode ▸ hm
  have hidle : r.inNumber = false := h.not_inNumber (Rewriter.isLetter_of_delay name)
  have hne (v : String) (hv : v ≠ "delay") : String.ofList (c :: w) ≠ v := by
    rw [name]
    exact hv.symm
  rw [show "await ".toList = "await".toList ++ [' '] by decide, List.append_assoc,
    List.append_assoc, List.singleton_append]
  refine Reader.trusty_plain ⟨hmode, fun _ _ => Reader.not_goesOn_of_idle hidle⟩ (by decide)
    (stopsRun_space _) (by decide) (by decide) (fun _ => h.below.suspendable suspendable) ?_
  refine Reader.trusty_space hmode (by decide) ?_
  refine Reader.trusty_plain (r := { r with inNumber := false, lead := .other })
    ⟨hmode, fun _ _ => Reader.not_goesOn_of_idle rfl⟩ hw hk (hne _ (by decide)) (hne _ (by decide))
    (fun he => absurd he (hne _ (by decide))) (ih _ ?_)
  unfold Rewriter.afterWord
  rw [if_neg (hne _ (by decide))]
  exact ⟨⟨h.alike, h.below, h.parens⟩, nofun,
    fun he => absurd (Option.some.inj he) (hne _ (by decide))⟩

/-- The head of an entry point may be trusted: it declares a function that may suspend. -/
theorem InStep.trusty_entry {rest before inside after : List Char} {a : Ahead}
    (h : InStep q r ((c :: w) ++ rest)) (hm : q.scanner.mode = .code)
    (hrest : StopsRun isNameChar rest) (type : String.ofList (c :: w) ∈ returnTypeWords)
    (ahead : peekName? rest = some a) (identifier : isIdentifier a.name = true)
    (blank : ∀ d ∈ before ++ inside, isSpace d = true)
    (ih : ∀ r', InStep { q.declare true with previous := some ")" } r' after → r'.Trusty k) :
    r.Trusty ("async function".toList ++ (a.blank ++ a.name) ++ before ++ '(' :: inside ++ [')']
      ++ k) := by
  have hmode : r.scanner.mode = .code := h.alike.mode ▸ hm
  have hidle : r.inNumber = false := h.not_inNumber (Rewriter.isLetter_of_type type)
  obtain ⟨-, hb, hname, -⟩ := Rewriter.peekName?_eq_some ahead
  have hne := Rewriter.blank_ne_nil ahead hrest
  rw [show "async function".toList = "async".toList ++ ' ' :: "function".toList by decide]
  simp only [List.append_assoc, List.cons_append, List.nil_append]
  refine Reader.trusty_name ⟨hmode, fun _ _ => Reader.not_goesOn_of_idle hidle⟩ (by decide)
    (stopsRun_space _) (fun he => absurd he (by decide)) fun member _ => ?_
  have hword : { r with inNumber := false }.word member "async".toList =
      { r with inNumber := false, lead := if member then .member else .async } := by
    unfold Reader.word
    rw [String.ofList_toList, if_neg (by decide), if_pos rfl]
  rw [hword]
  refine Reader.trusty_space hmode (by decide) ?_
  refine Reader.trusty_function
    (r := { r with inNumber := false, lead := if member then .member else .async })
    ⟨hmode, fun _ _ => Reader.not_goesOn_of_idle rfl⟩ (stopsRun_of_isSpace hne hb _) fun hlead => ?_
  have hasync : (if member then Lead.member else .async) = .async := by
    cases member with
    | true => exact absurd rfl hlead
    | false => rfl
  rw [hasync]
  refine Reader.trusty_declared
    (r := { r with inNumber := false, lead := .async }.word false "function".toList) hmode rfl hb
    hname identifier (stopsRun_parens blank _) ?_
  refine Reader.trusty_parens
    (r := { { r with inNumber := false, lead := .async }.word false "function".toList with
      lead := .other }) hmode rfl blank (ih _ ?_)
  exact ⟨⟨⟨h.alike.mode, h.alike.depth, h.alike.interpolations⟩, h.below.declare fun _ => rfl,
    h.parens⟩, nofun, fun he => absurd (Option.some.inj he) (by decide)⟩

/-- What is left behind a name of code and its fate has only segments that were left before. -/
theorem Rewriter.Fate.segments_rest {rest : List Char} {o : Rewritten} (h : Fate q w rest o)
    (hm : q.scanner.mode = .code) :
    ∃ gs, q.scanner.segments rest = gs ++ q.scanner.segments o.rest := by
  cases h with
  | copied => exact ⟨[], rfl⟩
  | awaited => exact ⟨[], rfl⟩
  | bound => exact ⟨[], rfl⟩
  | dropped a type ahead =>
    have hmarks : ∀ c ∈ rest.takeWhile isHorizontal, IsMark c := fun c hc =>
      isMark_of_isSpace (isSpace_of_isHorizontal (List.mem_takeWhile_imp hc))
    have hsplit := segments_marks hm hmarks (rest.dropWhile isHorizontal)
    rw [List.takeWhile_append_dropWhile] at hsplit
    exact ⟨_, hsplit⟩
  | declared a type ahead identifier =>
    obtain ⟨heq, hb, hname, hstop⟩ := peekName?_eq_some ahead
    refine ⟨a.blank.map (fun c => ⟨.code, [c]⟩) ++ [⟨.code, a.name⟩], ?_⟩
    rw [heq, segments_ahead hm hb hname hstop, List.append_assoc]
    rfl
  | entry a type ahead identifier before inside after split blank =>
    obtain ⟨heq, hb, hname, -⟩ := peekName?_eq_some ahead
    refine ⟨a.blank.map (fun c => ⟨.code, [c]⟩) ++ ⟨.code, a.name⟩ ::
      (before ++ '(' :: inside ++ [')']).map (fun c => ⟨.code, [c]⟩), ?_⟩
    rw [heq, split, segments_ahead hm hb hname (stopsRun_parens blank _),
      segments_parens hm blank]
    simp only [List.append_assoc, List.cons_append]

/-- **Every fate of a name may be trusted** if what is left behind it may be. -/
theorem Rewriter.Fate.trusty {rest : List Char} {o : Rewritten} (hf : Fate q (c :: w) rest o)
    (h : InStep q r ((c :: w) ++ rest)) (hm : q.scanner.mode = .code)
    (hw : isName (c :: w) = true) (hrest : StopsRun isNameChar rest)
    (hawait : String.ofList (c :: w) ≠ "await") (hk : Follows .code o.rest k)
    (ih : ∀ r', InStep o.rewriter r' o.rest → r'.Trusty k) : r.Trusty (o.out ++ k) := by
  have hmode : r.scanner.mode = .code := h.alike.mode ▸ hm
  have free (hl : isLetter c = true) (v : List Char) : r.Free v :=
    ⟨hmode, fun _ _ => Reader.not_goesOn_of_idle (h.not_inNumber hl)⟩
  cases hf with
  | copied => exact h.trusty_copied hm hw (hrest.name_of_follows hk) hawait ih
  | awaited name suspendable =>
    exact h.trusty_awaited hm hw (hrest.name_of_follows hk) name suspendable ih
  | dropped a type ahead =>
    refine ih r ⟨h.toAbreast, fun hn => ?_, h.lead⟩
    rw [h.not_inNumber (isLetter_of_type type)] at hn
    cases hn
  | bound type =>
    refine Reader.trusty_plain (w := "let".toList) (free (isLetter_of_type type) _) (by decide)
      (hrest.name_of_follows hk) (by decide) (by decide) (fun he => absurd he (by decide)) ?_
    exact ih _ ⟨⟨h.alike, h.below, h.parens⟩, nofun,
      fun he => absurd (Option.some.inj he) (by decide)⟩
  | declared a type ahead identifier =>
    obtain ⟨-, hb, hname, hstop⟩ := peekName?_eq_some ahead
    have hne := blank_ne_nil ahead hrest
    rw [List.append_assoc, List.append_assoc]
    refine Reader.trusty_function (free (isLetter_of_type type) _)
      (stopsRun_of_isSpace hne hb _) fun _ => ?_
    refine Reader.trusty_declared (r := { r with inNumber := false }.word false "function".toList) hmode rfl hb
      hname identifier (hstop.name_of_follows hk) (ih _ ?_)
    refine ⟨⟨⟨h.alike.mode, h.alike.depth, h.alike.interpolations⟩, h.below.declare nofun,
      h.parens⟩, nofun, fun he => ?_⟩
    rw [isIdentifier, Option.some.inj he] at identifier
    exact absurd identifier (by decide)
  | entry a type ahead identifier before inside after split blank =>
    exact h.trusty_entry hm hrest type ahead identifier blank ih

/-- **What the pass writes may be trusted** where nothing awaits yet. -/
theorem trusty_run (q : Rewriter) (cs : List Char) (r : Reader) (h : InStep q r cs)
    (hawait : ⟨.code, "await".toList⟩ ∉ q.scanner.segments cs) : r.Trusty (q.run cs) := by
  induction q, cs using Rewriter.run.induct generalizing r with
  | case1 q => rw [Rewriter.run_nil]; exact r.trusty_nil
  | case2 q c cs ih =>
    rw [Rewriter.run_cons]
    by_cases hname : Rewriter.AtName q.scanner c
    · have hw : isName (c :: cs.takeWhile isNameChar) = true :=
        isName_cons.mpr ⟨hname.2, fun d => List.mem_takeWhile_imp⟩
      have hstop := stopsRun_dropWhile isNameChar cs
      rw [← List.takeWhile_append_dropWhile (p := isNameChar) (l := cs), ← List.cons_append,
        segments_word hname.1 hw hstop] at hawait
      rw [← List.takeWhile_append_dropWhile (p := isNameChar) (l := cs)] at h
      rw [Rewriter.step_of_name hname] at ih ⊢
      have hf := Rewriter.fate_word q (c :: cs.takeWhile isNameChar) (cs.dropWhile isNameChar)
      generalize q.word (c :: cs.takeWhile isNameChar) (cs.dropWhile isNameChar) = o at ih hf ⊢
      have hk := Rewriter.follows_run o.rewriter o.rest
      rw [hf.alike.mode, hname.1] at hk
      refine hf.trusty h hname.1 hw hstop (fun he => hawait ?_) hk fun r' hr' => ih r' hr' ?_
      · rw [← String.toList_ofList (l := c :: _), he]
        exact List.mem_cons_self
      · obtain ⟨gs, hgs⟩ := hf.segments_rest hname.1
        rw [segments_of_alike hf.alike]
        intro hmem
        refine hawait (List.mem_cons_of_mem _ ?_)
        rw [hgs]
        exact List.mem_append_right _ hmem
    · obtain ⟨hout, hrest, halike⟩ := Rewriter.step_of_other cs hname
      have hk := Rewriter.follows_run (q.step c cs).rewriter (q.step c cs).rest
      rw [halike.mode, hrest] at hk
      rw [hout]
      refine h.trusty_other hname (hrest ▸ hk) fun r' hr' => ih r' hr' ?_
      rw [hrest, segments_of_alike halike]
      intro hmem
      rw [segments_cons] at hawait
      exact hawait (List.mem_cons_of_mem _ hmem)

end LedSketch.Dialect
