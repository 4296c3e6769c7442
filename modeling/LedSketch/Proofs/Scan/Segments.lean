import LedSketch.Scan.Scanner
import LedSketch.Proofs.Text.Blank
import Mathlib.Data.List.TakeWhile
import Mathlib.Tactic.SplitIfs

/-!
# How the segments of a text depend on what follows

The scanner looks at most one character past the segment it takes, and it looks at no body of the
nesting. So two scanners that agree on mode, depth and interpolations cut a text in the same way,
and a segment survives any change of the text behind it that keeps the next character.

* `step_of_alike`, `segments_of_alike`: scanners that are `Alike` take the same segments.
* `step_of_follows`: a step depends on what is left only through the character that comes next.
* `segments_mark`, `segments_marks`, `segments_name`: the segments of blanks and other marks and of
  a name in code.
-/

namespace LedSketch.Scan

open Text

/-- A step in front of another text. -/
def Step.withRest (t : Step) (ds : List Char) : Step := { t with rest := ds }

namespace Scanner

/-- The segments of a text from a state. -/
def segments (s : Scanner) (cs : List Char) : List Segment := (s.run cs).map Prod.fst

@[simp] theorem segments_nil (s : Scanner) : s.segments [] = [] := by rw [segments, run]; rfl

theorem segments_cons (s : Scanner) (c : Char) (cs : List Char) :
    s.segments (c :: cs) =
      ⟨(s.step c cs).kind, (s.step c cs).text⟩
        :: (s.step c cs).scanner.segments (s.step c cs).rest := by
  rw [segments, run]; rfl

/-! ## Scanners that read alike -/

/-- The parts of the state that decide how a text is cut. -/
structure Alike (s t : Scanner) : Prop where
  mode : s.mode = t.mode
  depth : s.nesting.depth = t.nesting.depth
  interpolations : s.interpolations = t.interpolations

namespace Alike

theorem refl (s : Scanner) : Alike s s := ⟨rfl, rfl, rfl⟩

theorem symm {s t : Scanner} (h : Alike s t) : Alike t s :=
  ⟨h.mode.symm, h.depth.symm, h.interpolations.symm⟩

theorem trans {s t u : Scanner} (h : Alike s t) (h' : Alike t u) : Alike s u :=
  ⟨h.mode.trans h'.mode, h.depth.trans h'.depth, h.interpolations.trans h'.interpolations⟩

end Alike

/-- Two steps with the same segment and rest, into states that read alike. -/
structure SameStep (t u : Step) : Prop where
  kind : t.kind = u.kind
  text : t.text = u.text
  rest : t.rest = u.rest
  scanner : Alike t.scanner u.scanner

theorem stepQuoted_of_alike {s t : Scanner} (h : Alike s t) (k : Kind) (closer : Char)
    (plain : Char → Bool) (c : Char) (cs : List Char) :
    SameStep (s.stepQuoted k closer plain c cs) (t.stepQuoted k closer plain c cs) := by
  have h' : Alike { s with mode := .code } { t with mode := .code } :=
    ⟨rfl, h.depth, h.interpolations⟩
  unfold stepQuoted takeRun takeOne
  split
  · exact ⟨rfl, rfl, rfl, h⟩
  · split
    · exact ⟨rfl, rfl, rfl, h'⟩
    · split <;> exact ⟨rfl, rfl, rfl, h⟩

theorem stepCode_of_alike {s t : Scanner} (h : Alike s t) (c : Char) (cs : List Char) :
    SameStep (s.stepCode c cs) (t.stepCode c cs) := by
  have hm (m : Mode) : Alike { s with mode := m } { t with mode := m } :=
    ⟨rfl, h.depth, h.interpolations⟩
  have hopen : Alike { s with nesting := s.nesting.openBrace }
      { t with nesting := t.nesting.openBrace } :=
    ⟨h.mode, by simp [h.depth], h.interpolations⟩
  unfold stepCode takeOne
  split
  · exact ⟨rfl, rfl, rfl, hm _⟩
  · exact ⟨rfl, rfl, rfl, hm _⟩
  · exact ⟨rfl, rfl, rfl, hopen⟩
  · -- a closing brace asks for the innermost interpolation and for the depth
    simp only [← h.interpolations, ← h.depth]
    split
    · split
      · exact ⟨rfl, rfl, rfl, rfl, by simp [h.depth], rfl⟩
      · exact ⟨rfl, rfl, rfl, h.mode, by simp [h.depth], rfl⟩
    · exact ⟨rfl, rfl, rfl, h.mode, by simp [h.depth], rfl⟩
  · exact ⟨rfl, rfl, rfl, hm _⟩
  · split
    · exact ⟨rfl, rfl, rfl, hm _⟩
    · unfold takeRun
      split
      · exact ⟨rfl, rfl, rfl, h⟩
      · split <;> exact ⟨rfl, rfl, rfl, h⟩

theorem step_of_alike {s t : Scanner} (h : Alike s t) (c : Char) (cs : List Char) :
    SameStep (s.step c cs) (t.step c cs) := by
  have hm (m : Mode) : Alike { s with mode := m } { t with mode := m } :=
    ⟨rfl, h.depth, h.interpolations⟩
  unfold step
  rw [← h.mode]
  split
  · exact stepCode_of_alike h c cs
  · unfold takeOne takeRun
    split
    · exact ⟨rfl, rfl, rfl, hm _⟩
    · exact ⟨rfl, rfl, rfl, h⟩
  · split
    · exact ⟨rfl, rfl, rfl, hm _⟩
    · exact ⟨rfl, rfl, rfl, h⟩
    · exact ⟨rfl, rfl, rfl, h⟩
  · exact stepQuoted_of_alike h ..
  · split
    · exact ⟨rfl, rfl, rfl, rfl, by simp [h.depth], by simp [h.depth, h.interpolations]⟩
    · exact stepQuoted_of_alike h ..

/-- **Scanners that are alike cut a text alike.** -/
theorem segments_of_alike {s t : Scanner} (h : Alike s t) (cs : List Char) :
    s.segments cs = t.segments cs := by
  induction s, cs using run.induct generalizing t with
  | case1 s => simp
  | case2 s c cs _ =>
    rename_i ih
    have hs := step_of_alike h c cs
    rw [segments_cons, segments_cons, hs.kind, hs.text, ← hs.rest]
    rw [ih hs.scanner]

/-! ## What may stand behind a segment -/

/-- A letter of ASCII. -/
def isLetter (c : Char) : Bool := ('a' ≤ c && c ≤ 'z') || ('A' ≤ c && c ≤ 'Z')

/-- Whether `ds` may stand in the place of `cs` behind a segment that leaves the scanner in mode
`m`: the next character is the same, or, in code, a letter gives way to a blank or to the start of
another name. -/
def Follows (m : Mode) (cs ds : List Char) : Prop :=
  ds.head? = cs.head? ∨
    m = .code ∧ ∃ c d, cs.head? = some c ∧ isLetter c = true ∧ ds.head? = some d ∧
      (isNameStart d = true ∨ isSpace d = true)

theorem isNameStart_of_isLetter {c : Char} (h : isLetter c = true) : isNameStart c = true := by
  simp only [isLetter, isNameStart, Bool.or_eq_true] at h ⊢
  exact Or.inl (Or.inl h)

theorem isWordChar_of_isLetter {c : Char} (h : isLetter c = true) : isWordChar c = true := by
  simp only [isLetter, isWordChar, isAsciiAlnum, Bool.or_eq_true] at h ⊢
  exact Or.inl (Or.inl (Or.inl h))

/-- A list that goes on with a character that fails `p`, or ends. -/
def StopsRun (p : Char → Bool) (cs : List Char) : Prop := ∀ c ∈ cs.head?, p c = false

theorem stopsRun_cons {p : Char → Bool} {c : Char} (hc : p c = false) (cs : List Char) :
    StopsRun p (c :: cs) := by
  rintro _ ⟨⟩
  exact hc

theorem stopsRun_space (cs : List Char) : StopsRun isNameChar (' ' :: cs) :=
  stopsRun_cons (isNameChar_of_isSpace (by decide)) cs

theorem stopsRun_dropWhile (p : Char → Bool) (cs : List Char) : StopsRun p (cs.dropWhile p) := by
  intro c hc
  have := List.head?_dropWhile_not p cs
  rw [hc] at this
  simpa using this

theorem takeWhile_append_of_stopsRun {p : Char → Bool} {xs ds : List Char}
    (hx : ∀ c ∈ xs, p c = true) (hd : StopsRun p ds) : (xs ++ ds).takeWhile p = xs := by
  rw [List.takeWhile_append_of_pos hx]
  cases ds with
  | nil => simp
  | cons d ds => simp [hd d rfl]

theorem dropWhile_append_of_stopsRun {p : Char → Bool} {xs ds : List Char}
    (hx : ∀ c ∈ xs, p c = true) (hd : StopsRun p ds) : (xs ++ ds).dropWhile p = ds := by
  rw [List.dropWhile_append_of_pos hx]
  cases ds with
  | nil => rfl
  | cons d ds => simp [hd d rfl]

/-- Outside code only the next character counts. -/
theorem StopsRun.of_follows {p : Char → Bool} {m : Mode} {cs ds : List Char}
    (hc : StopsRun p cs) (hl : m = .code → ∀ c, isLetter c = true → p c = true)
    (h : Follows m cs ds) : StopsRun p ds := by
  rcases h with h | ⟨hm, c, d, hcs, hletter, -, -⟩
  · rwa [StopsRun, h]
  · have := hc c hcs
    rw [hl hm c hletter] at this
    cases this

/-- What stops a name in code still stops it. -/
theorem StopsRun.name_of_follows {m : Mode} {cs ds : List Char} (hc : StopsRun isNameChar cs)
    (h : Follows m cs ds) : StopsRun isNameChar ds :=
  hc.of_follows (fun _ _ hl => isNameChar_of_isNameStart (isNameStart_of_isLetter hl)) h

theorem eq_nil_of_follows {m : Mode} {ds : List Char} (h : Follows m [] ds) : ds = [] := by
  rcases h with h | ⟨-, c, d, hcs, -⟩
  · exact List.head?_eq_none_iff.mp h
  · cases hcs

theorem takeRun_of_stopsRun (s : Scanner) (k : Kind) (p : Char → Bool) (c : Char)
    {cs ds : List Char} (h : StopsRun p ds) :
    s.takeRun k p c (cs.takeWhile p ++ ds) = (s.takeRun k p c cs).withRest ds := by
  have hx : ∀ d ∈ cs.takeWhile p, p d = true := fun d => List.mem_takeWhile_imp
  simp only [takeRun, Step.withRest]
  rw [takeWhile_append_of_stopsRun hx h, dropWhile_append_of_stopsRun hx h]

theorem stepQuoted_of_follows {s : Scanner} {k : Kind} {closer : Char} {plain : Char → Bool}
    {c : Char} {cs ds : List Char} {t : Step} (hs : s.mode ≠ .code)
    (ht : s.stepQuoted k closer plain c cs = t) (h : Follows t.scanner.mode t.rest ds) :
    s.stepQuoted k closer plain c (t.text.tail ++ ds) = t.withRest ds := by
  unfold stepQuoted at ht ⊢
  split_ifs at ht ⊢ with h₁ h₂ h₃ <;> subst ht
  · cases cs with
    | nil => rw [eq_nil_of_follows h]; rfl
    | cons d cs => rfl
  · rfl
  · exact takeRun_of_stopsRun s k plain c
      ((stopsRun_dropWhile plain cs).of_follows (fun hc => absurd hc hs) h)
  · rfl

theorem stepCode_slash (s : Scanner) (cs : List Char) :
    s.stepCode '/' cs =
      if cs.head? = some '/' then
        ⟨.lineComment, ['/', '/'], cs.tail, { s with mode := .lineComment }⟩
      else if cs.head? = some '*' then
        ⟨.blockComment, ['/', '*'], cs.tail, { s with mode := .blockComment }⟩
      else s.takeOne .code '/' cs := by
  match cs with
  | [] => rfl
  | '/' :: cs => rfl
  | '*' :: cs => rfl
  | c :: cs =>
    simp only [List.head?_cons, Option.some.injEq]
    split_ifs with h₁ h₂
    · rw [h₁]; rfl
    · rw [h₂]; rfl
    · unfold stepCode
      split
      · exact absurd (List.cons.inj ‹_›).1 h₁
      · exact absurd (List.cons.inj ‹_›).1 h₂
      · contradiction
      · contradiction
      · contradiction
      · rfl

/-- The characters that a word, a number or a string starts with, and those of no meaning. -/
theorem stepCode_of_ne (s : Scanner) {c : Char} (h₁ : c ≠ '/') (h₂ : c ≠ '{') (h₃ : c ≠ '}')
    (h₄ : c ≠ '\x60') (cs : List Char) :
    s.stepCode c cs =
      match Quote.ofChar? c with
      | some q => takeOne { s with mode := .string q } .string c cs
      | none =>
        if isNameStart c then s.takeRun .code isNameChar c cs
        else if isDecimalDigit c then s.takeRun .code (fun c => isWordChar c || c == '.') c cs
        else s.takeOne .code c cs := by
  unfold stepCode
  split
  · exact absurd rfl h₁
  · exact absurd rfl h₁
  · exact absurd rfl h₂
  · exact absurd rfl h₃
  · exact absurd rfl h₄
  · rfl

/-- A closing brace in code leads back into the template at the depth of the innermost
interpolation; otherwise it is code. What follows it does not matter. -/
theorem stepCode_closeBrace (s : Scanner) (cs : List Char) :
    s.stepCode '}' cs =
      if s.interpolations.head? = some s.nesting.depth then
        takeOne ⟨.template, s.nesting.closeBrace, s.interpolations.tail⟩ .template '}' cs
      else takeOne { s with nesting := s.nesting.closeBrace } .code '}' cs := by
  obtain ⟨m, n, is⟩ := s
  cases is with
  | nil => rfl
  | cons d ds =>
    simp only [List.head?_cons, Option.some.injEq]
    split_ifs with h
    · simp only [stepCode, if_pos h]; rfl
    · simp only [stepCode, if_neg h]

theorem step_code {s : Scanner} (hs : s.mode = .code) (c : Char) (cs : List Char) :
    s.step c cs = s.stepCode c cs := by
  unfold step
  rw [hs]

theorem step_lineComment {s : Scanner} (hs : s.mode = .lineComment) (c : Char)
    (cs : List Char) :
    s.step c cs =
      if c = '\n' then takeOne { s with mode := .code } .code c cs
      else s.takeRun .lineComment (· ≠ '\n') c cs := by
  unfold step
  rw [hs]

theorem step_string {s : Scanner} {q : Quote} (hs : s.mode = .string q) (c : Char)
    (cs : List Char) :
    s.step c cs = s.stepQuoted .string q.char (fun c => c ≠ '\\' && c ≠ q.char) c cs := by
  unfold step
  rw [hs]

theorem step_blockComment {s : Scanner} (hs : s.mode = .blockComment) (c : Char)
    (cs : List Char) :
    s.step c cs =
      if c = '*' then
        if cs.head? = some '/' then
          ⟨.blockComment, ['*', '/'], cs.tail, { s with mode := .code }⟩
        else s.takeOne .blockComment '*' cs
      else s.takeRun .blockComment (· ≠ '*') c cs := by
  unfold step
  rw [hs]
  dsimp only
  split
  · rfl
  · rename_i hne
    rw [if_pos rfl, if_neg fun h => ?_]
    obtain ⟨ds, rfl⟩ := List.head?_eq_some_iff.mp h
    exact hne ds rfl
  · rename_i hne _
    rw [if_neg hne]

theorem step_template {s : Scanner} (hs : s.mode = .template) (c : Char) (cs : List Char) :
    s.step c cs =
      if c = '$' ∧ cs.head? = some '{' then
        ⟨.template, ['$', '{'], cs.tail, ⟨.code, s.nesting.openInterpolation,
          s.nesting.openInterpolation.depth :: s.interpolations⟩⟩
      else s.stepQuoted .template '\x60' (fun c => c ≠ '\\' && c ≠ '\x60' && c ≠ '$') c cs := by
  unfold step
  rw [hs]
  dsimp only
  split
  · rfl
  · rename_i hne
    rw [if_neg]
    rintro ⟨rfl, h⟩
    obtain ⟨ds, rfl⟩ := List.head?_eq_some_iff.mp h
    exact hne ds rfl rfl

theorem stepCode_of_follows {s : Scanner} {c : Char} {cs ds : List Char} {t : Step}
    (ht : s.stepCode c cs = t) (h : Follows t.scanner.mode t.rest ds) :
    s.stepCode c (t.text.tail ++ ds) = t.withRest ds := by
  by_cases h₁ : c = '/'
  · subst h₁
    rw [stepCode_slash] at ht
    split_ifs at ht with h₂ h₃ <;> subst ht
    · rfl
    · rfl
    · -- a lone slash: neither does `ds` go on to a comment
      have hd : ∀ d, (d = '/' ∨ d = '*') → ds.head? ≠ some d := by
        intro d hd hds
        rcases h with h | ⟨-, _, e, -, -, he, hstart⟩
        · rw [hds] at h
          rcases hd with rfl | rfl
          · exact h₂ h.symm
          · exact h₃ h.symm
        · rw [hds] at he
          cases he
          rcases hd with rfl | rfl <;> revert hstart <;> decide
      simp only [takeOne, List.tail_cons, List.nil_append]
      rw [stepCode_slash, if_neg (hd _ (Or.inl rfl)), if_neg (hd _ (Or.inr rfl))]
      rfl
  by_cases h₂ : c = '{'
  · subst h₂ ht; rfl
  by_cases h₃ : c = '}'
  · subst h₃
    rw [stepCode_closeBrace] at ht ⊢
    split_ifs at ht ⊢ <;> subst ht <;> rfl
  by_cases h₄ : c = '\x60'
  · subst h₄ ht; rfl
  rw [stepCode_of_ne s h₁ h₂ h₃ h₄] at ht ⊢
  have word {p : Char → Bool} (hp : ∀ c, isLetter c = true → p c = true)
      (h : Follows s.mode (cs.dropWhile p) ds) : StopsRun p ds :=
    (stopsRun_dropWhile p cs).of_follows (fun _ => hp) h
  split at ht
  · subst ht; rfl
  · split_ifs at ht ⊢ with h₅ h₆ <;> subst ht
    · exact takeRun_of_stopsRun s _ _ c
        (word (fun c hc => isNameChar_of_isNameStart (isNameStart_of_isLetter hc)) h)
    · exact takeRun_of_stopsRun s _ _ c
        (word (fun c hc => by simp [isWordChar_of_isLetter hc]) h)
    · rfl

/-- Outside code `ds` goes on with the very character that `cs` goes on with. -/
theorem head?_eq_of_follows {m : Mode} {cs ds : List Char} (hm : m ≠ .code)
    (h : Follows m cs ds) : ds.head? = cs.head? := by
  rcases h with h | ⟨hc, -⟩
  · exact h
  · exact absurd hc hm

/-- **A step depends on what is left only through the character that comes next.** -/
theorem step_of_follows {s : Scanner} {c : Char} {cs ds : List Char} {t : Step}
    (ht : s.step c cs = t) (h : Follows t.scanner.mode t.rest ds) :
    s.step c (t.text.tail ++ ds) = t.withRest ds := by
  cases hm : s.mode with
  | code =>
    rw [step_code hm] at ht ⊢
    exact stepCode_of_follows ht h
  | lineComment =>
    rw [step_lineComment hm] at ht ⊢
    split_ifs at ht ⊢ with hc <;> subst ht
    · rfl
    · refine takeRun_of_stopsRun s _ _ c ((stopsRun_dropWhile _ cs).of_follows ?_ h)
      exact fun hcode => absurd (hm ▸ hcode) (by decide)
  | blockComment =>
    rw [step_blockComment hm] at ht ⊢
    split_ifs at ht with h₁ h₂ <;> subst ht
    · simp [h₁, Step.withRest]
    · have hd : ds.head? = cs.head? := head?_eq_of_follows (by simp [takeOne, hm]) h
      rw [if_pos h₁, if_neg (by simpa [takeOne, hd] using h₂)]
      rfl
    · rw [if_neg h₁]
      refine takeRun_of_stopsRun s _ _ c ((stopsRun_dropWhile _ cs).of_follows ?_ h)
      exact fun hcode => absurd (hm ▸ hcode) (by decide)
  | string q =>
    rw [step_string hm] at ht ⊢
    exact stepQuoted_of_follows (by simp [hm]) ht h
  | template =>
    rw [step_template hm] at ht ⊢
    split_ifs at ht with h₁
    · subst ht
      simp [h₁.1, Step.withRest]
    · rw [if_neg, stepQuoted_of_follows (by simp [hm]) ht h]
      rintro ⟨rfl, hd⟩
      -- a lone dollar sign: neither does `ds` go on with a brace
      subst ht
      have hd' : ds.head? = cs.head? := head?_eq_of_follows (by simp [stepQuoted, takeOne, hm]) h
      exact h₁ ⟨rfl, by simpa [stepQuoted, takeOne, hd'] using hd⟩

theorem text_eq_cons (s : Scanner) (c : Char) (cs : List Char) :
    (s.step c cs).text = c :: (s.step c cs).text.tail := by
  have h := text_append_rest s c cs
  cases ht : (s.step c cs).text with
  | nil => exact absurd ht (text_ne_nil s c cs)
  | cons d ds =>
    rw [ht, List.cons_append, List.cons.injEq] at h
    rw [h.1, List.tail_cons]

/-- **A segment survives any change of the text behind it that it does not see.** -/
theorem segments_of_follows {s : Scanner} {c : Char} {cs ds : List Char}
    (h : Follows (s.step c cs).scanner.mode (s.step c cs).rest ds) :
    s.segments ((s.step c cs).text ++ ds) =
      ⟨(s.step c cs).kind, (s.step c cs).text⟩ :: (s.step c cs).scanner.segments ds := by
  rw [text_eq_cons, List.cons_append, segments_cons, step_of_follows rfl h, ← text_eq_cons]
  rfl

/-! ## Names, blanks and marks in code -/

/-- A character that is a segment of its own in code and leaves the scanner as it is. -/
def IsMark (c : Char) : Prop :=
  ∀ (s : Scanner) (cs : List Char), s.mode = .code → s.step c cs = s.takeOne .code c cs

theorem isMark_of_ne {c : Char} (h₁ : c ≠ '/') (h₂ : c ≠ '{') (h₃ : c ≠ '}') (h₄ : c ≠ '\x60')
    (hq : Quote.ofChar? c = none) (hn : isNameStart c = false) (hd : isDecimalDigit c = false) :
    IsMark c := by
  intro s cs hs
  rw [step_code hs, stepCode_of_ne s h₁ h₂ h₃ h₄, hq]
  simp [hn, hd]

theorem isMark_of_isSpace {c : Char} (h : isSpace c = true) : IsMark c := by
  have hne {d : Char} (hd : isSpace d = false) : c ≠ d := ne_of_isSpace h hd
  refine isMark_of_ne (hne (by decide)) (hne (by decide)) (hne (by decide)) (hne (by decide)) ?_
    (isNameStart_of_isSpace h) (isDecimalDigit_of_isSpace h)
  simp only [Quote.ofChar?, if_neg (hne (d := '"') (by decide)),
    if_neg (hne (d := '\'') (by decide))]

theorem isMark_openParen : IsMark '(' :=
  isMark_of_ne (by decide) (by decide) (by decide) (by decide) rfl (by decide) (by decide)

theorem isMark_closeParen : IsMark ')' :=
  isMark_of_ne (by decide) (by decide) (by decide) (by decide) rfl (by decide) (by decide)

theorem segments_mark {s : Scanner} (hs : s.mode = .code) {c : Char} (hc : IsMark c)
    (cs : List Char) : s.segments (c :: cs) = ⟨.code, [c]⟩ :: s.segments cs := by
  rw [segments_cons, hc s cs hs]
  rfl

theorem segments_marks {s : Scanner} (hs : s.mode = .code) {xs : List Char}
    (hx : ∀ c ∈ xs, IsMark c) (cs : List Char) :
    s.segments (xs ++ cs) = xs.map (fun c => ⟨.code, [c]⟩) ++ s.segments cs := by
  induction xs with
  | nil => rfl
  | cons c xs ih =>
    rw [List.cons_append, segments_mark hs (hx c List.mem_cons_self),
      ih fun d hd => hx d (List.mem_cons_of_mem c hd)]
    rfl

theorem step_name {s : Scanner} (hs : s.mode = .code) {c : Char} (hc : isNameStart c = true)
    (cs : List Char) : s.step c cs = s.takeRun .code isNameChar c cs := by
  have hne : ∀ d : Char, isNameStart d = false → c ≠ d := by
    rintro d hd rfl
    rw [hc] at hd
    cases hd
  rw [step_code hs, stepCode_of_ne s (hne _ (by decide)) (hne _ (by decide)) (hne _ (by decide))
    (hne _ (by decide))]
  have hq : Quote.ofChar? c = none := by
    simp only [Quote.ofChar?, if_neg (hne '"' (by decide)), if_neg (hne '\'' (by decide))]
  rw [hq]
  simp [hc]

theorem segments_name {s : Scanner} (hs : s.mode = .code) {c : Char} (hc : isNameStart c = true)
    {w cs : List Char} (hw : ∀ d ∈ w, isNameChar d = true) (hcs : StopsRun isNameChar cs) :
    s.segments (c :: (w ++ cs)) = ⟨.code, c :: w⟩ :: s.segments cs := by
  rw [segments_cons, step_name hs hc]
  simp only [takeRun]
  rw [takeWhile_append_of_stopsRun hw hcs, dropWhile_append_of_stopsRun hw hcs]

end Scanner
end LedSketch.Scan
