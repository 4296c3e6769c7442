import LedSketch.Proofs.Dialect.Reader
import LedSketch.Proofs.Grammar.Painting

/-!
# Reading comments, strings and templates

What the grammar takes for a comment, a string or the text of a template, the reader reads as such,
and it comes out with the same open braces and bodies.

* `Inside`: the reader is in a mode, and what it has open is known.
* `along_comment`, `along_string`, `along_chunk`: the texts that quotes or comment marks enclose.
* `along_gap`: white space and comments.
* `along_properEnd`: an end of statement that closes every comment at the first comment end.
-/

namespace LedSketch.Grammar

open Text Scan Scanner Dialect

/-- What is open at a place: braces, function bodies and interpolations. -/
structure Frame where
  depth : Nat
  bodies : List Body
  interpolations : List Nat

/-- The reader has `F` open, its pending declaration is as `ok` says, and no word was `async`. -/
structure Open (F : Frame) (ok : Option Bool → Prop) (r : Reader) : Prop where
  depth : r.scanner.nesting.depth = F.depth
  bodies : r.scanner.nesting.bodies = F.bodies
  interpolations : r.scanner.interpolations = F.interpolations
  pending : ok r.scanner.nesting.pending
  lead : r.lead ≠ .async

/-- Two states that differ at most in the mode and in numbers. -/
structure Same (r r' : Reader) : Prop where
  nesting : r'.scanner.nesting = r.scanner.nesting
  interpolations : r'.scanner.interpolations = r.scanner.interpolations
  lead : r'.lead = r.lead

/-- The reader is in mode `m`, and in no number. -/
structure Idle (m : Mode) (r : Reader) : Prop where
  mode : r.scanner.mode = m
  number : r.inNumber = false

/-- The reader is in mode `m`, and in no number. -/
structure Inside (m : Mode) (F : Frame) (ok : Option Bool → Prop) (r : Reader) : Prop
    extends Open F ok r where
  mode : r.scanner.mode = m
  number : r.inNumber = false

/-- The reader is at a place between two lexemes: in code, or in a line comment that ends the source.
A number that it is still in goes on at most behind a point. -/
structure At (F : Frame) (ok : Option Bool → Prop) (r : Reader) (cs : List Char) : Prop
    extends Open F ok r where
  ready : r.scanner.mode = .code ∨ r.scanner.mode = .lineComment ∧ cs = []
  number : r.inNumber = true → StopsRun isWordChar cs

variable {m : Mode} {F : Frame} {ok : Option Bool → Prop} {r : Reader} {c : Char}
  {cs ds xs : List Char}

theorem Same.refl (r : Reader) : Same r r := ⟨rfl, rfl, rfl⟩

theorem Same.trans {r r' r'' : Reader} (h : Same r r') (h' : Same r' r'') : Same r r'' :=
  ⟨h'.nesting.trans h.nesting, h'.interpolations.trans h.interpolations, h'.lead.trans h.lead⟩

theorem Open.same {r' : Reader} (h : Open F ok r) (hs : Same r r') : Open F ok r' where
  depth := by rw [hs.nesting, h.depth]
  bodies := by rw [hs.nesting, h.bodies]
  interpolations := hs.interpolations.trans h.interpolations
  pending := by rw [hs.nesting]; exact h.pending
  lead := by rw [hs.lead]; exact h.lead

theorem Open.inside {r' : Reader} (h : Open F ok r) (hs : Same r r') (hi : Idle m r') :
    Inside m F ok r' := ⟨h.same hs, hi.mode, hi.number⟩

theorem Inside.at (h : Inside .code F ok r) (cs : List Char) : At F ok r cs where
  toOpen := h.toOpen
  ready := Or.inl h.mode
  number := fun hn => by rw [h.number] at hn; cases hn

theorem At.code (h : At F ok r (c :: cs)) : r.scanner.mode = .code := by
  rcases h.ready with h | ⟨-, h⟩
  · exact h
  · cases h

theorem Open.mono {ok' : Option Bool → Prop} (h : Open F ok r) (hok : ∀ p, ok p → ok' p) :
    Open F ok' r :=
  ⟨h.depth, h.bodies, h.interpolations, hok _ h.pending, h.lead⟩

theorem At.mono {ok' : Option Bool → Prop} (h : At F ok r cs) (hok : ∀ p, ok p → ok' p) :
    At F ok' r cs :=
  ⟨h.toOpen.mono hok, h.ready, h.number⟩

/-! ## Single steps -/

theorem step_of_mode_ne (h : r.scanner.mode ≠ .code) (c : Char) (cs : List Char) :
    r.step c cs = r.take (r.scanner.step c cs) := by
  unfold Reader.step
  rw [if_neg fun hg => h hg.1, if_neg fun hg => h hg.1]

theorem step_of_not_goesOn (hn : ¬ r.GoesOn c) (hd : isDecimalDigit c = false) (cs : List Char) :
    r.step c cs = r.take (r.scanner.step c cs) := by
  unfold Reader.step
  rw [if_neg hn, if_neg fun hg => by rw [hd] at hg; cases hg.2]

theorem not_goesOn (h : isNumberChar c = false) : ¬ r.GoesOn c := by
  rintro ⟨-, -, hc⟩
  rw [h] at hc
  cases hc

/-- **A segment that is no code** leaves everything open as it is. -/
theorem Open.step {m' : Mode} {t : Step} (h : Open F ok r)
    (hs : r.step c cs = r.take t) (hk : t.kind ≠ .code)
    (ht : t.scanner = { r.scanner with mode := m' }) :
    ∃ r', Along r (c :: cs) (List.replicate t.text.length t.kind) r' t.rest ∧
      Inside m' F ok r' := by
  have halong := Along.single hs
  rw [Reader.take_kind, Reader.take_text, Reader.take_rest] at halong
  refine ⟨_, halong, ?_⟩
  unfold Reader.take
  rw [ht]
  split
  · rename_i hcode
    exact absurd hcode hk
  · exact ⟨⟨h.depth, h.bodies, h.interpolations, h.pending, nofun⟩, rfl, rfl⟩
  · exact ⟨⟨h.depth, h.bodies, h.interpolations, h.pending, nofun⟩, rfl, rfl⟩
  · exact ⟨⟨h.depth, h.bodies, h.interpolations, h.pending, h.lead⟩, rfl, rfl⟩
  · exact ⟨⟨h.depth, h.bodies, h.interpolations, h.pending, h.lead⟩, rfl, rfl⟩

/-- A segment of a comment changes the mode only. -/
theorem step_comment {m' : Mode} {t : Step} (hs : r.step c cs = r.take t)
    (hk : t.kind = .lineComment ∨ t.kind = .blockComment)
    (ht : t.scanner = { r.scanner with mode := m' }) :
    ∃ r', Along r (c :: cs) (List.replicate t.text.length t.kind) r' t.rest ∧ Same r r' ∧
      Idle m' r' := by
  have halong := Along.single hs
  rw [Reader.take_kind, Reader.take_text, Reader.take_rest] at halong
  refine ⟨_, halong, ?_⟩
  unfold Reader.take
  rw [ht]
  rcases hk with hk | hk <;> rw [hk] <;> exact ⟨⟨rfl, rfl, rfl⟩, rfl, rfl⟩

theorem scanner_eq (h : r.scanner.mode = m) : r.scanner = { r.scanner with mode := m } := by
  rw [← h]

/-- The same where the scanner is not in code. -/
theorem Inside.step {m' : Mode} {t : Step} (h : Inside m F ok r) (hm : m ≠ .code)
    (hs : r.scanner.step c cs = t) (hk : t.kind ≠ .code)
    (ht : t.scanner = { r.scanner with mode := m' }) :
    ∃ r', Along r (c :: cs) (List.replicate t.text.length t.kind) r' t.rest ∧
      Inside m' F ok r' :=
  h.toOpen.step (by rw [step_of_mode_ne (by rw [h.mode]; exact hm), hs]) hk ht

/-- The same where the scanner is in code. -/
theorem At.step {m' : Mode} {t : Step} (h : At F ok r (c :: cs)) (hn : isNumberChar c = false)
    (hd : isDecimalDigit c = false) (hs : r.scanner.stepCode c cs = t) (hk : t.kind ≠ .code)
    (ht : t.scanner = { r.scanner with mode := m' }) :
    ∃ r', Along r (c :: cs) (List.replicate t.text.length t.kind) r' t.rest ∧
      Inside m' F ok r' :=
  h.toOpen.step (by rw [step_of_not_goesOn (not_goesOn hn) hd, step_code h.code, hs]) hk ht

/-- What a step over a mark of code comes to. -/
theorem Open.mark (h : Open F ok r) (hm : r.scanner.mode = .code) (hok : c = ';' → ok none) :
    Inside .code F ok ({ r with inNumber := false }.mark [c]) := by
  unfold Reader.mark
  dsimp only
  split_ifs with h₁ h₂ h₃ h₄
  · exact ⟨⟨h.depth, h.bodies, h.interpolations, h.pending, h.lead⟩, hm, rfl⟩
  · exact ⟨⟨h.depth, h.bodies, h.interpolations, h.pending, nofun⟩, hm, rfl⟩
  · exact ⟨⟨h.depth, h.bodies, h.interpolations, h.pending, nofun⟩, hm, rfl⟩
  · refine ⟨⟨h.depth, h.bodies, h.interpolations, hok ?_, nofun⟩, hm, rfl⟩
    simp only [Bool.and_eq_true, decide_eq_true_eq] at h₄
    simpa using h₄.1
  · exact ⟨⟨h.depth, h.bodies, h.interpolations, h.pending, nofun⟩, hm, rfl⟩

/-- **A mark of code** is read by itself. -/
theorem along_mark (h : At F ok r (c :: cs)) (hc : IsMark c) (hn : isNumberChar c = false)
    (hd : isDecimalDigit c = false) (hs : isNameStart c = false) (hok : c = ';' → ok none) :
    ∃ r', Along r (c :: cs) [.code] r' cs ∧ Inside .code F ok r' := by
  have hstep := step_of_not_goesOn (not_goesOn (r := r) hn) hd cs
  rw [hc r.scanner cs h.code] at hstep
  have hname : isName [c] = false := by simp [isName, hs]
  have halong := Along.single hstep
  simp only [Reader.take, takeOne, hname] at halong
  exact ⟨_, halong, h.toOpen.mark h.code hok⟩

theorem isNumberChar_of_isSpace (h : isSpace c = true) : isNumberChar c = false := by
  have hw := isNameChar_of_isSpace h
  simp only [isNameChar, Bool.or_eq_false_iff] at hw
  have hdot : c ≠ '.' := ne_of_isSpace h (by decide)
  simp [isNumberChar, hw.1, hdot]

/-- **A blank** is read by itself and changes nothing. -/
theorem along_space (hm : r.scanner.mode = .code) (hc : isSpace c = true) (cs : List Char) :
    ∃ r', Along r (c :: cs) [.code] r' cs ∧ Same r r' ∧ Idle .code r' := by
  have hstep := step_of_not_goesOn (not_goesOn (r := r) (isNumberChar_of_isSpace hc))
    (isDecimalDigit_of_isSpace hc) cs
  rw [isMark_of_isSpace hc r.scanner cs hm] at hstep
  have halong := Along.single hstep
  have hname : isName [c] = false := by simp [isName, isNameStart_of_isSpace hc]
  have hblank : isBlank [c] = true := by simp [isBlank, hc]
  simp only [Reader.take, takeOne, hname, Bool.false_eq_true, if_false, Reader.mark, hblank,
    if_true] at halong
  exact ⟨_, halong, ⟨rfl, rfl, rfl⟩, hm, rfl⟩

/-! ## Runs of plain characters -/

/-- A count of characters that takes every plain one as one. -/
def Skips (p : Char → Bool) (f : List Char → Option Nat) : Prop :=
  ∀ c cs n, p c = true → f (c :: cs) = some n → ∃ k, n = k + 1 ∧ f cs = some k

/-- Such a count takes runs of plain characters whole. -/
theorem Skips.run {f : List Char → Option Nat} {p : Char → Bool} (hf : Skips p f)
    (hxs : ∀ x ∈ xs, p x = true) {n : Nat} (h : f (xs ++ ds) = some n) :
    ∃ k, n = xs.length + k ∧ f ds = some k := by
  induction xs generalizing n with
  | nil => exact ⟨n, by simp, h⟩
  | cons x xs ih =>
    obtain ⟨k, rfl, hk⟩ := hf x (xs ++ ds) n (hxs x List.mem_cons_self) h
    obtain ⟨j, rfl, hj⟩ := ih (fun y hy => hxs y (List.mem_cons_of_mem x hy)) hk
    exact ⟨j, by simp only [List.length_cons]; omega, hj⟩

theorem Skips.takeWhile {f : List Char → Option Nat} {p : Char → Bool} (hf : Skips p f)
    (hc : p c = true) {n : Nat} (h : f (c :: cs) = some n) :
    ∃ k, n = (c :: cs.takeWhile p).length + k ∧ f (cs.dropWhile p) = some k ∧
      (c :: cs).drop n = (cs.dropWhile p).drop k := by
  have hsplit : c :: cs = (c :: cs.takeWhile p) ++ cs.dropWhile p := by
    rw [List.cons_append, List.takeWhile_append_dropWhile]
  rw [hsplit] at h
  have hall : ∀ x ∈ c :: cs.takeWhile p, p x = true := by
    intro x hx
    rcases List.mem_cons.mp hx with rfl | hx
    · exact hc
    · exact List.mem_takeWhile_imp hx
  obtain ⟨k, rfl, hk⟩ := hf.run hall h
  refine ⟨k, rfl, hk, ?_⟩
  rw [hsplit, ← List.drop_drop, List.drop_left]

theorem drop_length_takeWhile (p : Char → Bool) (cs : List Char) :
    cs.drop (cs.takeWhile p).length = cs.dropWhile p := by
  have h : (cs.takeWhile p ++ cs.dropWhile p).drop (cs.takeWhile p).length = cs.dropWhile p :=
    List.drop_left
  rwa [List.takeWhile_append_dropWhile] at h

theorem take_runLength (p : Char → Bool) (cs : List Char) :
    cs.take (runLength p cs) = cs.takeWhile p := by
  have h : (cs.takeWhile p ++ cs.dropWhile p).take (cs.takeWhile p).length = cs.takeWhile p :=
    List.take_left
  rwa [List.takeWhile_append_dropWhile] at h

theorem length_dropWhile_lt (p : Char → Bool) (c : Char) (cs : List Char) :
    (cs.dropWhile p).length < (c :: cs).length :=
  Nat.lt_succ_of_le (length_dropWhile_le p cs)

/-! ## Comments -/

theorem commentEnd?_cons (hc : c ≠ '*') (cs : List Char) :
    commentEnd? (c :: cs) = (commentEnd? cs).map (· + 1) := by
  rw [commentEnd?]
  rintro ds rfl
  exact absurd rfl hc

theorem commentEnd?_star (h : cs.head? ≠ some '/') :
    commentEnd? ('*' :: cs) = (commentEnd? cs).map (· + 1) := by
  rw [commentEnd?]
  rintro ds - rfl
  exact h rfl

theorem skips_commentEnd? : Skips (· ≠ '*') commentEnd? := by
  intro c cs n hc h
  rw [commentEnd?_cons (by simpa using hc), Option.map_eq_some_iff] at h
  obtain ⟨k, hk, rfl⟩ := h
  exact ⟨k, rfl, hk⟩

/-- **A comment is read up to the first comment end.** -/
theorem along_comment {n : Nat} (hm : r.scanner.mode = .blockComment)
    (h : commentEnd? cs = some n) :
    ∃ r', Along r cs (List.replicate n .blockComment) r' (cs.drop n) ∧ Same r r' ∧
      Idle .code r' := by
  induction hlen : cs.length using Nat.strong_induction_on generalizing cs r n with
  | _ len ih =>
    cases cs with
    | nil => cases h
    | cons c cs =>
      have hstep := step_of_mode_ne (r := r) (by rw [hm]; nofun) c cs
      rw [step_blockComment hm] at hstep
      by_cases hc : c = '*'
      · subst hc
        rw [if_pos rfl] at hstep
        by_cases hhead : cs.head? = some '/'
        · rw [if_pos hhead] at hstep
          obtain ⟨ds, rfl⟩ := List.head?_eq_some_iff.mp hhead
          cases h
          exact step_comment hstep (Or.inr rfl) rfl
        · rw [if_neg hhead] at hstep
          rw [commentEnd?_star hhead, Option.map_eq_some_iff] at h
          obtain ⟨k, hk, rfl⟩ := h
          obtain ⟨r₁, h₁, hs₁, hi₁⟩ := step_comment hstep (Or.inr rfl) (scanner_eq hm)
          obtain ⟨r₂, h₂, hs₂, hi₂⟩ := ih cs.length (by rw [← hlen]; simp) hi₁.mode hk rfl
          refine ⟨r₂, ?_, hs₁.trans hs₂, hi₂⟩
          rw [List.drop_succ_cons, Nat.add_comm]
          exact h₁.join h₂
      · rw [if_neg hc] at hstep
        obtain ⟨r₁, h₁, hs₁, hi₁⟩ := step_comment hstep (Or.inr rfl) (scanner_eq hm)
        obtain ⟨k, rfl, hk, hdrop⟩ := skips_commentEnd?.takeWhile (by simpa using hc) h
        obtain ⟨r₂, h₂, hs₂, hi₂⟩ :=
          ih _ (by rw [← hlen]; exact length_dropWhile_lt _ c cs) hi₁.mode hk rfl
        refine ⟨r₂, ?_, hs₁.trans hs₂, hi₂⟩
        rw [hdrop]
        exact h₁.join h₂

/-! ## Strings and templates -/

theorem skips_stringTail? (q : Char) : Skips (fun c => c ≠ '\\' && c ≠ q) (stringTail? q) := by
  intro c cs n hc h
  simp only [Bool.and_eq_true, decide_eq_true_eq] at hc
  rw [stringTail?] at h
  · rw [if_neg hc.2] at h
    split_ifs at h
    rw [Option.map_eq_some_iff] at h
    obtain ⟨k, hk, rfl⟩ := h
    exact ⟨k, rfl, hk⟩
  · rintro d ds rfl
    exact absurd rfl hc.1

/-- **A string is read up to its closing quote.** -/
theorem along_stringTail {q : Quote} {n : Nat} (hr : Inside (.string q) F ok r)
    (h : stringTail? q.char cs = some n) :
    ∃ r', Along r cs (List.replicate n .string) r' (cs.drop n) ∧ Inside .code F ok r' := by
  induction hlen : cs.length using Nat.strong_induction_on generalizing cs r n with
  | _ len ih =>
    cases cs with
    | nil => cases h
    | cons c cs =>
      have hstep := step_string hr.mode c cs
      unfold stepQuoted at hstep
      by_cases h₁ : c = '\\'
      · -- an escape is one unit of two characters
        rw [if_pos h₁] at hstep
        subst h₁
        cases cs with
        | nil =>
          cases q <;> simp [stringTail?, Quote.char] at h
        | cons d ds =>
          rw [stringTail?, Option.map_eq_some_iff] at h
          obtain ⟨k, hk, rfl⟩ := h
          obtain ⟨r₁, h₁, hr₁⟩ := hr.step nofun hstep nofun (scanner_eq hr.mode)
          obtain ⟨r₂, h₂, hr₂⟩ := ih ds.length (by simp only [← hlen, List.length_cons]; omega) hr₁ hk rfl
          refine ⟨r₂, ?_, hr₂⟩
          rw [List.drop_succ_cons, List.drop_succ_cons, Nat.add_comm]
          exact h₁.join h₂
      · rw [if_neg h₁] at hstep
        by_cases h₂ : c = q.char
        · rw [if_pos h₂] at hstep
          obtain rfl : n = 1 := by
            rw [stringTail?] at h
            · rw [if_pos h₂] at h
              exact (Option.some.inj h).symm
            · rintro d ds rfl
              exact absurd rfl h₁
          exact hr.step nofun hstep nofun rfl
        · have hplain : (c ≠ '\\' && c ≠ q.char) = true := by simp [h₁, h₂]
          rw [if_neg h₂, if_pos hplain] at hstep
          obtain ⟨r₁, h₁, hr₁⟩ := hr.step nofun hstep nofun (scanner_eq hr.mode)
          obtain ⟨k, rfl, hk, hdrop⟩ := (skips_stringTail? q.char).takeWhile hplain h
          obtain ⟨r₂, h₂, hr₂⟩ :=
            ih _ (by rw [← hlen]; exact length_dropWhile_lt _ c cs) hr₁ hk rfl
          refine ⟨r₂, ?_, hr₂⟩
          rw [hdrop]
          exact h₁.join h₂

theorem chunkLength_cons (hc : c ≠ '\\') (h : c = '$' → cs.head? ≠ some '{') :
    chunkLength (c :: cs) = if c = '\x60' then 0 else 1 + chunkLength cs := by
  rw [chunkLength]
  · simp [hc]
  · rintro d ds rfl
    exact absurd rfl hc
  · rintro ds rfl rfl
    exact h rfl rfl

theorem skips_chunkLength :
    Skips (fun c => c ≠ '\\' && c ≠ '\x60' && c ≠ '$') fun cs => some (chunkLength cs) := by
  intro c cs n hc h
  simp only [Bool.and_eq_true, decide_eq_true_eq] at hc
  dsimp only at h
  rw [chunkLength_cons hc.1.1 fun hd => absurd hd hc.2, if_neg hc.1.2, Option.some.injEq] at h
  exact ⟨chunkLength cs, by omega, rfl⟩

/-- **Template text is read up to an interpolation or the end of the template.** -/
theorem along_chunk (hr : Inside .template F ok r) (cs : List Char) :
    ∃ r', Along r cs (List.replicate (chunkLength cs) .template) r' (cs.drop (chunkLength cs)) ∧
      Inside .template F ok r' := by
  induction hlen : cs.length using Nat.strong_induction_on generalizing cs r with
  | _ len ih =>
    have stay {cs : List Char} (h : chunkLength cs = 0) :
        ∃ r', Along r cs (List.replicate (chunkLength cs) .template) r' (cs.drop (chunkLength cs)) ∧
          Inside .template F ok r' := by
      rw [h]
      exact ⟨r, .refl r cs, hr⟩
    cases cs with
    | nil => exact stay rfl
    | cons c cs =>
      by_cases h₀ : c = '$' ∧ cs.head? = some '{'
      · obtain ⟨rfl, hhead⟩ := h₀
        obtain ⟨ds, rfl⟩ := List.head?_eq_some_iff.mp hhead
        exact stay rfl
      have hstep := step_template hr.mode c cs
      rw [if_neg h₀] at hstep
      unfold stepQuoted at hstep
      by_cases h₁ : c = '\\'
      · subst h₁
        rw [if_pos rfl] at hstep
        cases cs with
        | nil => exact stay (by simp [chunkLength])
        | cons d ds =>
          obtain ⟨r₁, h₁, hr₁⟩ := hr.step nofun hstep nofun (scanner_eq hr.mode)
          obtain ⟨r₂, h₂, hr₂⟩ := ih ds.length (by simp only [← hlen, List.length_cons]; omega) hr₁ ds rfl
          refine ⟨r₂, ?_, hr₂⟩
          rw [chunkLength, Nat.add_comm, List.drop_succ_cons, List.drop_succ_cons, Nat.add_comm]
          exact h₁.join h₂
      rw [if_neg h₁] at hstep
      have hchunk := chunkLength_cons h₁ fun hd hhead => h₀ ⟨hd, hhead⟩
      by_cases h₂ : c = '\x60'
      · exact stay (by rw [hchunk, if_pos h₂])
      rw [if_neg h₂] at hstep hchunk
      by_cases h₃ : c = '$'
      · -- a lone dollar sign
        rw [if_neg (by simp [h₃])] at hstep
        obtain ⟨r₁, h₁, hr₁⟩ := hr.step nofun hstep nofun (scanner_eq hr.mode)
        obtain ⟨r₂, h₂, hr₂⟩ := ih cs.length (by simp [← hlen]) hr₁ cs rfl
        refine ⟨r₂, ?_, hr₂⟩
        rw [hchunk, Nat.add_comm, List.drop_succ_cons, Nat.add_comm]
        exact h₁.join h₂
      · have hplain : (c ≠ '\\' && c ≠ '\x60' && c ≠ '$') = true := by simp [h₁, h₂, h₃]
        rw [if_pos hplain] at hstep
        obtain ⟨r₁, h₁, hr₁⟩ := hr.step nofun hstep nofun (scanner_eq hr.mode)
        obtain ⟨k, hn, hk, hdrop⟩ :=
          skips_chunkLength.takeWhile hplain (rfl : some (chunkLength (c :: cs)) = _)
        have hlt := length_dropWhile_lt (fun c => c ≠ '\\' && c ≠ '\x60' && c ≠ '$') c cs
        obtain ⟨r₂, h₂, hr₂⟩ := ih _ (hlen ▸ hlt) hr₁ _ rfl
        refine ⟨r₂, ?_, hr₂⟩
        rw [hdrop, hn]
        rw [Option.some.inj hk] at h₂
        exact h₁.join h₂

/-! ## White space and ends of statements -/

/-- Behind a line comment a line feed is read as in code. -/
theorem step_lineFeed (hr : r.scanner.mode = .lineComment) (cs : List Char) :
    r.step '\n' cs =
      { r with scanner := { r.scanner with mode := .code } }.step '\n' cs := by
  rw [step_of_mode_ne (by rw [hr]; nofun), step_lineComment hr, if_pos rfl,
    step_of_not_goesOn (not_goesOn (isNumberChar_of_isSpace (by decide))) (by decide),
    isMark_of_isSpace (by decide) _ cs rfl]
  rfl

/-- A line comment is read up to the end of its line. -/
theorem along_lineComment (hm : r.scanner.mode = .lineComment) (cs : List Char) :
    ∃ r', Along r cs (List.replicate (runLength (· ≠ '\n') cs) .lineComment) r'
        (cs.drop (runLength (· ≠ '\n') cs)) ∧ Same r r' ∧ (r' = r ∨ r'.inNumber = false) ∧
      r'.scanner.mode = .lineComment := by
  have stay {cs : List Char} (h : runLength (fun d : Char => decide (d ≠ '\n')) cs = 0) :
      ∃ r', Along r cs (List.replicate (runLength (· ≠ '\n') cs) .lineComment) r'
          (cs.drop (runLength (· ≠ '\n') cs)) ∧ Same r r' ∧ (r' = r ∨ r'.inNumber = false) ∧
        r'.scanner.mode = .lineComment := by
    rw [h]
    exact ⟨r, .refl r cs, .refl r, Or.inl rfl, hm⟩
  cases cs with
  | nil => exact stay rfl
  | cons c cs =>
    have hstep := step_of_mode_ne (r := r) (by rw [hm]; nofun) c cs
    rw [step_lineComment hm] at hstep
    by_cases hc : c = '\n'
    · exact stay (by simp [runLength, hc])
    · rw [if_neg hc] at hstep
      have hrun : runLength (fun d : Char => decide (d ≠ '\n')) (c :: cs) =
          (c :: cs.takeWhile fun d : Char => decide (d ≠ '\n')).length := by
        simp [runLength, hc]
      have hdrop : (c :: cs).drop (c :: cs.takeWhile fun d : Char => decide (d ≠ '\n')).length =
          cs.dropWhile fun d : Char => decide (d ≠ '\n') := by
        rw [List.length_cons, List.drop_succ_cons, drop_length_takeWhile]
      obtain ⟨r', h', hs', hi'⟩ := step_comment hstep (Or.inl rfl) (scanner_eq hm)
      refine ⟨r', ?_, hs', Or.inr hi'.number, hi'.mode⟩
      rw [hrun, hdrop]
      exact h'

theorem isNumberChar_slash : isNumberChar '/' = false :=
  isNumberChar_of_isAsciiMark (by decide) (by decide)

/-- The place that the reader is at: `At` without what is open. -/
def Between (r : Reader) (cs : List Char) : Prop :=
  (r.scanner.mode = .code ∨ r.scanner.mode = .lineComment ∧ cs = []) ∧
    (r.inNumber = true → StopsRun isWordChar cs)

theorem Idle.between (h : Idle .code r) (cs : List Char) : Between r cs :=
  ⟨Or.inl h.mode, fun hn => by rw [h.number] at hn; cases hn⟩

theorem Between.code (h : Between r (c :: cs)) : r.scanner.mode = .code := by
  rcases h.1 with h | ⟨-, h⟩
  · exact h
  · cases h

/-- From the end of a line comment the reader goes on as if it were in code. -/
theorem along_behind_lineComment {ks : List Kind} (hm : r.scanner.mode = .lineComment)
    (hn : r.inNumber = false) (hds : StopsRun (fun d : Char => decide (d ≠ '\n')) ds)
    (h : ∀ r, Between r ds → ∃ r', Along r ds ks r' (ds.drop ks.length) ∧ Same r r' ∧
      Between r' (ds.drop ks.length)) (hks : ks = [] → ds = []) :
    ∃ r', Along r ds ks r' (ds.drop ks.length) ∧ Same r r' ∧ Between r' (ds.drop ks.length) := by
  have hcode : Idle .code { r with scanner := { r.scanner with mode := .code } } := ⟨rfl, hn⟩
  obtain ⟨r', h', hs', hb'⟩ := h _ (hcode.between ds)
  cases h' with
  | refl =>
    obtain rfl := hks rfl
    exact ⟨r, .refl r [], .refl r, Or.inr ⟨hm, rfl⟩, fun hn' => by rw [hn] at hn'; cases hn'⟩
  | @step _ _ c cs _ _ h' =>
    obtain rfl : c = '\n' := by simpa using hds c rfl
    rw [← step_lineFeed hm] at h' hb' ⊢
    exact ⟨r', .step h', ⟨hs'.nesting, hs'.interpolations, hs'.lead⟩, hb'⟩

/-- What a comment and what comes behind it leave. -/
theorem drop_comment (c d : Char) (cs : List Char) (k : Kind) (n : Nat) (ks : List Kind) :
    (c :: d :: cs).drop (List.replicate (2 + n) k ++ ks).length = (cs.drop n).drop ks.length := by
  rw [List.length_append, List.length_replicate, Nat.add_assoc, Nat.add_comm,
    List.drop_succ_cons, List.drop_succ_cons, ← List.drop_drop]

theorem along_openLine (hm : r.scanner.mode = .code) (cs : List Char) :
    ∃ r', Along r ('/' :: '/' :: cs) (List.replicate 2 .lineComment) r' cs ∧ Same r r' ∧
      Idle .lineComment r' := by
  have hstep := step_of_not_goesOn (not_goesOn (r := r) isNumberChar_slash) (by decide) ('/' :: cs)
  rw [step_code hm] at hstep
  exact step_comment hstep (Or.inl rfl) rfl

theorem along_openBlock (hm : r.scanner.mode = .code) (cs : List Char) :
    ∃ r', Along r ('/' :: '*' :: cs) (List.replicate 2 .blockComment) r' cs ∧ Same r r' ∧
      Idle .blockComment r' := by
  have hstep := step_of_not_goesOn (not_goesOn (r := r) isNumberChar_slash) (by decide) ('*' :: cs)
  rw [step_code hm] at hstep
  exact step_comment hstep (Or.inr rfl) rfl

/-- **White space and comments are read as such** and change nothing. -/
theorem along_gap (h : Between r cs) :
    ∃ r', Along r cs (gapKinds cs) r' (cs.drop (gapKinds cs).length) ∧ Same r r' ∧
      Between r' (cs.drop (gapKinds cs).length) := by
  fun_induction gapKinds cs generalizing r with
  | case1 => exact ⟨r, .refl r [], .refl r, h⟩
  | case2 cs n =>
    rename_i ih
    obtain ⟨r₁, h₁, hs₁, hi₁⟩ := along_openLine h.code cs
    obtain ⟨r₂, h₂ : Along r₁ cs (List.replicate n .lineComment) r₂ (cs.drop n), hs₂, hn₂, hm₂⟩ :=
      along_lineComment hi₁.mode cs
    have hn : cs.drop n = cs.dropWhile fun d : Char => decide (d ≠ '\n') :=
      drop_length_takeWhile _ cs
    clear_value n
    have hnumber : r₂.inNumber = false := by
      rcases hn₂ with rfl | hn₂
      · exact hi₁.number
      · exact hn₂
    have hstop : StopsRun (fun d : Char => decide (d ≠ '\n')) (cs.drop n) := by
      rw [hn]
      exact stopsRun_dropWhile _ cs
    have hnil : gapKinds (cs.drop n) = [] → cs.drop n = [] := by
      intro hk
      cases hd : cs.drop n with
      | nil => rfl
      | cons c ds =>
        rw [hd] at hk hstop
        obtain rfl : c = '\n' := by simpa using hstop c rfl
        rw [gapKinds, if_pos (by decide)] at hk
        · cases hk
        · rintro - ⟨⟩
        · rintro - ⟨⟩
    obtain ⟨r₃, h₃, hs₃, hb₃⟩ :=
      along_behind_lineComment hm₂ hnumber hstop (fun r hr => ih hr) hnil
    rw [drop_comment]
    exact ⟨r₃, (h₁.join h₂).trans h₃, (hs₁.trans hs₂).trans hs₃, hb₃⟩
  | case3 cs n hn ih =>
    obtain ⟨r₁, h₁, hs₁, hi₁⟩ := along_openBlock h.code cs
    obtain ⟨r₂, h₂, hs₂, hi₂⟩ := along_comment hi₁.mode hn
    obtain ⟨r₃, h₃, hs₃, hb₃⟩ := ih (hi₂.between _)
    rw [drop_comment]
    exact ⟨r₃, (h₁.join h₂).trans h₃, (hs₁.trans hs₂).trans hs₃, hb₃⟩
  | case4 cs hn => exact ⟨r, .refl r _, .refl r, h⟩
  | case5 c cs h₁ h₂ hc ih =>
    obtain ⟨r₁, h₁, hs₁, hi₁⟩ := along_space h.code (isSpace_of_isWhiteSpace hc) cs
    obtain ⟨r₂, h₂, hs₂, hb₂⟩ := ih (hi₁.between cs)
    exact ⟨r₂, h₁.trans h₂, hs₁.trans hs₂, hb₂⟩
  | case6 c cs h₁ h₂ hc => exact ⟨r, .refl r _, .refl r, h⟩

theorem At.between (h : At F ok r cs) : Between r cs := ⟨h.ready, h.number⟩

theorem Open.at (h : Open F ok r) {r' : Reader} (hs : Same r r') (hb : Between r' cs) :
    At F ok r' cs := ⟨h.same hs, hb.1, hb.2⟩

theorem isSpace_of_isHorizontal (hc : isHorizontal c = true) : isSpace c = true := by
  simp only [isHorizontal, Bool.or_eq_true, beq_iff_eq] at hc
  rcases hc with rfl | rfl <;> decide

/-- **An end of statement is read as such** if it closes every comment at the first comment end. -/
theorem along_properEnd {ks : List Kind} (h : At F ok r cs) (hok : ok none)
    (hks : properEnd? cs = some ks) :
    ∃ r', Along r cs ks r' (cs.drop ks.length) ∧ At F ok r' (cs.drop ks.length) := by
  fun_induction properEnd? cs generalizing r ks with
  | case1 => cases hks; exact ⟨r, .refl r [], h⟩
  | case2 c cs hc ih =>
    obtain ⟨ls, hls, rfl⟩ := Option.map_eq_some_iff.mp hks
    obtain ⟨r₁, h₁, hs₁, hi₁⟩ := along_space h.code (isSpace_of_isHorizontal hc) cs
    obtain ⟨r₂, h₂, hr₂⟩ := ih (h.toOpen.at hs₁ (hi₁.between cs)) hls
    exact ⟨r₂, h₁.trans h₂, hr₂⟩
  | case3 c cs h₁ h₂ =>
    cases hks
    have hc : c = ';' ∨ c = '\n' := by simpa using h₂
    rcases hc with rfl | rfl
    · obtain ⟨r₁, h₁, hr₁⟩ := along_mark h (isMark_of_ne (by decide) (by decide) (by decide)
        (by decide) rfl (by decide) (by decide)) (by decide +kernel) (by decide) (by decide)
        fun _ => hok
      exact ⟨r₁, h₁, hr₁.at cs⟩
    · obtain ⟨r₁, h₁, hs₁, hi₁⟩ := along_space (c := '\n') h.code (by decide) cs
      exact ⟨r₁, h₁, h.toOpen.at hs₁ (hi₁.between cs)⟩
  | case4 cs h₁ h₂ => cases hks; exact ⟨r, .refl r _, h⟩
  | case5 cs h₁ h₂ h₃ =>
    cases hks
    obtain ⟨r₁, h₁, hs₁, hi₁⟩ := along_space (c := '\r') h.code (by decide) ('\n' :: cs)
    obtain ⟨r₂, h₂, hs₂, hi₂⟩ := along_space (c := '\n') hi₁.mode (by decide) cs
    exact ⟨r₂, h₁.trans h₂, h.toOpen.at (hs₁.trans hs₂) (hi₂.between cs)⟩
  | case6 cs h₁ h₂ h₃ => cases hks; exact ⟨r, .refl r _, h⟩
  | case7 cs n hn h₁ h₂ h₃ ih =>
    obtain ⟨ls, hls, rfl⟩ := Option.map_eq_some_iff.mp hks
    obtain ⟨r₁, h₁, hs₁, hi₁⟩ := along_openBlock h.code cs
    obtain ⟨r₂, h₂, hs₂, hi₂⟩ := along_comment hi₁.mode hn
    obtain ⟨r₃, h₃, hr₃⟩ := ih (h.toOpen.at (hs₁.trans hs₂) (hi₂.between _)) hls
    rw [drop_comment]
    exact ⟨r₃, (h₁.join h₂).trans h₃, hr₃⟩
  | case8 cs h₁ h₂ h₃ hn => cases hks
  | case9 c cs h₁ h₂ h₃ h₄ h₅ h₆ => cases hks

end LedSketch.Grammar
