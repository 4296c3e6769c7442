import LedSketch.Proofs.Grammar.Words

/-!
# Reading braces, quotes and interpolations

What opens and what closes: each opening lemma says which frame the reader comes into, and the
closing one leads back out of it.

* `Frame.braced`, `Frame.interpolated`: what is open behind a brace and in an interpolation.
* `along_openBrace`, `along_closeBrace`: a brace of code, which may open the body of a function.
* `along_string`: a whole string.
* `along_openInterpolation`, `along_closeInterpolation`: from template text into code and back.
-/

namespace LedSketch.Grammar

open Text Scan Scanner Dialect

/-- What is open behind an ordinary brace, which is the body of the pending declaration `p`. -/
def Frame.braced (F : Frame) (p : Option Bool) : Frame where
  depth := F.depth + 1
  bodies := match p with
    | some s => ⟨s, F.depth + 1⟩ :: F.bodies
    | none => F.bodies
  interpolations := F.interpolations

/-- What is open inside of an interpolation. -/
def Frame.interpolated (F : Frame) : Frame :=
  ⟨F.depth + 1, F.bodies, (F.depth + 1) :: F.interpolations⟩

/-- Whether the innermost body may suspend. -/
def Frame.suspendable (F : Frame) : Bool :=
  match F.bodies with
  | [] => false
  | b :: _ => b.suspendable

/-- Nothing that is open was opened further inside. -/
structure Frame.Sound (F : Frame) : Prop where
  bodies : ∀ b ∈ F.bodies, b.entryDepth ≤ F.depth
  interpolations : ∀ i ∈ F.interpolations, i ≤ F.depth

variable {m : Mode} {F : Frame} {ok : Option Bool → Prop} {r : Reader} {c : Char}
  {cs ds : List Char}

theorem Frame.Sound.braced (h : F.Sound) (p : Option Bool) : (F.braced p).Sound where
  bodies := by
    intro b hb
    cases p with
    | none => exact (h.bodies b hb).trans (Nat.le_succ _)
    | some s =>
      rcases List.mem_cons.mp hb with rfl | hb
      · exact le_rfl
      · exact (h.bodies b hb).trans (Nat.le_succ _)
  interpolations i hi := (h.interpolations i hi).trans (Nat.le_succ _)

theorem Frame.Sound.interpolated (h : F.Sound) : F.interpolated.Sound where
  bodies b hb := (h.bodies b hb).trans (Nat.le_succ _)
  interpolations := by
    intro i hi
    rcases List.mem_cons.mp hi with rfl | hi
    · exact le_rfl
    · exact (h.interpolations i hi).trans (Nat.le_succ _)

theorem Open.suspendable (h : Open F ok r) : r.suspendable = F.suspendable := by
  unfold Reader.suspendable Nesting.suspendable Frame.suspendable
  cases hF : F.bodies <;> simp only [h.bodies, hF]

/-- Closing a brace leaves the bodies that were open before it. -/
theorem Frame.Sound.dropWhile_bodies (h : F.Sound) :
    F.bodies.dropWhile (fun b => decide (F.depth < b.entryDepth)) = F.bodies := by
  cases hb : F.bodies with
  | nil => rfl
  | cons b bs =>
    have := h.bodies b (by simp [hb])
    rw [List.dropWhile_cons_of_neg]
    simpa using this

theorem Frame.Sound.dropWhile_braced (h : F.Sound) (p : Option Bool) :
    (F.braced p).bodies.dropWhile (fun b => decide (F.depth < b.entryDepth)) = F.bodies := by
  cases p with
  | none => exact h.dropWhile_bodies
  | some s =>
    rw [Frame.braced, List.dropWhile_cons_of_pos (by simp)]
    exact h.dropWhile_bodies

/-! ## Braces of code -/

/-- A mark of code that changes the scanner. -/
theorem along_brace {s : Scanner} (hm : r.scanner.mode = .code) (hn : isNumberChar c = false)
    (hd : isDecimalDigit c = false) (hname : isName [c] = false) (hblank : isBlank [c] = false)
    (h₁ : c ≠ '(') (h₂ : c ≠ ')') (h₃ : c ≠ ';')
    (hs : r.scanner.stepCode c cs = ⟨.code, [c], cs, s⟩) :
    Along r (c :: cs) [.code]
      { r with scanner := s, inNumber := false, lead := .other } cs := by
  have hstep := step_of_not_goesOn (not_goesOn (r := r) hn) hd cs
  rw [step_code hm, hs] at hstep
  have halong := Along.single hstep
  have hp₁ : [c] ≠ ['('] := by simpa using h₁
  have hp₂ : [c] ≠ [')'] := by simpa using h₂
  have hp₃ : [c] ≠ [';'] := by simpa using h₃
  simpa [Reader.take, hname, Reader.mark, hblank, hp₁, hp₂, hp₃] using halong

/-- **A brace opens** the body of the pending declaration, or a block. -/
theorem along_openBrace (h : At F ok r ('{' :: cs)) :
    ∃ p r', ok p ∧ Along r ('{' :: cs) [.code] r' cs ∧
      Inside .code (F.braced p) (· = none) r' := by
  have halong := along_brace (s := { r.scanner with nesting := r.scanner.nesting.openBrace })
    h.code (isNumberChar_of_isAsciiMark (by decide) (by decide)) (by decide) (by decide)
    (by decide) (by decide) (by decide) (by decide) (rfl : r.scanner.stepCode '{' cs = _)
  refine ⟨r.scanner.nesting.pending, _, h.pending, halong, ⟨?_, ?_, h.interpolations, ?_,
    nofun⟩, h.code, rfl⟩
  · simp [Frame.braced, h.depth]
  · unfold Nesting.openBrace Frame.braced
    cases r.scanner.nesting.pending <;> simp [h.depth, h.bodies]
  · unfold Nesting.openBrace
    cases r.scanner.nesting.pending <;> simp

/-- **A brace closes** what the matching one opened. -/
theorem along_closeBrace {p : Option Bool} (hF : F.Sound)
    (h : At (F.braced p) ok r ('}' :: cs)) :
    ∃ r', Along r ('}' :: cs) [.code] r' cs ∧ Inside .code F ok r' := by
  have hhead : ¬ r.scanner.interpolations.head? = some r.scanner.nesting.depth := by
    rw [h.interpolations, h.depth]
    intro hd
    have hle : F.depth + 1 ≤ F.depth := hF.interpolations _ (List.mem_of_mem_head? hd)
    omega
  have hstep := stepCode_closeBrace r.scanner cs
  rw [if_neg hhead] at hstep
  have halong := along_brace h.code (isNumberChar_of_isAsciiMark (by decide) (by decide))
    (by decide) (by decide) (by decide) (by decide) (by decide) (by decide) hstep
  have hdepth : r.scanner.nesting.depth - 1 = F.depth := by
    rw [h.depth]
    simp [Frame.braced]
  refine ⟨_, halong, ⟨?_, ?_, h.interpolations, h.pending, nofun⟩,
    h.code, rfl⟩
  · simpa using hdepth
  · simp only [Nesting.closeBrace, hdepth, h.bodies]
    exact hF.dropWhile_braced p

/-! ## Strings -/

/-- **A string** is read from quote to quote. -/
theorem along_string {n : Nat} (h : At F ok r cs) (hn : string? cs = some n) :
    ∃ r', Along r cs (List.replicate n .string) r' (cs.drop n) ∧ At F ok r' (cs.drop n) := by
  cases cs with
  | nil => cases hn
  | cons c cs =>
    have key (q : Quote) (hq : c = q.char) :
        ∃ r', Along r (c :: cs) (List.replicate n .string) r' ((c :: cs).drop n) ∧
          At F ok r' ((c :: cs).drop n) := by
      have hquote : Quote.ofChar? c = some q := by rw [hq]; cases q <;> rfl
      have hne (d : Char) (hd : Quote.ofChar? d = none) : c ≠ d := by
        rintro rfl
        rw [hquote] at hd
        cases hd
      have hstep := stepCode_of_ne r.scanner (hne '/' rfl) (hne '{' rfl) (hne '}' rfl)
        (hne '\x60' rfl) cs
      rw [hquote] at hstep
      obtain ⟨r₁, h₁, hr₁⟩ := h.step
        (by rw [hq]; cases q <;> exact isNumberChar_of_isAsciiMark (by decide) (by decide))
        (by rw [hq]; cases q <;> decide) hstep nofun rfl
      have htail : (stringTail? q.char cs).map (· + 1) = some n := by
        rw [string?, hq] at hn
        cases q <;> simpa [Quote.char] using hn
      obtain ⟨k, hk, rfl⟩ := Option.map_eq_some_iff.mp htail
      obtain ⟨r₂, h₂, hr₂⟩ := along_stringTail hr₁ hk
      refine ⟨r₂, ?_, hr₂.at _⟩
      rw [List.drop_succ_cons, Nat.add_comm]
      exact h₁.join h₂
    by_cases hd : c = '"'
    · exact key .double hd
    by_cases hs : c = '\''
    · exact key .single hs
    · simp [string?, hd, hs] at hn

/-! ## Templates -/

/-- A template opens. -/
theorem along_openTemplate (h : At F ok r ('\x60' :: cs)) :
    ∃ r', Along r ('\x60' :: cs) [.template] r' cs ∧ Inside .template F ok r' :=
  h.step (isNumberChar_of_isAsciiMark (by decide) (by decide)) (by decide) rfl nofun rfl

/-- A template closes. -/
theorem along_closeTemplate (h : Inside .template F ok r) (cs : List Char) :
    ∃ r', Along r ('\x60' :: cs) [.template] r' cs ∧ Inside .code F ok r' := by
  have hstep := step_template h.mode '\x60' cs
  rw [if_neg (by simp)] at hstep
  exact h.step nofun hstep nofun rfl

/-- **An interpolation opens** inside of a template. -/
theorem along_openInterpolation (h : Inside .template F ok r) (cs : List Char) :
    ∃ r', Along r ('$' :: '{' :: cs) [.template, .template] r' cs ∧
      Inside .code F.interpolated ok r' := by
  have hstep := step_of_mode_ne (r := r) (by rw [h.mode]; nofun) '$' ('{' :: cs)
  rw [step_template h.mode, if_pos ⟨rfl, rfl⟩] at hstep
  have halong := Along.single hstep
  refine ⟨_, halong, ⟨?_, h.bodies, ?_, h.pending, nofun⟩, rfl, rfl⟩
  · simp [Reader.take, Frame.interpolated, h.depth]
  · simp [Reader.take, Frame.interpolated, h.depth, h.interpolations]

/-- **An interpolation closes**, and the template goes on. -/
theorem along_closeInterpolation (hF : F.Sound) (h : At F.interpolated ok r ('}' :: cs)) :
    ∃ r', Along r ('}' :: cs) [.template] r' cs ∧ Inside .template F ok r' := by
  have hstep := step_of_not_goesOn (not_goesOn (r := r) (c := '}')
    (isNumberChar_of_isAsciiMark (by decide) (by decide)))
    (by decide) cs
  have hhead : r.scanner.interpolations.head? = some r.scanner.nesting.depth := by
    rw [h.interpolations, h.depth]
    rfl
  rw [step_code h.code, stepCode_closeBrace, if_pos hhead] at hstep
  have hdepth : r.scanner.nesting.depth - 1 = F.depth := by
    rw [h.depth]
    simp [Frame.interpolated]
  refine ⟨_, Along.single hstep, ⟨?_, ?_, ?_, h.pending, nofun⟩, rfl, rfl⟩
  · simpa [Reader.take, takeOne] using hdepth
  · simp only [Reader.take, takeOne, Nesting.closeBrace, hdepth, h.bodies]
    exact hF.dropWhile_bodies
  · simp [Reader.take, takeOne, h.interpolations, Frame.interpolated]

end LedSketch.Grammar
