import LedSketch.Proofs.Scan.Segments

/-!
# The kind of every character, one character at a time

The scanner takes words and numbers whole. For the kinds of characters it might as well take them
one by one, since no character of a word opens or closes anything.

* `kinds_step`, `finish_step`: kinds and the last state, from one step to the next.
* `kinds_ordinary`, `finish_ordinary`: a character of no meaning is code and changes nothing, also in
  the middle of a word.
* `kinds_comment`: the same of a character in a block comment.
-/

namespace LedSketch.Scan.Scanner

open Text

/-- The kind of every character of a text from a state. -/
def kinds (s : Scanner) (cs : List Char) : List Kind :=
  (s.segments cs).flatMap fun g => List.replicate g.text.length g.kind

theorem classify_eq_kinds (source : List Char) : classify source = ({} : Scanner).kinds source := rfl

@[simp] theorem kinds_nil (s : Scanner) : s.kinds [] = [] := by simp [kinds]

theorem kinds_step (s : Scanner) (c : Char) (cs : List Char) :
    s.kinds (c :: cs) = List.replicate (s.step c cs).text.length (s.step c cs).kind ++
      (s.step c cs).scanner.kinds (s.step c cs).rest := by
  rw [kinds, segments_cons, List.flatMap_cons]
  rfl

@[simp] theorem finish_nil (s : Scanner) : s.finish [] = s := by rw [finish, run]; rfl

theorem finish_step (s : Scanner) (c : Char) (cs : List Char) :
    s.finish (c :: cs) = (s.step c cs).scanner.finish (s.step c cs).rest := by
  rw [finish, run, finish, List.getLast?_cons]
  cases ((s.step c cs).scanner.run (s.step c cs).rest).getLast? <;> rfl

theorem kinds_of_alike {s t : Scanner} (h : Alike s t) (cs : List Char) : s.kinds cs = t.kinds cs := by
  rw [kinds, segments_of_alike h, kinds]

theorem finish_of_alike {s t : Scanner} (h : Alike s t) (cs : List Char) :
    Alike (s.finish cs) (t.finish cs) := by
  induction s, cs using run.induct generalizing t with
  | case1 s => simpa using h
  | case2 s c cs _ =>
    rename_i ih
    have hs := step_of_alike h c cs
    rw [finish_step, finish_step, ← hs.rest]
    exact ih hs.scanner

/-! ## Ordinary characters -/

/-- Whether a character neither opens nor closes anything in code. -/
def isOrdinary (c : Char) : Bool := !(['/', '{', '}', '\x60', '"', '\''].contains c)

/-- A class of characters that holds none that opens or closes anything is ordinary. -/
theorem isOrdinary_of_class {p : Char → Bool}
    (hp : (['/', '{', '}', '\x60', '"', '\''].all fun d => !p d) = true) {c : Char} (h : p c = true) :
    isOrdinary c = true := by
  simp only [isOrdinary, Bool.not_eq_true', List.contains_eq_mem, decide_eq_false_iff_not]
  intro hc
  have := List.all_eq_true.1 hp c hc
  rw [h] at this
  cases this

theorem isOrdinary_of_isNameChar {c : Char} (h : isNameChar c = true) : isOrdinary c = true := by
  refine isOrdinary_of_class (List.all_eq_true.mpr fun d hd => ?_) h
  have key : ['/', '{', '}', '\x60', '"', '\''].all isAsciiMark = true := by decide
  rw [isNameChar_of_isAsciiMark (List.all_eq_true.mp key d hd)]
  rfl

theorem isOrdinary_of_isWordChar {c : Char} (h : (isWordChar c || c == '.') = true) :
    isOrdinary c = true := by
  simp only [Bool.or_eq_true, beq_iff_eq] at h
  rcases h with h | rfl
  · exact isOrdinary_of_isNameChar (by simp [isNameChar, h])
  · decide

theorem isOrdinary_of_isSpace {c : Char} (h : isSpace c = true) : isOrdinary c = true :=
  isOrdinary_of_class (by decide) h

/-- An ordinary character starts a run of ordinary characters that leaves the state as it is. -/
theorem step_ordinary {s : Scanner} (hs : s.mode = .code) {c : Char} (hc : isOrdinary c = true)
    (cs : List Char) :
    ∃ xs ds, cs = xs ++ ds ∧ (∀ x ∈ xs, isOrdinary x = true) ∧
      s.step c cs = ⟨.code, c :: xs, ds, s⟩ := by
  simp only [isOrdinary, Bool.not_eq_true', List.contains_eq_mem, decide_eq_false_iff_not,
    List.mem_cons, List.not_mem_nil, or_false, not_or] at hc
  obtain ⟨h₁, h₂, h₃, h₄, h₅, h₆⟩ := hc
  have hq : Quote.ofChar? c = none := by simp [Quote.ofChar?, h₅, h₆]
  have run (p : Char → Bool) (hp : ∀ x, p x = true → isOrdinary x = true) :
      ∃ xs ds, cs = xs ++ ds ∧ (∀ x ∈ xs, isOrdinary x = true) ∧
        s.takeRun .code p c cs = ⟨.code, c :: xs, ds, s⟩ :=
    ⟨cs.takeWhile p, cs.dropWhile p, List.takeWhile_append_dropWhile.symm,
      fun x hx => hp x (List.mem_takeWhile_imp hx), rfl⟩
  rw [step_code hs, stepCode_of_ne s h₁ h₂ h₃ h₄, hq]
  dsimp only
  split_ifs
  · exact run _ fun x => isOrdinary_of_isNameChar
  · exact run _ fun x => isOrdinary_of_isWordChar
  · exact ⟨[], cs, rfl, by simp, rfl⟩

theorem ordinary_aux {s : Scanner} (hs : s.mode = .code) (n : Nat) :
    ∀ c cs, cs.length ≤ n → isOrdinary c = true →
      s.kinds (c :: cs) = .code :: s.kinds cs ∧ s.finish (c :: cs) = s.finish cs := by
  induction n with
  | zero =>
    intro c cs hn hc
    obtain rfl : cs = [] := List.length_eq_zero_iff.mp (Nat.le_zero.mp hn)
    obtain ⟨xs, ds, hsplit, -, hstep⟩ := step_ordinary hs hc []
    obtain ⟨rfl, rfl⟩ := List.append_eq_nil_iff.mp hsplit.symm
    rw [kinds_step, finish_step, hstep]
    simp
  | succ n ih =>
    intro c cs hn hc
    obtain ⟨xs, ds, rfl, hxs, hstep⟩ := step_ordinary hs hc cs
    -- read one by one, the run comes to the same
    have key : ∀ ys, (∀ y ∈ ys, isOrdinary y = true) → (ys ++ ds).length ≤ n + 1 →
        s.kinds (ys ++ ds) = List.replicate ys.length .code ++ s.kinds ds ∧
          s.finish (ys ++ ds) = s.finish ds := by
      intro ys
      induction ys with
      | nil => intro _ _; exact ⟨rfl, rfl⟩
      | cons y ys ihy =>
        intro hys hlen
        simp only [List.cons_append, List.length_cons] at hlen
        obtain ⟨hk, hf⟩ := ih y (ys ++ ds) (by omega) (hys y List.mem_cons_self)
        obtain ⟨hk', hf'⟩ := ihy (fun z hz => hys z (List.mem_cons_of_mem y hz)) (by omega)
        rw [List.cons_append, hk, hk', hf, hf']
        exact ⟨rfl, rfl⟩
    obtain ⟨hk, hf⟩ := key xs hxs hn
    rw [kinds_step, finish_step, hstep, hk, hf]
    exact ⟨rfl, rfl⟩

/-- **An ordinary character is code** and makes no difference to what follows. -/
theorem kinds_ordinary {s : Scanner} (hs : s.mode = .code) {c : Char} (hc : isOrdinary c = true)
    (cs : List Char) : s.kinds (c :: cs) = .code :: s.kinds cs :=
  (ordinary_aux hs cs.length c cs le_rfl hc).1

theorem finish_ordinary {s : Scanner} (hs : s.mode = .code) {c : Char} (hc : isOrdinary c = true)
    (cs : List Char) : s.finish (c :: cs) = s.finish cs :=
  (ordinary_aux hs cs.length c cs le_rfl hc).2

/-! ## Block comments -/

theorem head?_kinds (s : Scanner) (c : Char) (cs : List Char) :
    (s.kinds (c :: cs)).head? = some (s.step c cs).kind := by
  rw [kinds_step]
  cases h : (s.step c cs).text with
  | nil => exact absurd h (s.text_ne_nil c cs)
  | cons x xs => rfl

theorem kind_comment {s : Scanner} (hs : s.mode = .blockComment) (c : Char) (cs : List Char) :
    (s.step c cs).kind = .blockComment := by
  rw [step_blockComment hs]
  split_ifs <;> rfl

/-- In code, a block comment begins with its mark. -/
theorem opens_of_kinds {s : Scanner} (hs : s.mode = .code) {cs : List Char}
    (h : (s.kinds cs).head? = some .blockComment) : ∃ ds, cs = '/' :: '*' :: ds := by
  cases cs with
  | nil => simp at h
  | cons c cs =>
    rw [head?_kinds, step_code hs, Option.some.injEq] at h
    unfold stepCode at h
    split at h
    · cases h
    · exact ⟨_, rfl⟩
    · cases h
    · dsimp only at h
      split at h
      · split_ifs at h <;> cases h
      · cases h
    · cases h
    · split at h
      · cases h
      · split_ifs at h <;> cases h

/-- **A character of a block comment** makes no difference to what follows, unless it closes the
comment. -/
theorem kinds_comment {s : Scanner} (hs : s.mode = .blockComment) {c : Char} {cs : List Char}
    (hc : c = '*' → cs.head? ≠ some '/') :
    s.kinds (c :: cs) = .blockComment :: s.kinds cs ∧ s.finish (c :: cs) = s.finish cs := by
  rw [kinds_step, finish_step, step_blockComment hs]
  split_ifs with h₁ h₂
  · exact absurd h₂ (hc h₁)
  · exact ⟨rfl, rfl⟩
  · cases cs with
    | nil => simp [takeRun]
    | cons d cs =>
      by_cases hd : d = '*'
      · simp [takeRun, hd]
      · -- the run goes on with `d`, and a run from `d` is the same
        rw [kinds_step s d, finish_step s d, step_blockComment hs, if_neg hd]
        simp [takeRun, hd, List.replicate_succ]

end LedSketch.Scan.Scanner
