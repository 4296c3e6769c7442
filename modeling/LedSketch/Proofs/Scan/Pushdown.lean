import Mathlib.Data.List.TakeDrop
import LedSketch.Proofs.Scan.Kinds

/-!
# The scanner as a pushdown machine

A pushdown machine keeps one bracket on its stack for each brace that is open, and knows by the
bracket on top what a closing brace ends. The scanner has no such stack. It counts the open braces
and notes the count at each open interpolation, and the count does not go below zero.

* `Pushdown`: the machine; where a segment ends depends on its mode alone, and what the segment does
  depends on the text of the segment and on the bracket on top.
* `Mirrors`: what the counts of a scanner are on the stack of the machine.
* `keepsUp_step`: a step of the scanner is what the machine makes of it.
* `mirrors_scan`: the two cut every source in the same way, and mirror each other behind every
  segment.
-/

namespace LedSketch.Scan

open Text

/-- What an open brace belongs to. -/
inductive Bracket where
  | block
  | interpolation
deriving DecidableEq, Repr

/-- The state of the machine: what it is inside of, and the open braces, the innermost first. -/
structure Pushdown where
  mode : Mode := .code
  stack : List Bracket := []
deriving DecidableEq, Repr

namespace Pushdown

/-- Cuts what comes behind the first character `c` of a segment where the segment ends. -/
def cut (m : Mode) (c : Char) (cs : List Char) : List Char × List Char :=
  match m with
  | .code =>
    if c = '/' ∧ (cs.head? = some '/' ∨ cs.head? = some '*') then cs.splitAt 1
    else if isNameStart c then cs.span isNameChar
    else if isDecimalDigit c then cs.span fun d => isWordChar d || d == '.'
    else ([], cs)
  | .lineComment => if c = '\n' then ([], cs) else cs.span (· ≠ '\n')
  | .blockComment =>
    if c ≠ '*' then cs.span (· ≠ '*')
    else if cs.head? = some '/' then cs.splitAt 1
    else ([], cs)
  | .string q =>
    if c = '\\' then cs.splitAt 1
    else if c = q.char then ([], cs)
    else cs.span fun d => d ≠ '\\' && d ≠ q.char
  | .template =>
    if c = '\\' ∨ c = '$' ∧ cs.head? = some '{' then cs.splitAt 1
    else if c = '$' ∨ c = '\x60' then ([], cs)
    else cs.span fun d => d ≠ '\\' && d ≠ '\x60' && d ≠ '$'

/-- A closing brace in code: it goes back into the template that the innermost interpolation belongs
to, or closes the innermost block, or means nothing. -/
def close (m : Pushdown) : Kind × Pushdown :=
  match m.stack with
  | .interpolation :: bs => (.template, ⟨.template, bs⟩)
  | .block :: bs => (.code, { m with stack := bs })
  | [] => (.code, m)

/-- What a segment is, and what it does to the machine. -/
def move (m : Pushdown) (text : List Char) : Kind × Pushdown :=
  match m.mode with
  | .code =>
    match text with
    | ['/', '/'] => (.lineComment, { m with mode := .lineComment })
    | ['/', '*'] => (.blockComment, { m with mode := .blockComment })
    | ['"'] => (.string, { m with mode := .string .double })
    | ['\''] => (.string, { m with mode := .string .single })
    | ['\x60'] => (.template, { m with mode := .template })
    | ['{'] => (.code, { m with stack := .block :: m.stack })
    | ['}'] => m.close
    | _ => (.code, m)
  | .lineComment =>
    if text = ['\n'] then (.code, { m with mode := .code }) else (.lineComment, m)
  | .blockComment => (.blockComment, if text = ['*', '/'] then { m with mode := .code } else m)
  | .string q => (.string, if text = [q.char] then { m with mode := .code } else m)
  | .template =>
    if text = ['$', '{'] then (.template, ⟨.code, .interpolation :: m.stack⟩)
    else (.template, if text = ['\x60'] then { m with mode := .code } else m)

section Moves

variable {m : Pushdown} {q : Quote}

theorem move_lineComment (hm : m.mode = .lineComment) (text : List Char) :
    m.move text = if text = ['\n'] then (.code, { m with mode := .code }) else (.lineComment, m) := by
  unfold move
  rw [hm]

theorem move_blockComment (hm : m.mode = .blockComment) (text : List Char) :
    m.move text = (.blockComment, if text = ['*', '/'] then { m with mode := .code } else m) := by
  unfold move
  rw [hm]

theorem move_string (hm : m.mode = .string q) (text : List Char) :
    m.move text = (.string, if text = [q.char] then { m with mode := .code } else m) := by
  unfold move
  rw [hm]

theorem move_template (hm : m.mode = .template) (text : List Char) :
    m.move text = if text = ['$', '{'] then (.template, ⟨.code, .interpolation :: m.stack⟩)
      else (.template, if text = ['\x60'] then { m with mode := .code } else m) := by
  unfold move
  rw [hm]

end Moves

theorem length_cut_le (m : Mode) (c : Char) (cs : List Char) : (cut m c cs).2.length ≤ cs.length := by
  have hspan (p : Char → Bool) : (cs.span p).2.length ≤ cs.length := by
    rw [List.span_eq_takeWhile_dropWhile]
    exact (List.dropWhile_suffix p).length_le
  have hsplit : (cs.splitAt 1).2.length ≤ cs.length := by
    rw [List.splitAt_eq, List.length_drop]
    exact Nat.sub_le ..
  unfold cut
  grind

/-- The segments of a text, each with the state of the machine after it. -/
def run (m : Pushdown) : List Char → List (Segment × Pushdown)
  | [] => []
  | c :: cs =>
    let text := c :: (cut m.mode c cs).1
    (⟨(m.move text).1, text⟩, (m.move text).2) :: run (m.move text).2 (cut m.mode c cs).2
termination_by cs => cs.length
decreasing_by exact Nat.lt_succ_of_le (length_cut_le m.mode c cs)

/-! ## What the scanner counts -/

/-- The heights of the interpolations on a stack, the innermost first. -/
def heights : List Bracket → List Nat
  | [] => []
  | .block :: bs => heights bs
  | .interpolation :: bs => (bs.length + 1) :: heights bs

theorem mem_heights {bs : List Bracket} {d : Nat} (h : d ∈ heights bs) : 0 < d ∧ d ≤ bs.length := by
  induction bs with
  | nil => cases h
  | cons b bs ih =>
    cases b with
    | block =>
      obtain ⟨hpos, hle⟩ := ih h
      exact ⟨hpos, Nat.le_succ_of_le hle⟩
    | interpolation =>
      rcases List.mem_cons.mp h with rfl | h
      · exact ⟨Nat.succ_pos _, Nat.le_refl _⟩
      · obtain ⟨hpos, hle⟩ := ih h
        exact ⟨hpos, Nat.le_succ_of_le hle⟩

theorem pairwise_heights (bs : List Bracket) : (heights bs).Pairwise (· > ·) := by
  induction bs with
  | nil => exact .nil
  | cons b bs ih =>
    cases b with
    | block => exact ih
    | interpolation => exact .cons (fun d hd => Nat.lt_succ_of_le (mem_heights hd).2) ih

/-- The innermost interpolation is noted at the present depth exactly if it is on top. -/
theorem head?_heights {b : Bracket} {bs : List Bracket} :
    (heights (b :: bs)).head? = some (bs.length + 1) ↔ b = .interpolation := by
  cases b with
  | interpolation => simp [heights]
  | block =>
    simp only [heights, reduceCtorEq, iff_false]
    intro h
    have := (mem_heights (List.mem_of_mem_head? h)).2
    omega

end Pushdown

open Pushdown Scanner

/-- **A scanner mirrors a machine**: it is inside of the same, its depth is the height of the stack,
it has noted the heights of the interpolations, and it remembers a quote exactly inside a string. -/
structure Mirrors (s : Scanner) (m : Pushdown) : Prop where
  mode : s.mode = m.mode
  depth : s.nesting.depth = m.stack.length
  interpolations : s.interpolations = heights m.stack
  increasing : s.interpolations.Pairwise (· > ·)
  bounded : ∀ d ∈ s.interpolations, 0 < d ∧ d ≤ s.nesting.depth
  quote : s.quote?.isSome = true ↔ s.mode.kind = .string

namespace Mirrors

variable {s : Scanner} {m : Pushdown} {c : Char} {cs : List Char}

/-- The heights of the interpolations lie below the depth in the right order by themselves. -/
theorem of_heights (mode : s.mode = m.mode) (depth : s.nesting.depth = m.stack.length)
    (interpolations : s.interpolations = heights m.stack) : Mirrors s m where
  mode := mode
  depth := depth
  interpolations := interpolations
  increasing := interpolations ▸ pairwise_heights m.stack
  bounded d hd := depth ▸ mem_heights (interpolations ▸ hd)
  quote := by
    unfold Scanner.quote?
    cases s.mode <;> simp [Mode.kind]

/-- Both go on inside of `k`. -/
theorem enter (h : Mirrors s m) (k : Mode) : Mirrors { s with mode := k } { m with mode := k } :=
  of_heights rfl h.depth h.interpolations

theorem openBrace (h : Mirrors s m) :
    Mirrors { s with nesting := s.nesting.openBrace } { m with stack := .block :: m.stack } :=
  of_heights h.mode (by simp [h.depth]) h.interpolations

theorem openInterpolation (h : Mirrors s m) :
    Mirrors ⟨.code, s.nesting.openInterpolation,
      s.nesting.openInterpolation.depth :: s.interpolations⟩
      ⟨.code, .interpolation :: m.stack⟩ :=
  of_heights rfl (by simp [h.depth]) (by simp [heights, h.depth, h.interpolations])

end Mirrors

/-- What a step of the scanner has to be for the machine to keep up: the segment ends where the
machine cuts, it is what the machine makes of it, and the states behind it mirror each other. -/
structure KeepsUp (m : Pushdown) (c : Char) (cs : List Char) (t : Step) : Prop where
  text : t.text = c :: (cut m.mode c cs).1
  rest : t.rest = (cut m.mode c cs).2
  kind : t.kind = (m.move t.text).1
  mirrors : Mirrors t.scanner (m.move t.text).2

section Steps

variable {s s' : Scanner} {m m' : Pushdown} {c : Char} {w cs ds : List Char} {k : Kind}

theorem KeepsUp.of_move (hcut : cut m.mode c cs = (w, ds)) (hmove : m.move (c :: w) = (k, m'))
    (h : Mirrors s' m') : KeepsUp m c cs ⟨k, c :: w, ds, s'⟩ where
  text := by rw [hcut]
  rest := by rw [hcut]
  kind := by rw [hmove]
  mirrors := by rwa [hmove]

/-! ## In code -/

/-- A segment of code that starts with an ordinary character does nothing. -/
theorem move_ordinary (hm : m.mode = .code) (hc : isOrdinary c = true) (w : List Char) :
    m.move (c :: w) = (.code, m) := by
  simp only [isOrdinary, Bool.not_eq_true', List.contains_eq_mem, decide_eq_false_iff_not,
    List.mem_cons, List.not_mem_nil, or_false, not_or] at hc
  unfold move
  rw [hm]
  dsimp only
  split <;> simp_all

/-- A character that starts neither a comment nor a word is cut off by itself. -/
theorem cut_alone (hslash : c = '/' → cs.head? ≠ some '/' ∧ cs.head? ≠ some '*')
    (hname : isNameStart c = false) (hdigit : isDecimalDigit c = false) :
    cut .code c cs = ([], cs) := by
  unfold cut
  grind

/-- A slash opens a comment or stands alone. -/
theorem keepsUp_slash (h : Mirrors s m) (hs : s.mode = .code) : KeepsUp m '/' cs (s.step '/' cs) := by
  have hm : m.mode = .code := h.mode ▸ hs
  rw [step_code hs, stepCode_slash]
  split_ifs with hline hblock
  · obtain ⟨ds, rfl⟩ := List.head?_eq_some_iff.mp hline
    exact .of_move (by simp [cut, hm]) (by unfold move; rw [hm]; rfl) (h.enter .lineComment)
  · obtain ⟨ds, rfl⟩ := List.head?_eq_some_iff.mp hblock
    exact .of_move (by simp [cut, hm]) (by unfold move; rw [hm]; rfl) (h.enter .blockComment)
  · exact .of_move (hm ▸ cut_alone (fun _ => ⟨hline, hblock⟩) (by decide) (by decide))
      (by unfold move; rw [hm]; rfl) h

/-- A closing brace ends what the bracket on top belongs to. -/
theorem keepsUp_closeBrace (h : Mirrors s m) (hs : s.mode = .code) :
    KeepsUp m '}' cs (s.step '}' cs) := by
  have hm : m.mode = .code := h.mode ▸ hs
  have hcut : cut m.mode '}' cs = ([], cs) := hm ▸ cut_alone nofun (by decide) (by decide)
  have hmove : m.move ['}'] = m.close := by
    unfold move
    rw [hm]
    rfl
  have hdepth : s.nesting.closeBrace.depth = m.stack.length - 1 := by simp [h.depth]
  have hheights := h.interpolations
  rw [step_code hs, stepCode_closeBrace]
  unfold close at hmove
  match hstack : m.stack with
  | [] =>
    rw [hstack] at hmove hdepth hheights
    rw [if_neg (by simp [hheights, heights])]
    exact .of_move hcut hmove (.of_heights h.mode (by simpa [hstack] using hdepth)
      (by simp [hheights, hstack]))
  | .block :: bs =>
    rw [hstack] at hmove hdepth hheights
    have hne : ¬ s.interpolations.head? = some s.nesting.depth := by
      rw [hheights, h.depth, hstack]
      exact fun he => Bracket.noConfusion (head?_heights.mp he)
    rw [if_neg hne]
    exact .of_move hcut hmove (.of_heights h.mode hdepth hheights)
  | .interpolation :: bs =>
    rw [hstack] at hmove hdepth hheights
    rw [if_pos (by rw [hheights, h.depth, hstack]; rfl)]
    exact .of_move hcut hmove (.of_heights rfl hdepth (by rw [hheights]; rfl))

theorem keepsUp_code (h : Mirrors s m) (hs : s.mode = .code) : KeepsUp m c cs (s.step c cs) := by
  have hm : m.mode = .code := h.mode ▸ hs
  by_cases hslash : c = '/'
  · subst hslash
    exact keepsUp_slash h hs
  by_cases hclose : c = '}'
  · subst hclose
    exact keepsUp_closeBrace h hs
  have alone (hname : isNameStart c = false) (hdigit : isDecimalDigit c = false) :
      cut m.mode c cs = ([], cs) := hm ▸ cut_alone (fun he => absurd he hslash) hname hdigit
  rw [step_code hs]
  by_cases hopen : c = '{'
  · subst hopen
    exact .of_move (alone (by decide) (by decide)) (by unfold move; rw [hm]; rfl) h.openBrace
  by_cases htick : c = '\x60'
  · subst htick
    exact .of_move (alone (by decide) (by decide)) (by unfold move; rw [hm]; rfl)
      (h.enter .template)
  rw [stepCode_of_ne s hslash hopen hclose htick]
  by_cases hdouble : c = '"'
  · subst hdouble
    exact .of_move (alone (by decide) (by decide)) (by unfold move; rw [hm]; rfl)
      (h.enter (.string .double))
  by_cases hsingle : c = '\''
  · subst hsingle
    exact .of_move (alone (by decide) (by decide)) (by unfold move; rw [hm]; rfl)
      (h.enter (.string .single))
  have hquote : Quote.ofChar? c = none := by simp [Quote.ofChar?, hdouble, hsingle]
  have hmove (w : List Char) : m.move (c :: w) = (.code, m) :=
    move_ordinary hm (by simp [isOrdinary, *]) w
  rw [hquote]
  dsimp only
  split_ifs with hname hdigit
  · exact .of_move (by simp [cut, hm, hslash, hname, List.span_eq_takeWhile_dropWhile]) (hmove _) h
  · refine .of_move ?_ (hmove _) h
    simp [cut, hm, hslash, hname, hdigit, List.span_eq_takeWhile_dropWhile]
  · exact .of_move (alone (by simpa using hname) (by simpa using hdigit)) (hmove _) h

/-! ## In comments, strings and templates -/

theorem keepsUp_lineComment (h : Mirrors s m) (hs : s.mode = .lineComment) :
    KeepsUp m c cs (s.step c cs) := by
  have hm : m.mode = .lineComment := h.mode ▸ hs
  rw [step_lineComment hs]
  split_ifs with hc
  · exact .of_move (by simp [cut, hm, hc]) (by simp [move_lineComment hm, hc]) (h.enter .code)
  · exact .of_move (by simp [cut, hm, hc, List.span_eq_takeWhile_dropWhile])
      (by simp [move_lineComment hm, hc]) h

theorem keepsUp_blockComment (h : Mirrors s m) (hs : s.mode = .blockComment) :
    KeepsUp m c cs (s.step c cs) := by
  have hm : m.mode = .blockComment := h.mode ▸ hs
  rw [step_blockComment hs]
  split_ifs with hc hend
  · subst hc
    obtain ⟨ds, rfl⟩ := List.head?_eq_some_iff.mp hend
    exact .of_move (by simp [cut, hm]) (by simp [move_blockComment hm]) (h.enter .code)
  · subst hc
    exact .of_move (by simp [cut, hm, hend]) (by simp [move_blockComment hm]) h
  · exact .of_move (by simp [cut, hm, hc, List.span_eq_takeWhile_dropWhile])
      (by simp [move_blockComment hm, hc]) h

/-- Between marks an escape is one segment, the closing mark another, and so is plain text. -/
theorem keepsUp_quoted {closer : Char} {plain : Char → Bool} (h : Mirrors s m)
    (hescape : c = '\\' → cut m.mode c cs = cs.splitAt 1)
    (hclose : c = closer → cut m.mode c cs = ([], cs))
    (hplain : plain c = true → cut m.mode c cs = cs.span plain)
    (hother : c ≠ '\\' → plain c = false → cut m.mode c cs = ([], cs))
    (hmove : ∀ w, (c ≠ '\\' → plain c = false → w = []) →
      m.move (c :: w) = (k, if c = closer then { m with mode := .code } else m))
    (hcloser : closer ≠ '\\') : KeepsUp m c cs (s.stepQuoted k closer plain c cs) := by
  unfold stepQuoted
  split_ifs with hc hc' hplain'
  · have hne : c ≠ closer := fun he => hcloser (he.symm.trans hc)
    exact .of_move ((hescape hc).trans (List.splitAt_eq ..))
      ((hmove _ fun hn => absurd hc hn).trans (by rw [if_neg hne])) h
  · exact .of_move (hclose hc') ((hmove _ fun _ _ => rfl).trans (by rw [if_pos hc']))
      (h.enter .code)
  · exact .of_move ((hplain hplain').trans (List.span_eq_takeWhile_dropWhile ..))
      ((hmove _ fun _ hn => by rw [hplain'] at hn; cases hn).trans (by rw [if_neg hc'])) h
  · exact .of_move (hother hc (by simpa using hplain'))
      ((hmove _ fun _ _ => rfl).trans (by rw [if_neg hc'])) h

theorem keepsUp_string {q : Quote} (h : Mirrors s m) (hs : s.mode = .string q) :
    KeepsUp m c cs (s.step c cs) := by
  have hm : m.mode = .string q := h.mode ▸ hs
  have hq : q.char ≠ '\\' := by cases q <;> decide
  rw [step_string hs]
  refine keepsUp_quoted h ?_ ?_ ?_ ?_ ?_ hq
  · intro hc
    simp [cut, hm, hc]
  · intro hc
    simp [cut, hm, hc, hq]
  · intro hc
    simp only [Bool.and_eq_true, decide_eq_true_eq] at hc
    simp [cut, hm, hc.1, hc.2]
  · intro hc hplain
    have : c = q.char := by simpa [hc] using hplain
    simp [cut, hm, this, hq]
  · intro w hw
    by_cases hc : c = q.char
    · simp [move_string hm, hc, hw (hc ▸ hq) (by simp [hc])]
    · simp [move_string hm, hc]

theorem keepsUp_template (h : Mirrors s m) (hs : s.mode = .template) :
    KeepsUp m c cs (s.step c cs) := by
  have hm : m.mode = .template := h.mode ▸ hs
  rw [step_template hs]
  split_ifs with hopen
  · obtain ⟨rfl, hhead⟩ := hopen
    obtain ⟨ds, rfl⟩ := List.head?_eq_some_iff.mp hhead
    exact .of_move (by simp [cut, hm]) (by simp [move_template hm]) h.openInterpolation
  · refine keepsUp_quoted h ?_ ?_ ?_ ?_ ?_ (by decide)
    · intro hc
      simp [cut, hm, hc]
    · intro hc
      simp [cut, hm, hc]
    · intro hc
      simp only [Bool.and_eq_true, decide_eq_true_eq] at hc
      simp [cut, hm, hc.1.1, hc.1.2, hc.2]
    · intro hc hplain
      have : c = '$' ∨ c = '\x60' := by grind
      simp [cut, hm, hc, hopen, this]
    · intro w hw
      by_cases hdollar : c = '$'
      · simp [move_template hm, hdollar, hw (by simp [hdollar]) (by simp [hdollar])]
      by_cases hc : c = '\x60'
      · simp [move_template hm, hc, hw (by simp [hc]) (by simp [hc])]
      · simp [move_template hm, hc, hdollar]

/-- **A step of the scanner is what the machine makes of it.** -/
theorem keepsUp_step (h : Mirrors s m) (c : Char) (cs : List Char) :
    KeepsUp m c cs (s.step c cs) := by
  cases hs : s.mode with
  | code => exact keepsUp_code h hs
  | lineComment => exact keepsUp_lineComment h hs
  | blockComment => exact keepsUp_blockComment h hs
  | string q => exact keepsUp_string h hs
  | template => exact keepsUp_template h hs

end Steps

/-- Behind every segment of a text a scanner and a machine that mirror each other still do. -/
theorem mirrors_run {s : Scanner} {m : Pushdown} (h : Mirrors s m) (cs : List Char) :
    List.Forall₂ (fun p q => p.1 = q.1 ∧ Mirrors p.2 q.2) (s.run cs) (m.run cs) := by
  induction s, cs using Scanner.run.induct generalizing m with
  | case1 s =>
    rw [Scanner.run, Pushdown.run]
    exact .nil
  | case2 s c cs =>
    rename_i ih
    have hstep := keepsUp_step h c cs
    rw [Scanner.run, Pushdown.run, ← hstep.text, ← hstep.rest, ← hstep.kind]
    exact .cons ⟨rfl, hstep.mirrors⟩ (ih hstep.mirrors)

/-- **The scanner agrees with the pushdown machine** on every source: both yield the same segments,
and their states mirror each other behind each of them. -/
theorem mirrors_scan (source : List Char) :
    List.Forall₂ (fun p q => p.1 = q.1 ∧ Mirrors p.2 q.2) (({} : Scanner).run source)
      (({} : Pushdown).run source) :=
  mirrors_run (.of_heights rfl rfl rfl) source

end LedSketch.Scan
