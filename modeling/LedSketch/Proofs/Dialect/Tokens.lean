import LedSketch.Proofs.Dialect.Minding
import LedSketch.Proofs.Dialect.Sketches

/-!
# What the rewriting pass writes for a token

Each lemma says what the pass writes for one token of a sketch, from which state it goes on, and on
what of the text behind the token that depends.

* `Rewriter.after` — the state that differs in the previous token only;
* `run_blanks`, `run_mark`: blanks and marks are copied;
* `run_word`: a word that is no type is copied, and may be awaited;
* `run_type`, `run_let`, `run_dropped`, `run_entry`, `run_function`: what becomes of a type;
* `run_numeral`, `run_literal`, `run_chunk`: numbers and what stands between marks are copied;
* `run_closeInterpolation`, `run_closeBrace`: a brace closes what it belongs to.
-/

namespace LedSketch.Dialect

open Text Scan Scanner Sketch

/-! ## What may follow -/

/-- Blanks stop a run that goes on with no blank. -/
theorem Sketch.Gap.stops {p : Char → Bool} {z : List Char} (g : Gap)
    (hp : ∀ c, isSpace c = true → p c = false) (hds : StopsRun p z) :
    StopsRun p (g.chars ++ z) := by
  have hblank := g.blank
  cases hg : g.chars with
  | nil => exact hds
  | cons c cs =>
    rw [hg] at hblank
    exact stopsRun_cons (hp c (hblank c List.mem_cons_self)) _

theorem Sketch.Break.stops (g : Break) (z : List Char) :
    StopsRun isNameChar (g.chars ++ z) := by
  have hblank := g.blank
  cases hg : g.chars with
  | nil => exact absurd hg g.nonempty
  | cons c cs =>
    rw [hg] at hblank
    exact stopsRun_cons (isNameChar_of_isSpace (hblank c List.mem_cons_self)) _

theorem Sketch.Gap.isSpace_below (g : Gap) : ∀ c ∈ g.below, isSpace c = true := fun c hc =>
  g.blank c ((List.dropWhile_suffix _).subset hc)

namespace Rewriter

variable {r : Rewriter} {c : Char} {w cs z : List Char} {x : Identifier} {g : Break}

/-- The pass when the previous token is `p`. -/
def after (r : Rewriter) (p : Option String) : Rewriter := { r with previous := p }

@[simp] theorem after_after (r : Rewriter) (p q : Option String) :
    (r.after p).after q = r.after q := rfl

@[simp] theorem after_scanner (r : Rewriter) (p : Option String) :
    (r.after p).scanner = r.scanner := rfl

@[simp] theorem after_parens (r : Rewriter) (p : Option String) :
    (r.after p).parens = r.parens := rfl

@[simp] theorem after_paramLevel (r : Rewriter) (p : Option String) :
    (r.after p).paramLevel = r.paramLevel := rfl

@[simp] theorem after_previous (r : Rewriter) (p : Option String) : (r.after p).previous = p := rfl

/-- A token behind which a type is declared and a call of `delay` may suspend. -/
def Settled (p : Option String) : Prop := ∀ w ∈ p, w ∉ quietBefore ∧ w ∉ bindingWords

theorem Settled.previousIn (h : Settled r.previous) :
    r.previousIn quietBefore = false ∧ r.previousIn bindingWords = false := by
  unfold Rewriter.previousIn
  cases hp : r.previous with
  | none => exact ⟨rfl, rfl⟩
  | some w =>
    obtain ⟨h₁, h₂⟩ := h w hp
    simp [h₁, h₂]

theorem Settled.ne_dot {p : Option String} (h : Settled p) : p ≠ some "." := by
  rintro rfl
  exact (h _ rfl).1 (by decide)

theorem settled_none : Settled none := nofun

theorem settled_some {w : String} (h : w ∉ quietBefore) (h' : w ∉ bindingWords) :
    Settled (some w) := by
  rintro _ ⟨⟩
  exact ⟨h, h'⟩

theorem settled_identifier (x : Identifier) : Settled (some (String.ofList x.chars)) := by
  have hfree := x.free
  simp only [isIdentifier, Bool.and_eq_true, Bool.not_eq_true', List.contains_eq_mem,
    decide_eq_false_iff_not] at hfree
  refine settled_some (fun h => ?_) fun h => hfree.1 ?_
  · have hdot : String.ofList x.chars ≠ "." := by
      intro h
      have hname := x.name
      rw [← String.toList_ofList (l := x.chars), h] at hname
      revert hname
      decide
    have : ∀ w ∈ quietBefore, w = "." ∨ w ∈ keywords := by decide
    exact (this _ h).elim hdot hfree.1
  · have : ∀ w ∈ bindingWords, w ∈ keywords := by decide
    exact this _ h

/-! ## Blanks and marks -/

/-- A mark that is no blank is copied and remembered. -/
theorem run_mark (hr : r.scanner.mode = .code) (hc : IsMark c) (hn : isNameStart c = false)
    (z : List Char) : r.run (c :: z) = c :: (r.punctuation [c]).run z := by
  rw [run_cons]
  unfold step
  rw [hc _ _ hr]
  have : isName [c] = false := by simp [isName, hn]
  simp [takeOne, this]

/-- Blanks are copied and leave no trace. -/
theorem run_blanks (hr : r.scanner.mode = .code) (hcs : ∀ c ∈ cs, isSpace c = true)
    (z : List Char) : r.run (cs ++ z) = cs ++ r.run z := by
  induction cs with
  | nil => rfl
  | cons c cs ih =>
    have hc := hcs c List.mem_cons_self
    have : r.punctuation [c] = r := by simp [punctuation, isBlank, hc]
    rw [List.cons_append, run_mark hr (isMark_of_isSpace hc) (isNameStart_of_isSpace hc), this,
      ih fun d hd => hcs d (List.mem_cons_of_mem c hd), List.cons_append]

theorem isMark_of_isOrdinary (hc : isOrdinary c = true) (hn : isNameStart c = false)
    (hd : isDecimalDigit c = false) : IsMark c := by
  simp only [isOrdinary, Bool.not_eq_true', List.contains_eq_mem, decide_eq_false_iff_not,
    List.mem_cons, List.not_mem_nil, or_false, not_or] at hc
  obtain ⟨h₁, h₂, h₃, h₄, h₅, h₆⟩ := hc
  exact isMark_of_ne h₁ h₂ h₃ h₄ (by simp [Quote.ofChar?, h₅, h₆]) hn hd

/-- The marks that the pass only remembers. -/
def simpleMarks : List Char :=
  ['.', ',', '=', '!', '<', '>', '+', '-', '*', '%', '&', '|', '^']

/-- A mark that is only remembered. -/
theorem run_simpleMark (hr : r.scanner.mode = .code) (hc : c ∈ simpleMarks) (z : List Char) :
    r.run (c :: z) = c :: (r.after (some (String.ofList [c]))).run z := by
  have key : ∀ d ∈ simpleMarks, isOrdinary d = true ∧ isNameStart d = false ∧
      isDecimalDigit d = false ∧ isSpace d = false ∧ d ∉ ['(', ')', ';'] :=
    List.forall_iff_forall_mem.mp (by decide)
  obtain ⟨hordinary, hname, hdigit, hspace, hne⟩ := key c hc
  have : r.punctuation [c] = r.after (some (String.ofList [c])) := by
    simp only [List.mem_cons, List.not_mem_nil, or_false, not_or] at hne
    simp [punctuation, isBlank, hspace, hne, after]
  rw [run_mark hr (isMark_of_isOrdinary hordinary hname hdigit) hname, this]

/-- A slash that opens no comment. -/
theorem run_slash (hr : r.scanner.mode = .code) (hds : ∀ c ∈ z.head?, c ≠ '/' ∧ c ≠ '*') :
    r.run ('/' :: z) = '/' :: (r.after (some "/")).run z := by
  have hstep : r.scanner.step '/' z = r.scanner.takeOne .code '/' z := by
    rw [step_code hr, stepCode_slash, if_neg fun h : z.head? = some '/' => (hds _ h).1 rfl,
      if_neg fun h : z.head? = some '*' => (hds _ h).2 rfl]
  rw [run_cons]
  unfold step
  rw [hstep]
  rfl

/-- A parenthesis opens. -/
theorem run_openParen (hr : r.scanner.mode = .code) (z : List Char) :
    r.run ('(' :: z) =
      '(' :: ({ r with previous := some "(", parens := r.parens + 1 } : Rewriter).run z := by
  rw [run_mark hr isMark_openParen (by decide)]
  rfl

/-- A parenthesis closes that was open; it ends the list of parameters outside of which there is
none. -/
theorem run_closeParen (hr : r.scanner.mode = .code) (n : Nat) (hparens : r.parens = n + 1)
    (hlevel : ∀ l ∈ r.paramLevel, l = n) (z : List Char) :
    r.run (')' :: z) =
      ')' :: ({ r with previous := some ")", parens := n, paramLevel := none } : Rewriter).run z := by
  have : r.punctuation [')'] =
      { r with previous := some ")", parens := n, paramLevel := none } := by
    have hnone : r.paramLevel.bind (fun l => if n ≤ l then none else some l) = none := by
      cases h : r.paramLevel with
      | none => rfl
      | some l => simp [hlevel l h]
    simp [punctuation, isBlank, isSpace, isWhiteSpace, hparens, hnone]
  rw [run_mark hr isMark_closeParen (by decide), this]

/-- A semicolon where no declaration waits for its body. -/
theorem run_semicolon (hr : r.scanner.mode = .code) (hpending : r.scanner.nesting.pending = none)
    (z : List Char) : r.run (';' :: z) = ';' :: (r.after (some ";")).run z := by
  have hcancel : r.scanner.nesting.cancelPending = r.scanner.nesting := by
    unfold Nesting.cancelPending
    rw [← hpending]
  have : r.punctuation [';'] = r.after (some ";") := by
    simp only [punctuation, hcancel]
    split_ifs <;> first | rfl | contradiction
  rw [run_mark hr (isMark_of_isOrdinary (by decide) (by decide) (by decide)) (by decide), this]

/-! ## Words -/

/-- Whether the pass awaits the word `w` in front of `rest`. -/
def awaits (r : Rewriter) (w rest : List Char) : Bool :=
  String.ofList w = "delay" && peekChar? rest == some '(' && r.scanner.nesting.suspendable
    && !r.scanner.inInterpolation && !r.previousIn quietBefore

/-- A name of code is taken whole. -/
theorem run_name (hr : r.scanner.mode = .code) (hw : isName w = true)
    (hds : StopsRun isNameChar z) :
    r.run (w ++ z) = (r.word w z).out ++ (r.word w z).rewriter.run (r.word w z).rest := by
  cases w with
  | nil => cases hw
  | cons c w =>
    obtain ⟨hc, hrest⟩ := isName_cons.mp hw
    rw [List.cons_append, run_cons, step_of_name ⟨hr, hc⟩, takeWhile_append_of_stopsRun hrest hds,
      dropWhile_append_of_stopsRun hrest hds]

/-- **A word that is no type is copied**, and it may be awaited. -/
theorem run_word (hr : r.scanner.mode = .code) (hw : isName w = true)
    (htype : String.ofList w ∉ returnTypeWords) (hfunction : String.ofList w ≠ "function")
    (hds : StopsRun isNameChar z) :
    r.run (w ++ z) = (if r.awaits w z then "await ".toList else []) ++
      (w ++ (r.after (some (String.ofList w))).run z) := by
  have : r.word w z = ⟨(if r.awaits w z then "await ".toList else []) ++ w, z,
      r.after (some (String.ofList w))⟩ := by
    simp only [word, copyWord, List.contains_eq_mem, htype, hfunction, decide_false,
      Bool.false_and, Bool.false_eq_true, if_false]
    unfold awaits
    split_ifs <;> rfl
  rw [run_name hr hw hds, this, List.append_assoc]

/-- A word that is not awaited, whatever the previous token is. -/
theorem run_keyword (hr : r.scanner.mode = .code) (v : String)
    (hv : v ∈ ["if", "else", "for", "while", "return", "const"])
    (hds : StopsRun isNameChar z) :
    r.run (v.toList ++ z) = v.toList ++ (r.after (some v)).run z := by
  have key : ∀ v ∈ ["if", "else", "for", "while", "return", "const"],
      isName v.toList = true ∧ v ∉ returnTypeWords ∧ v ≠ "function" ∧ v ≠ "delay" := by decide
  obtain ⟨hname, htype, hfunction, hdelay⟩ := key v hv
  have hawaits : r.awaits v.toList z = false := by simp [awaits, hdelay]
  rw [run_word hr hname (by simpa using htype) (by simpa using hfunction) hds, hawaits]
  simp

theorem run_identifier (hr : r.scanner.mode = .code) (x : Identifier)
    (hds : StopsRun isNameChar z) :
    r.run (x.chars ++ z) = (if r.awaits x.chars z then "await ".toList else []) ++
      (x.chars ++ (r.after (some (String.ofList x.chars))).run z) := by
  have hfree := x.free
  simp only [isIdentifier, Bool.and_eq_true, Bool.not_eq_true', List.contains_eq_mem,
    decide_eq_false_iff_not] at hfree
  refine run_word hr x.name hfree.2 (fun h => hfree.1 ?_) hds
  rw [h]
  decide

/-- A name that is not called. -/
theorem run_variable (hr : r.scanner.mode = .code) (x : Identifier) (hds : StopsRun isNameChar z)
    (hcall : peekChar? z ≠ some '(' ∨ r.previous = some ".") :
    r.run (x.chars ++ z) = x.chars ++ (r.after (some (String.ofList x.chars))).run z := by
  have : r.awaits x.chars z = false := by
    rcases hcall with h | h
    · simp [awaits, h]
    · have : r.previousIn quietBefore = true := by rw [previousIn, h]; decide
      simp [awaits, this]
  rw [run_identifier hr x hds, this]
  rfl

/-! ## Types -/

theorem peekName?_append (g : Gap) (hw : isName w = true) (hds : StopsRun isNameChar z) :
    peekName? (g.chars ++ (w ++ z)) = some ⟨g.chars, w, z⟩ := by
  cases w with
  | nil => cases hw
  | cons c w =>
    obtain ⟨hc, hrest⟩ := isName_cons.mp hw
    have hstop : StopsRun isSpace (c :: w ++ z) := by
      rintro _ ⟨⟩
      cases hs : isSpace c with
      | false => rfl
      | true => rw [isNameStart_of_isSpace hs] at hc; cases hc
    unfold peekName?
    rw [dropWhile_append_of_stopsRun g.blank hstop, takeWhile_append_of_stopsRun g.blank hstop,
      List.cons_append]
    dsimp only
    rw [if_pos hc, takeWhile_append_of_stopsRun hrest hds, dropWhile_append_of_stopsRun hrest hds]

/-- What is left of blanks in front of a name when the blanks on the same line are dropped. -/
theorem dropWhile_gap (g : Gap) (hw : isName w = true) (z : List Char) :
    (g.chars ++ (w ++ z)).dropWhile isHorizontal = g.below ++ (w ++ z) := by
  have hname : (w ++ z).dropWhile isHorizontal = w ++ z := by
    cases w with
    | nil => cases hw
    | cons c w =>
      have : isHorizontal c = false := by
        cases hh : isHorizontal c with
        | false => rfl
        | true =>
          have hc := (isName_cons.mp hw).1
          rw [isNameStart_of_isSpace (Grammar.isSpace_of_isHorizontal hh)] at hc
          cases hc
      simp [this]
  have hsplit := List.takeWhile_append_dropWhile (p := isHorizontal) (l := g.chars)
  conv_lhs => rw [← hsplit, List.append_assoc,
    List.dropWhile_append_of_pos fun c hc => List.mem_takeWhile_imp hc]
  unfold Gap.below
  cases hd : g.chars.dropWhile isHorizontal with
  | nil => exact hname
  | cons d z' =>
    have := List.head?_dropWhile_not isHorizontal g.chars
    rw [hd] at this
    rw [List.cons_append, List.dropWhile_cons_of_neg (by simpa using this)]

theorem isName_of_type {v : String} (hv : v ∈ returnTypeWords) : isName v.toList = true := by
  revert v
  decide

/-- The word that decides about a type is its last one; `unsigned` in front of it is dropped. -/
theorem run_type (hr : r.scanner.mode = .code) (hdot : r.previous ≠ some ".") (t : VariableType)
    (hds : StopsRun isNameChar z) :
    r.run (t.text ++ z) = t.remnant ++ r.run (t.word.toList ++ z) := by
  cases t with
  | plain v hv => exact congrArg r.run rfl
  | unsigned g v hv =>
    have key : ∀ v ∈ typeWords, v ∈ returnTypeWords ∧ isIdentifier v.toList = false := by decide
    obtain ⟨hreturn, hfree⟩ := key v hv
    have hname := isName_of_type hreturn
    have hword : r.word "unsigned".toList (g.chars ++ (v.toList ++ z)) =
        ⟨[], g.below ++ (v.toList ++ z), r⟩ := by
      have hunsigned : returnTypeWords.contains "unsigned" = true := by decide
      unfold word
      simp only [String.ofList_toList, hunsigned, hdot, ne_eq, not_false_eq_true, decide_true,
        Bool.and_self, if_true, peekName?_append g.toGap hname hds, hfree, Bool.false_eq_true,
        if_false, List.contains_eq_mem, hv, dropWhile_gap g.toGap hname]
    have htext : (VariableType.unsigned g v hv).text ++ z =
        "unsigned".toList ++ (g.chars ++ (v.toList ++ z)) := by
      rw [← List.append_assoc g.chars, ← List.append_assoc]
      rfl
    rw [htext, run_name hr (by decide) (g.stops _), hword]
    exact run_blanks hr g.isSpace_below _

/-- What the pass sees of a type in front of the name of what it is the type of. -/
theorem word_type {v : String} (hdot : r.previous ≠ some ".") (hv : v ∈ returnTypeWords) (g : Break)
    (x : Identifier) (hds : StopsRun isNameChar z) :
    r.word v.toList (g.chars ++ (x.chars ++ z)) =
      if peekChar? z = some '(' ∧ r.paramLevel = none then r.declaration ⟨g.chars, x.chars, z⟩
      else if v ≠ "void" then r.typedBinding (g.chars ++ (x.chars ++ z))
      else r.copyWord v.toList (g.chars ++ (x.chars ++ z)) := by
  unfold word
  simp only [String.ofList_toList, List.contains_eq_mem, hv, hdot, ne_eq, not_false_eq_true,
    decide_true, Bool.and_self, if_true, peekName?_append g.toGap x.name hds, x.free,
    Bool.and_eq_true, beq_iff_eq, Option.isNone_iff_eq_none]

/-- `let` takes the place of the type of a variable. -/
theorem run_let (hr : r.scanner.mode = .code) (hprevious : Settled r.previous)
    (hlevel : r.paramLevel = none) {v : String} (hv : v ∈ typeWords) (g : Break) (x : Identifier)
    (hds : StopsRun isNameChar z) (hcall : peekChar? z ≠ some '(') :
    r.run (v.toList ++ (g.chars ++ (x.chars ++ z))) =
      "let".toList ++ (r.after (some "let")).run (g.chars ++ (x.chars ++ z)) := by
  have key : ∀ v ∈ typeWords, v ∈ returnTypeWords ∧ v ≠ "void" := by decide
  obtain ⟨hreturn, hvoid⟩ := key v hv
  have hbinding : r.typedBinding (g.chars ++ (x.chars ++ z)) =
      ⟨"let".toList, g.chars ++ (x.chars ++ z), r.after (some "let")⟩ := by
    rw [typedBinding, if_neg (by simp [hlevel, hprevious.previousIn.2])]
    rfl
  rw [run_name hr (isName_of_type hreturn) (g.stops _), word_type hprevious.ne_dot hreturn g x hds,
    if_neg fun h => hcall h.1, if_pos hvoid, hbinding]

/-- The type of a constant or of a parameter is dropped. -/
theorem run_dropped (hr : r.scanner.mode = .code) (hdot : r.previous ≠ some ".")
    (hlevel : r.paramLevel.isSome = true ∨ r.previousIn bindingWords = true) {v : String}
    (hv : v ∈ typeWords) (g : Break) (x : Identifier) (hds : StopsRun isNameChar z)
    (hcall : peekChar? z ≠ some '(') :
    r.run (v.toList ++ (g.chars ++ (x.chars ++ z))) = g.below ++ r.run (x.chars ++ z) := by
  have key : ∀ v ∈ typeWords, v ∈ returnTypeWords ∧ v ≠ "void" := by decide
  obtain ⟨hreturn, hvoid⟩ := key v hv
  have hbinding : r.typedBinding (g.chars ++ (x.chars ++ z)) =
      ⟨[], g.below ++ (x.chars ++ z), r⟩ := by
    rw [typedBinding, if_pos (by simpa using hlevel), dropWhile_gap g.toGap x.name]
  rw [run_name hr (isName_of_type hreturn) (g.stops _), word_type hdot hreturn g x hds,
    if_neg fun h => hcall h.1, if_pos hvoid, hbinding]
  exact run_blanks hr g.isSpace_below _

/-- The pass in front of the parameters of a function. -/
def listing (r : Rewriter) (x : Identifier) : Rewriter :=
  { r.declare false with
    paramLevel := some r.parens
    previous := some (String.ofList x.chars) }

/-- **A function that is no entry point** loses its type, and its parameters will lose theirs. -/
theorem run_function (hr : r.scanner.mode = .code) (hdot : r.previous ≠ some ".")
    (hlevel : r.paramLevel = none) {v : String} (hv : v ∈ returnTypeWords) (g : Break)
    (x : Identifier) (hentry : String.ofList x.chars ∉ entryPoints)
    (hds : StopsRun isNameChar z) (hcall : peekChar? z = some '(') :
    r.run (v.toList ++ (g.chars ++ (x.chars ++ z))) =
      "function".toList ++ (g.chars ++ (x.chars ++ (r.listing x).run z)) := by
  have : r.declaration ⟨g.chars, x.chars, z⟩ =
      ⟨"function".toList ++ (g.chars ++ x.chars), z, r.listing x⟩ := by
    simp only [declaration, List.contains_eq_mem, hentry, decide_false, Bool.false_eq_true,
      if_false, listing]
  rw [run_name hr (isName_of_type hv) (g.stops _), word_type hdot hv g x hds,
    if_pos ⟨hcall, hlevel⟩, this]
  simp only [List.append_assoc]

/-- **An entry point** suspends. -/
theorem run_entry (hr : r.scanner.mode = .code) (hdot : r.previous ≠ some ".")
    (hlevel : r.paramLevel = none) {v : String} (hv : v ∈ returnTypeWords) (g : Break)
    (x : Identifier) (hentry : String.ofList x.chars ∈ entryPoints) (before inside : Gap)
    (z : List Char) :
    r.run (v.toList ++ (g.chars ++ (x.chars ++
        (before.chars ++ '(' :: (inside.chars ++ ')' :: z))))) =
      "async function".toList ++ (g.chars ++ (x.chars ++
        (before.chars ++ '(' :: (inside.chars ++ ')' ::
          ((r.declare true).after (some ")")).run z)))) := by
  have hopen := stopsRun_cons (p := isSpace) (c := '(') (by decide) (inside.chars ++ ')' :: z)
  have hclose := stopsRun_cons (p := isSpace) (c := ')') (by decide) z
  have hstop : StopsRun isNameChar (before.chars ++ '(' :: (inside.chars ++ ')' :: z)) :=
    before.stops (fun _ => isNameChar_of_isSpace) (stopsRun_cons (by decide +kernel) _)
  have hpeek : peekChar? (before.chars ++ '(' :: (inside.chars ++ ')' :: z)) = some '(' := by
    rw [peekChar?_append before.blank]
    rfl
  have : r.declaration ⟨g.chars, x.chars, before.chars ++ '(' :: (inside.chars ++ ')' :: z)⟩ =
      ⟨"async function".toList ++ (g.chars ++ x.chars) ++ before.chars ++ '(' :: inside.chars
        ++ [')'], z, (r.declare true).after (some ")")⟩ := by
    simp only [declaration, List.contains_eq_mem, hentry, decide_true, if_true, skipSpace,
      dropWhile_append_of_stopsRun before.blank hopen,
      takeWhile_append_of_stopsRun before.blank hopen, List.drop_one, List.tail_cons,
      dropWhile_append_of_stopsRun inside.blank hclose,
      takeWhile_append_of_stopsRun inside.blank hclose, after]
  rw [run_name hr (isName_of_type hv) (g.stops _), word_type hdot hv g x hstop,
    if_pos ⟨hpeek, hlevel⟩, this]
  simp only [List.append_assoc, List.cons_append, List.nil_append]

/-! ## Numbers -/

/-- **A number is copied**, and it is no word that the pass heeds. -/
theorem run_numeral (hr : r.scanner.mode = .code) (n : Numeral)
    (hds : StopsRun isNumberChar z) :
    ∃ p, Settled p ∧ r.run (n.first :: n.others ++ z) =
      n.first :: n.others ++ (r.after p).run z := by
  have hothers : ∀ c ∈ n.others, isNumberChar c = true := fun c hc => by
    simp [isNumberChar, n.word c hc]
  have hname : isName (n.first :: n.others) = false := by
    simp [isName, isNameStart_of_isDecimalDigit n.digit]
  have hspace : isSpace n.first = false := by
    cases hs : isSpace n.first with
    | false => rfl
    | true => rw [← n.digit, isDecimalDigit_of_isSpace hs]
  refine ⟨some (String.ofList (n.first :: n.others)), ?settled, ?run⟩
  case settled =>
    have key : ∀ w ∈ quietBefore ++ bindingWords, (w.toList.head?.any isDecimalDigit) = false := by
      decide
    have hnot : String.ofList (n.first :: n.others) ∉ quietBefore ++ bindingWords := fun h => by
      simpa [n.digit] using key _ h
    rw [List.mem_append, not_or] at hnot
    exact settled_some hnot.1 hnot.2
  case run =>
    have hmark : r.punctuation (n.first :: n.others) =
        r.after (some (String.ofList (n.first :: n.others))) := by
      have hne : ∀ d : Char, isDecimalDigit d = false → n.first :: n.others ≠ [d] := by
        rintro d hd h
        rw [← (List.cons.inj h).1, n.digit] at hd
        cases hd
      simp [punctuation, isBlank, hspace, hne, after, isDecimalDigit, decimalDigit?]
    rw [List.cons_append, run_cons]
    unfold step
    rw [step_digit hr n.digit]
    simp only [takeRun, takeWhile_append_of_stopsRun hothers hds,
      dropWhile_append_of_stopsRun hothers hds, hname, Bool.false_eq_true, if_false, hmark]

/-! ## Texts between marks -/

/-- The pass inside of something that began with a mark. -/
def within (r : Rewriter) (m : Mode) : Rewriter :=
  { r with scanner := { r.scanner with mode := m }, previous := none }

section Within

variable {k : Kind} {u : Char → Bool}

/-- What the scanner takes of a string or a template is copied. -/
theorem run_literal_step (hprevious : r.previous = none)
    (hkind : (r.scanner.step c cs).kind = .string ∨ (r.scanner.step c cs).kind = .template) :
    r.run (c :: cs) = (r.scanner.step c cs).text ++
      ({ r with scanner := (r.scanner.step c cs).scanner } : Rewriter).run
        (r.scanner.step c cs).rest := by
  rw [run_cons]
  unfold step
  dsimp only
  rcases hkind with h | h <;> rw [h] <;> simp only [hprevious]

/-- **A character of a run** might as well be taken by itself. -/
theorem run_plain (hprevious : r.previous = none) (hk : k = .string ∨ k = .template)
    (hrun : ∀ c cs, u c = true → r.scanner.step c cs = r.scanner.takeRun k u c cs)
    (hc : u c = true) (cs : List Char) : r.run (c :: cs) = c :: r.run cs := by
  have hstep {d : Char} (hd : u d = true) (z : List Char) :
      r.run (d :: z) = d :: z.takeWhile u ++ r.run (z.dropWhile u) := by
    rw [run_literal_step hprevious (by rw [hrun d z hd]; exact hk), hrun d z hd]
    rfl
  rw [hstep hc]
  cases cs with
  | nil => rfl
  | cons d cs =>
    cases hd : u d with
    | false => simp [hd]
    | true => rw [hstep hd, List.takeWhile_cons_of_pos hd, List.dropWhile_cons_of_pos hd]; rfl

theorem run_body (q : Quote) (body z : List Char) (h : isQuotable q.char body = true) :
    (r.within (.string q)).run (body ++ q.char :: z) =
      body ++ q.char :: (r.within .code).run z := by
  have hstep (c : Char) (cs : List Char) :=
    step_string (s := (r.within (.string q)).scanner) rfl c cs
  have hquote : q.char ≠ '\\' := by cases q <;> decide
  induction body using isQuotable.induct with
  | case1 =>
    rw [List.nil_append, run_literal_step rfl (.inl ?_), hstep] <;>
      simp only [hstep, stepQuoted, hquote, if_false, if_true] <;> rfl
  | case2 c cs ih =>
    rw [isQuotable] at h
    rw [List.cons_append, List.cons_append, run_literal_step rfl (.inl ?_), hstep]
    · simp only [stepQuoted, if_true, List.take_succ_cons, List.take_zero, List.drop_succ_cons,
        List.drop_zero]
      exact congrArg ('\\' :: c :: ·) (ih h)
    · rw [hstep]
      rfl
  | case3 c cs hne ih =>
    rw [isQuotable.eq_3 _ _ _ hne] at h
    simp only [Bool.and_eq_true, decide_eq_true_eq] at h
    rw [List.cons_append, run_plain (k := .string)
      (u := fun c => c ≠ '\\' && c ≠ q.char) rfl (.inl rfl) ?_ (by simp [h.1.1, h.1.2]), ih h.2]
    · rfl
    · intro d es hd
      simp only [Bool.and_eq_true, decide_eq_true_eq] at hd
      rw [hstep, stepQuoted, if_neg hd.1, if_neg hd.2, if_pos (by simp [hd.1, hd.2])]

/-- **A string is copied.** -/
theorem run_literal (hr : r.scanner.mode = .code) (s : Literal) (z : List Char) :
    r.run (s.quote.char :: (s.body ++ s.quote.char :: z)) =
      s.quote.char :: (s.body ++ s.quote.char :: (r.after none).run z) := by
  have hopen : r.scanner.step s.quote.char (s.body ++ s.quote.char :: z) =
      takeOne { r.scanner with mode := .string s.quote } .string s.quote.char
        (s.body ++ s.quote.char :: z) := by
    rw [step_code hr]
    cases s.quote <;> rfl
  have hcode : r.within .code = r.after none := by
    unfold within after
    rw [← hr]
  rw [run_cons]
  unfold step
  rw [hopen]
  dsimp only [takeOne]
  rw [← hcode, ← run_body s.quote s.body z s.quotable]
  rfl

/-- **The text of a template is copied.** -/
theorem run_chunk (r : Rewriter) (c : Chunk) (z : List Char) (hds : z.head? ≠ some '{') :
    (r.within .template).run (c.chars ++ z) = c.chars ++ (r.within .template).run z := by
  obtain ⟨cs, h⟩ := c
  dsimp only
  have hstep (c : Char) (cs : List Char) :=
    step_template (s := (r.within .template).scanner) rfl c cs
  induction cs using isPlain.induct with
  | case1 => rfl
  | case2 c cs ih =>
    rw [isPlain] at h
    rw [List.cons_append, List.cons_append, run_literal_step rfl (.inr ?_), hstep]
    · simp only [stepQuoted, Char.reduceEq, false_and, if_false, if_true, List.take_succ_cons,
        List.take_zero, List.drop_succ_cons, List.drop_zero]
      exact congrArg ('\\' :: c :: ·) (ih h)
    · rw [hstep]
      rfl
  | case3 cs ih =>
    rw [isPlain] at h
    simp only [Bool.and_eq_true, decide_eq_true_eq] at h
    have hhead : (cs ++ z).head? ≠ some '{' := by
      cases cs with
      | nil => exact hds
      | cons d cs => exact h.1
    rw [List.cons_append, run_literal_step rfl (.inr ?_), hstep, if_neg fun h => hhead h.2]
    · exact congrArg ('$' :: ·) (ih h.2)
    · rw [hstep, if_neg fun h => hhead h.2]
      rfl
  | case4 c cs hescape hdollar ih =>
    rw [isPlain.eq_4 _ _ hescape hdollar] at h
    simp only [Bool.and_eq_true, decide_eq_true_eq] at h
    have hc : c ≠ '$' := by
      rintro rfl
      exact hdollar rfl
    rw [List.cons_append, run_plain (k := .template)
      (u := fun c => c ≠ '\\' && c ≠ '\x60' && c ≠ '$') rfl (.inr rfl) ?_
      (by simp [h.1.1, h.1.2, hc]), ih h.2]
    · rfl
    · intro d es hd
      simp only [Bool.and_eq_true, decide_eq_true_eq] at hd
      rw [hstep, if_neg fun h => hd.2 h.1, stepQuoted, if_neg hd.1.1, if_neg hd.1.2,
        if_pos (by simp [hd.1.1, hd.1.2, hd.2])]

end Within

/-! ## Templates -/

theorem run_openTemplate (hr : r.scanner.mode = .code) (z : List Char) :
    r.run ('\x60' :: z) = '\x60' :: (r.within .template).run z := by
  rw [run_cons]
  unfold step
  rw [step_code hr]
  rfl

theorem run_closeTemplate (hr : r.scanner.mode = .code) (z : List Char) :
    (r.within .template).run ('\x60' :: z) = '\x60' :: (r.after none).run z := by
  have hcode : r.within .code = r.after none := by
    unfold within after
    rw [← hr]
  rw [run_cons, ← hcode]
  rfl

/-- The pass inside of an interpolation. -/
def interpolated (r : Rewriter) : Rewriter :=
  let nesting := r.scanner.nesting.openInterpolation
  { r with
    scanner := ⟨.code, nesting, nesting.depth :: r.scanner.interpolations⟩
    previous := none }

theorem run_openInterpolation (r : Rewriter) (z : List Char) :
    (r.within .template).run ('$' :: '{' :: z) = '$' :: '{' :: r.interpolated.run z := by
  rw [run_cons]
  rfl

/-- No function body that is open was entered deeper than the pass is now. -/
def Entered (n : Nesting) : Prop := ∀ b ∈ n.bodies.head?, b.entryDepth ≤ n.depth

/-- What a brace or an interpolation opened is closed again. -/
theorem Entered.closeBrace {n : Nesting} (h : Entered n) :
    (n.bodies.dropWhile fun b => n.depth < b.entryDepth) = n.bodies := by
  cases hb : n.bodies with
  | nil => rfl
  | cons b bs =>
    have := h b (by rw [hb]; rfl)
    rw [List.dropWhile_cons_of_neg (by simpa using this)]

theorem run_closeInterpolation (hr : Entered r.scanner.nesting) (p : Option String)
    (z : List Char) :
    (r.interpolated.after p).run ('}' :: z) = '}' :: (r.within .template).run z := by
  have hclose : r.interpolated.scanner.nesting.closeBrace = r.scanner.nesting := by
    have := hr.closeBrace
    unfold interpolated Nesting.closeBrace Nesting.openInterpolation
    simp only [Nat.add_sub_cancel, this]
  have hstep : (r.interpolated.after p).scanner.step '}' z =
      takeOne (r.within .template).scanner .template '}' z := by
    have hmatch : (r.interpolated.after p).scanner.interpolations.head? =
        some (r.interpolated.after p).scanner.nesting.depth := rfl
    rw [step_code rfl, stepCode_closeBrace, if_pos hmatch, after_scanner, hclose]
    rfl
  rw [run_cons]
  unfold step
  rw [hstep]
  rfl

/-! ## Blocks -/

/-- The pass behind the brace that opens a block. -/
def inBlock (r : Rewriter) : Rewriter :=
  { r with
    scanner := { r.scanner with nesting := r.scanner.nesting.openBrace }
    previous := some "\x7b" }

/-- The pass without a declaration that waits for its body. -/
def forget (r : Rewriter) : Rewriter :=
  { r with scanner := { r.scanner with nesting := r.scanner.nesting.cancelPending } }

theorem run_openBrace (hr : r.scanner.mode = .code) (z : List Char) :
    r.run ('{' :: z) = '{' :: r.inBlock.run z := by
  rw [run_cons]
  unfold step
  rw [step_code hr]
  rfl

theorem run_closeBrace (hr : r.scanner.mode = .code) (hi : r.scanner.interpolations = [])
    (hn : Entered r.scanner.nesting) (p : Option String) (z : List Char) :
    (r.inBlock.after p).run ('}' :: z) = '}' :: (r.forget.after (some "\x7d")).run z := by
  have hclose : r.scanner.nesting.openBrace.closeBrace = r.scanner.nesting.cancelPending := by
    have := hn.closeBrace
    unfold Nesting.openBrace Nesting.closeBrace Nesting.cancelPending
    cases r.scanner.nesting.pending <;>
      simp only [Nat.add_sub_cancel, this, Nat.lt_succ_self, decide_true, List.dropWhile_cons_of_pos]
  have hstep : (r.inBlock.after p).scanner.step '}' z = takeOne r.forget.scanner .code '}' z := by
    have hnone : (r.inBlock.after p).scanner.interpolations.head? ≠
        some (r.inBlock.after p).scanner.nesting.depth := by
      rw [after_scanner, inBlock, hi]
      nofun
    rw [step_code (s := (r.inBlock.after p).scanner) hr, stepCode_closeBrace, if_neg hnone]
    unfold forget
    rw [← hclose]
    rfl
  rw [run_cons]
  unfold step
  rw [hstep]
  rfl

end Rewriter

end LedSketch.Dialect
