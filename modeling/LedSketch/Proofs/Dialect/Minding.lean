import LedSketch.Proofs.Dialect.Trail

/-!
# The pass minds every pause

What the pass writes is minded by a reader that goes over it: where that reader finds a call of
`delay` in a body that may suspend, the pass found it there too, and it wrote an `await` in front of
it unless the token before keeps it from that.

The pass forgets that an `async` stands in front of a type, and declares a function that does not
suspend.

* `Clear`: a source where no `async` stands in front of a type.
* `InTune`: the reader is in tune with the pass.
* `minds_run`: what the pass writes is minded.
-/

namespace LedSketch.Dialect

open Text Scan Scanner Grammar

variable {q : Rewriter} {r r' : Reader} {g : Gist} {c : Char} {cs ds w k : List Char}
  {p : Option String} {gs hs : List Segment}

/-! ## Sources -/

/-- The last token of code behind a segment, if it was `p` before. -/
def lastToken (p : Option String) (g : Segment) : Option String :=
  match g.kind with
  | .code => if isBlank g.text then p else some (String.ofList g.text)
  | .string | .template => none
  | .lineComment | .blockComment => p

/-- **No `async` stands in front of a type**; before the segments comes the token `p`. -/
def Clear : Option String → List Segment → Bool
  | _, [] => true
  | p, g :: gs =>
    !(g.kind = .code && p == some "async" && returnTypeWords.contains (String.ofList g.text)) &&
      Clear (lastToken p g) gs

theorem Clear.tail {f : Segment} (h : Clear p (f :: gs) = true) :
    Clear (lastToken p f) gs = true := by
  rw [Clear, Bool.and_eq_true] at h
  exact h.2

theorem Clear.append (h : Clear p (gs ++ hs) = true) : Clear (gs.foldl lastToken p) hs = true := by
  induction gs generalizing p with
  | nil => exact h
  | cons f gs ih => exact ih (Clear.tail h)

/-- A name behind `async` is no type. -/
theorem Clear.name (h : Clear p (⟨.code, w⟩ :: gs) = true) (hp : p = some "async") :
    String.ofList w ∉ returnTypeWords := by
  rw [Clear, hp, Bool.and_eq_true] at h
  simpa using h.1

theorem foldl_blanks {xs : List Char} (hx : ∀ c ∈ xs, isSpace c = true) :
    (xs.map fun c => (⟨.code, [c]⟩ : Segment)).foldl lastToken p = p := by
  induction xs with
  | nil => rfl
  | cons c xs ih =>
    have hblank : isBlank [c] = true := by simp [isBlank, hx c List.mem_cons_self]
    rw [List.map_cons, List.foldl_cons, lastToken, hblank]
    exact ih fun d hd => hx d (List.mem_cons_of_mem c hd)

theorem isBlank_of_isName (hw : isName w = true) : isBlank w = false := by
  cases w with
  | nil => cases hw
  | cons c w =>
    cases hs : isSpace c with
    | false => simp [isBlank, hs]
    | true =>
      have := (isName_cons.mp hw).1
      rw [isNameStart_of_isSpace hs] at this
      cases this

theorem lastToken_name (hw : isName w = true) :
    lastToken p ⟨.code, w⟩ = some (String.ofList w) := by
  rw [lastToken, isBlank_of_isName hw]
  rfl

/-! ## Looking ahead in the host form -/

theorem peekChar?_append {xs : List Char} (hx : ∀ c ∈ xs, isSpace c = true) :
    peekChar? (xs ++ ds) = peekChar? ds := by
  induction xs with
  | nil => rfl
  | cons c xs ih =>
    rw [List.cons_append, peekChar?_cons, if_pos (hx c List.mem_cons_self)]
    exact ih fun d hd => hx d (List.mem_cons_of_mem c hd)

theorem peekChar?_name (hw : isName w = true) : peekChar? (w ++ ds) ≠ some '(' := by
  cases w with
  | nil => cases hw
  | cons c w =>
    have hc := (isName_cons.mp hw).1
    have hs : isSpace c = false := by
      cases hs : isSpace c with
      | false => rfl
      | true => rw [isNameStart_of_isSpace hs] at hc; cases hc
    rw [List.cons_append, peekChar?_cons, hs]
    rintro ⟨⟩
    revert hc
    decide

/-- **A parenthesis that comes next in what the pass writes** comes next in the source. -/
theorem peekChar?_run (q : Rewriter) (cs : List Char) (hm : q.scanner.mode = .code)
    (h : peekChar? (q.run cs) = some '(') : peekChar? cs = some '(' := by
  induction q, cs using Rewriter.run.induct with
  | case1 q => rwa [Rewriter.run_nil] at h
  | case2 q c cs ih =>
    rw [Rewriter.run_cons] at h
    by_cases hname : Rewriter.AtName q.scanner c
    · have hw : isName (c :: cs.takeWhile isNameChar) = true :=
        isName_cons.mpr ⟨hname.2, fun d => List.mem_takeWhile_imp⟩
      rw [Rewriter.step_of_name hname] at ih h
      have hf := Rewriter.fate_word q (c :: cs.takeWhile isNameChar) (cs.dropWhile isNameChar)
      generalize q.word (c :: cs.takeWhile isNameChar) (cs.dropWhile isNameChar) = o at ih hf h
      -- whatever is written starts with a name, unless a type is dropped in front of one
      have starts {v ds : List Char} (hv : isName v = true) (h : peekChar? (v ++ ds) = some '(') :
          peekChar? (c :: cs) = some '(' := absurd h (peekChar?_name hv)
      cases hf with
      | copied => exact starts hw h
      | awaited => exact starts (v := "await".toList) (by decide) (by simpa using h)
      | bound => exact starts (v := "let".toList) (by decide) h
      | declared => exact starts (v := "function".toList) (by decide) (by simpa using h)
      | entry => exact starts (v := "async".toList) (by decide) (by simpa using h)
      | dropped a type ahead =>
        have hpeek := ih hname.1 h
        obtain ⟨heq, hblank, hn, -⟩ := Rewriter.peekName?_eq_some ahead
        have hnot : peekChar? (a.name ++ a.rest) ≠ some '(' := peekChar?_name hn
        refine absurd ?_ hnot
        rw [← peekChar?_append hblank, ← heq, ← hpeek]
        conv_lhs => rw [← List.takeWhile_append_dropWhile (p := isHorizontal)
          (l := cs.dropWhile isNameChar)]
        exact peekChar?_append fun d hd => isSpace_of_isHorizontal (List.mem_takeWhile_imp hd)
    · obtain ⟨hout, hrest, halike⟩ := Rewriter.step_of_other cs hname
      rw [hout] at h
      rw [peekChar?_cons]
      split
      · rename_i hspace
        have hmark := isMark_of_isSpace hspace q.scanner cs hm
        rw [hmark] at hout hrest halike h
        refine (congrArg peekChar? hrest).symm.trans (ih (halike.mode.trans hm) ?_)
        rwa [show (q.scanner.takeOne .code c cs).text = [c] from rfl, List.singleton_append,
          peekChar?_cons, if_pos hspace] at h
      · rename_i hspace
        rwa [text_eq_cons, List.cons_append, peekChar?_cons, if_neg hspace] at h

/-! ## In tune with the pass -/

/-- What the token before means. -/
def Gist.last (token : Option String) : Gist := token.elim .other Gist.of

/-- **The reader of what the pass writes is in tune with the pass**, in front of what is left: it
remembers the same token, and it finds no body suspendable that the pass does not. -/
structure InTune (q : Rewriter) (r : Reader) (g : Gist) (cs : List Char) : Prop where
  alike : Alike q.scanner r.scanner
  below : Below r.scanner.nesting q.scanner.nesting
  parens : q.parens = r.parens
  number : r.inNumber = true → StopsRun isNumberChar cs
  lead : r.lead = .async → q.previous = some "async"
  gist : g = .last q.previous

/-- Code that is no name keeps the reader in tune. -/
theorem inTune_mark {s : Scanner} (ha : Alike s r.scanner)
    (hb : Below r.scanner.nesting s.nesting) (hp : q.parens = r.parens)
    (hl : r.lead = .async → q.previous = some "async") (hn : r.inNumber = false)
    (hg : g = .last q.previous) :
    InTune ({ q with scanner := s }.punctuation w) (r.mark w) (g.behind .code w) ds := by
  have number {r' : Reader} (hr' : r'.inNumber = r.inNumber) :
      r'.inNumber = true → StopsRun isNumberChar ds := by
    rw [hr', hn]
    nofun
  unfold Rewriter.punctuation Reader.mark Gist.behind
  dsimp only
  rw [← hp]
  split_ifs
  · exact ⟨ha, hb, hp, number rfl, hl, hg⟩
  · exact ⟨ha, hb, rfl, number rfl, nofun, rfl⟩
  · exact ⟨ha, hb, rfl, number rfl, nofun, rfl⟩
  · exact ⟨⟨ha.mode, ha.depth, ha.interpolations⟩, hb.cancelPending, rfl, number rfl, nofun, rfl⟩
  · exact ⟨ha, hb, rfl, number rfl, nofun, rfl⟩

namespace InTune

theorem not_goesOn (h : InTune q r g (c :: cs)) : ¬ r.GoesOn c := by
  rintro ⟨-, hn, hg⟩
  rw [h.number hn c rfl] at hg
  cases hg

/-- **A segment that is no name** keeps the reader in tune, if it is not read as a number. -/
theorem take (h : InTune q r g (c :: cs)) (hname : ¬ Rewriter.AtName q.scanner c)
    (hk : Follows (q.scanner.step c cs).scanner.mode (q.scanner.step c cs).rest k) :
    InTune (q.step c cs).rewriter
        (r.take (r.scanner.step c ((q.scanner.step c cs).text.tail ++ k))).reader
        (g.behind (r.scanner.step c ((q.scanner.step c cs).text.tail ++ k)).kind
          (r.scanner.step c ((q.scanner.step c cs).text.tail ++ k)).text)
        (q.step c cs).rest ∧
      (r.take (r.scanner.step c ((q.scanner.step c cs).text.tail ++ k))).rest = k := by
  have hfollows := step_of_follows rfl hk
  have hsame := step_of_alike h.alike c ((q.scanner.step c cs).text.tail ++ k)
  have hbelow := below_step h.alike.symm h.below c ((q.scanner.step c cs).text.tail ++ k)
  rw [hfollows] at hsame hbelow
  generalize r.scanner.step c ((q.scanner.step c cs).text.tail ++ k) = u at hsame hbelow
  obtain ⟨hkind, htext, hrest, halike⟩ := hsame
  dsimp only [Step.withRest] at hkind htext hrest halike hbelow
  refine ⟨?_, by rw [Reader.take_rest]; exact hrest.symm⟩
  unfold Rewriter.step Reader.take
  dsimp only
  rw [← hkind, ← htext]
  cases hc : (q.scanner.step c cs).kind with
  | code =>
    have hw := Rewriter.not_isName_of_not_atName hname hc
    simp only [hw, Bool.false_eq_true, if_false]
    exact inTune_mark (r := { r with scanner := u.scanner, inNumber := false }) halike hbelow
      h.parens h.lead rfl h.gist
  | string => exact ⟨halike, hbelow, h.parens, nofun, nofun, rfl⟩
  | template => exact ⟨halike, hbelow, h.parens, nofun, nofun, rfl⟩
  | lineComment => exact ⟨halike, hbelow, h.parens, nofun, h.lead, h.gist⟩
  | blockComment => exact ⟨halike, hbelow, h.parens, nofun, h.lead, h.gist⟩

/-- A number means nothing. -/
theorem of_digit (hc : isDecimalDigit c = true) (w : List Char) :
    Gist.of (String.ofList (c :: w)) = .other := by
  have hne (v : String) (hv : (v.toList.head?.any isDecimalDigit) = false) :
      String.ofList (c :: w) ≠ v := by
    rintro rfl
    rw [String.toList_ofList] at hv
    simp [hc] at hv
  unfold Gist.of
  rw [if_neg (hne _ (by decide)), if_neg (hne _ (by decide)), if_neg (hne _ (by decide)),
    if_neg (hne _ (by decide))]

/-- **A number is minded.** The reader takes it character by character. -/
theorem minds_number (h : InTune q r g (c :: cs)) (hm : q.scanner.mode = .code)
    (hc : isDecimalDigit c = true)
    (ih : ∀ r' g', InTune (q.step c cs).rewriter r' g' (q.step c cs).rest → Minds g' r' k) :
    Minds g r (c :: (cs.takeWhile isNumberChar ++ k)) := by
  have hstart := isNameStart_of_isDecimalDigit hc
  have hmode : r.scanner.mode = .code := h.alike.mode ▸ hm
  refine minds_cons (mindful_of_start hstart) ?_
  unfold Reader.gist Reader.step
  rw [if_pos (Or.inr ⟨hmode, hc⟩), if_neg h.not_goesOn, if_pos ⟨hmode, hc⟩]
  refine minds_numberChars hmode rfl rfl (fun d => List.mem_takeWhile_imp) (ih _ _ ?_)
  have hw : isName (c :: cs.takeWhile isNumberChar) = false := by
    simp [isName, hstart]
  unfold Rewriter.step
  rw [step_digit hm hc]
  simp only [takeRun, hw, Bool.false_eq_true, if_false]
  rw [punctuation_digit hc]
  exact ⟨h.alike, h.below, h.parens, fun _ => stopsRun_dropWhile _ _, by rintro ⟨⟩,
    (of_digit hc _).symm⟩

/-- **A segment that is no name is minded** if what is left behind it is. -/
theorem minds_other (h : InTune q r g (c :: cs)) (hname : ¬ Rewriter.AtName q.scanner c)
    (hk : Follows (q.scanner.step c cs).scanner.mode (q.scanner.step c cs).rest k)
    (ih : ∀ r' g', InTune (q.step c cs).rewriter r' g' (q.step c cs).rest → Minds g' r' k) :
    Minds g r ((q.scanner.step c cs).text ++ k) := by
  by_cases hdigit : q.scanner.mode = .code ∧ isDecimalDigit c = true
  · rw [step_digit hdigit.1 hdigit.2]
    exact h.minds_number hdigit.1 hdigit.2 ih
  · have hplain : ¬ (r.GoesOn c ∨ r.scanner.mode = .code ∧ isDecimalDigit c = true) :=
      not_or.mpr ⟨h.not_goesOn, h.alike.mode ▸ hdigit⟩
    have hmeets (ds v : List Char) : ¬ r.Meets (c :: ds) v := by
      intro hmeets
      refine Reader.not_meets_of_start ?_ hmeets
      simpa using fun hs => hname ⟨h.alike.mode.trans hmeets.1, hs⟩
    rw [text_eq_cons, List.cons_append]
    refine minds_cons (fun _ _ hm => absurd hm (hmeets _ _)) ?_
    obtain ⟨hin, hrest⟩ := h.take hname hk
    unfold Reader.gist Reader.step
    rw [if_neg hplain, if_neg h.not_goesOn, if_neg (h.alike.mode ▸ hdigit), hrest]
    exact ih _ _ hin

/-! ## In tune with the fates of a name -/

/-- A name of code is not read as part of a number. -/
theorem free (h : InTune q r g (w ++ ds)) (hm : q.scanner.mode = .code) (hw : isName w = true) :
    r.Free w where
  code := h.alike.mode ▸ hm
  number c hc := by
    cases w with
    | nil => cases hw
    | cons d w =>
      cases hc
      exact h.not_goesOn

/-- A name that starts with a letter is not met behind a number. -/
theorem not_inNumber (h : InTune q r g (c :: cs)) (hc : isLetter c = true) :
    r.inNumber = false := by
  cases hn : r.inNumber with
  | false => rfl
  | true =>
    have := h.number hn c rfl
    simp [isNumberChar, isWordChar_of_isLetter hc] at this

/-- **A name that is copied** keeps the reader in tune. -/
theorem word {member : Bool} (h : InTune q r g cs) :
    InTune (q.afterWord w) ({ r with inNumber := false }.word member w)
      (.of (String.ofList w)) ds := by
  unfold Rewriter.afterWord Reader.word
  dsimp only
  split_ifs with hf ha hmember
  · refine ⟨⟨h.alike.mode, h.alike.depth, h.alike.interpolations⟩, h.below.declare ?_, h.parens,
      nofun, nofun, rfl⟩
    intro hlead
    rw [h.lead (by simpa using hlead)]
    rfl
  · exact ⟨h.alike, h.below, h.parens, nofun, nofun, rfl⟩
  · exact ⟨h.alike, h.below, h.parens, nofun, fun _ => congrArg some ha, rfl⟩
  · exact ⟨h.alike, h.below, h.parens, nofun, nofun, rfl⟩

end InTune

/-- A name that means nothing to the reader is minded if what is left behind it is. -/
theorem minds_plain (hf : r.Free w) (hw : isName w = true) (hds : StopsRun isNameChar ds)
    (hfunction : String.ofList w ≠ "function") (hasync : String.ofList w ≠ "async")
    (hdelay : String.ofList w = "delay" → g ≠ .other)
    (h : Minds (.of (String.ofList w)) { r with inNumber := false, lead := .other } ds) :
    Minds g r (w ++ ds) := by
  refine minds_name hf hw hds (fun he _ _ _ => hdelay he) fun member => ?_
  rw [Reader.word_other hfunction hasync]
  exact h

/-- The word `function`, blanks and the name that is declared. -/
theorem minds_function (hm : r.scanner.mode = .code) (hn : r.inNumber = false)
    {bs : List Char} (hne : bs ≠ []) (hb : ∀ c ∈ bs, isSpace c = true)
    (hw : isName w = true) (hid : isIdentifier w = true) (hds : StopsRun isNameChar ds)
    (h : Minds (.of (String.ofList w))
      { r with
        scanner := { r.scanner with nesting := r.scanner.nesting.declare (r.lead == .async) }
        lead := .other } ds) :
    Minds g r ("function".toList ++ (bs ++ (w ++ ds))) := by
  have hkeyword (v : String) (hv : v ∈ keywords) : String.ofList w ≠ v := by
    rintro rfl
    simp [isIdentifier, hv] at hid
  refine minds_name ⟨hm, fun _ _ => Reader.not_goesOn_of_idle hn⟩ (by decide)
    (stopsRun_of_isSpace hne hb _) (fun he => absurd he (by decide)) fun member => ?_
  have hword : { r with inNumber := false }.word member "function".toList =
      { r with
        scanner := { r.scanner with nesting := r.scanner.nesting.declare (r.lead == .async) }
        lead := .other } := by
    unfold Reader.word
    rw [String.ofList_toList, if_pos rfl, ← hn]
  rw [hword]
  refine minds_spaces hm hn hb ?_
  refine minds_plain ⟨hm, fun _ _ => Reader.not_goesOn_of_idle hn⟩ hw hds
    (hkeyword _ (by decide)) (hkeyword _ (by decide)) (fun _ => by decide) ?_
  rw [hn] at h
  exact h

/-- The empty parentheses of an entry point. -/
theorem minds_parens (hm : r.scanner.mode = .code) (hn : r.inNumber = false)
    {before inside : List Char} (hb : ∀ c ∈ before ++ inside, isSpace c = true)
    (h : Minds (.of ")") { r with lead := .other } ds) :
    Minds g r (before ++ '(' :: (inside ++ ')' :: ds)) := by
  have hopen : ({ r with inNumber := false } : Reader).mark ['('] =
      { r with inNumber := false, lead := .other, parens := r.parens + 1 } := rfl
  have hclose : ({ r with inNumber := false, lead := .other, parens := r.parens + 1 } :
      Reader).mark [')'] = { r with lead := .other } := by
    rw [← hn]
    rfl
  refine minds_spaces hm hn (fun c hc => hb c (List.mem_append_left _ hc)) ?_
  refine minds_mark hm isMark_openParen isNumberChar_openParen (by decide) (by decide) ?_
  rw [hopen]
  refine minds_spaces hm rfl (fun c hc => hb c (List.mem_append_right _ hc)) ?_
  refine minds_mark hm isMark_closeParen isNumberChar_closeParen (by decide) (by decide) ?_
  exact hclose ▸ h

/-! ## What a name is turned into -/

namespace Rewriter

/-- Only the pausing builtin is awaited, and it is wherever no token keeps the pass from it. -/
theorem copyWord_eq (q : Rewriter) (w rest : List Char) :
    (q.copyWord w rest = ⟨"await ".toList ++ w, rest, q.afterWord w⟩ ∧
        String.ofList w = "delay") ∨
      q.copyWord w rest = ⟨w, rest, q.afterWord w⟩ ∧
        (String.ofList w = "delay" → peekChar? rest = some '(' →
          q.scanner.nesting.suspendable = true → q.scanner.inInterpolation = false →
            q.previousIn quietBefore = true) := by
  unfold copyWord afterWord
  dsimp only
  split_ifs with h₁ h₂
  · refine Or.inr ⟨rfl, fun hd => ?_⟩
    rw [h₁] at hd
    exact absurd hd (by decide)
  · simp only [Bool.and_eq_true, decide_eq_true_eq, Bool.not_eq_true'] at h₂
    exact Or.inl ⟨rfl, h₂.1.1.1.1⟩
  · refine Or.inr ⟨rfl, fun hd hp hs hi => ?_⟩
    by_contra hq
    exact h₂ (by simp [hd, hp, hs, hi, hq])

/-- The pausing builtin is never taken for a type. -/
theorem word_of_delay {rest : List Char} (hw : String.ofList w = "delay") :
    q.word w rest = q.copyWord w rest := by
  have htype : "delay" ∉ returnTypeWords := by decide
  unfold word
  simp [hw, htype]

end Rewriter

theorem last_ne_other (h : q.previousIn quietBefore = true) : Gist.last q.previous ≠ .other := by
  unfold Rewriter.previousIn at h
  cases hp : q.previous with
  | none => rw [hp] at h; cases h
  | some token =>
    rw [hp, Option.any_some, List.contains_iff_mem] at h
    have key : ∀ v ∈ quietBefore, Gist.last (some v) ≠ .other := by decide
    exact key _ h

/-- Where what is left of the source starts with no letter of a name, so does what becomes of it. -/
theorem Rewriter.Fate.stopsRun_run {rest : List Char} {o : Rewritten} (hf : Fate q w rest o)
    (hm : q.scanner.mode = .code) (hrest : StopsRun isNameChar o.rest) :
    StopsRun isNameChar (o.rewriter.run o.rest) := by
  have hk := follows_run o.rewriter o.rest
  rw [hf.alike.mode, hm] at hk
  exact hrest.name_of_follows hk

/-- A name that is copied is minded: where it is `delay` and not awaited, the token before keeps the
reader from asking for an `await`. -/
theorem minds_copyWord {rest : List Char} {o : Rewritten} (ho : q.copyWord (c :: w) rest = o)
    (h : InTune q r g ((c :: w) ++ rest)) (hm : q.scanner.mode = .code)
    (hw : isName (c :: w) = true) (hrest : StopsRun isNameChar rest)
    (ih : ∀ r' g', InTune o.rewriter r' g' o.rest → Minds g' r' (o.rewriter.run o.rest)) :
    Minds g r (o.out ++ o.rewriter.run o.rest) := by
  have hmode : r.scanner.mode = .code := h.alike.mode ▸ hm
  have hfate := q.fate_copyWord (c :: w) rest
  rw [ho] at hfate
  rcases q.copyWord_eq (c :: w) rest with ⟨heq, hname⟩ | ⟨heq, hdelay⟩
  · -- the name is awaited
    obtain rfl := ho.symm.trans heq
    have hstop := hfate.stopsRun_run hm hrest
    have hn : r.inNumber = false := h.not_inNumber (Rewriter.isLetter_of_delay hname)
    rw [show "await ".toList = "await".toList ++ [' '] by decide, List.append_assoc,
      List.append_assoc, List.singleton_append]
    refine minds_plain ⟨hmode, fun _ _ => Reader.not_goesOn_of_idle hn⟩ (by decide) (stopsRun_space _)
      (by decide) (by decide) (fun he => absurd he (by decide)) ?_
    refine minds_space hmode (by decide) ?_
    have hin : InTune q { r with inNumber := false, lead := .other } g ((c :: w) ++ rest) :=
      ⟨h.alike, h.below, h.parens, nofun, nofun, h.gist⟩
    exact minds_name (r := { r with inNumber := false, lead := .other })
      ⟨hmode, fun _ _ => Reader.not_goesOn_of_idle rfl⟩ hw hstop (fun _ _ _ _ => by decide)
      fun member => ih _ _ hin.word
  · obtain rfl := ho.symm.trans heq
    have hstop := hfate.stopsRun_run hm hrest
    refine minds_name (h.free hm hw) hw hstop (fun hd hp hs hi => ?_) fun member => ih _ _ h.word
    rw [h.gist]
    have hmode' : (q.afterWord (c :: w)).scanner.mode = .code :=
      (q.afterWord_alike (c :: w)).mode.trans hm
    refine last_ne_other (hdelay hd (peekChar?_run _ _ hmode' hp) (h.below.suspendable hs) ?_)
    simp [Scanner.inInterpolation, h.alike.interpolations, hi]

/-- The head of an entry point is minded. -/
theorem minds_entry {rest before inside after : List Char} {a : Ahead}
    (h : InTune q r g ((c :: w) ++ rest)) (hm : q.scanner.mode = .code)
    (hrest : StopsRun isNameChar rest) (type : String.ofList (c :: w) ∈ returnTypeWords)
    (ahead : peekName? rest = some a) (identifier : isIdentifier a.name = true)
    (blank : ∀ d ∈ before ++ inside, isSpace d = true)
    (ih : ∀ r' g', InTune { q.declare true with previous := some ")" } r' g' after → Minds g' r' k) :
    Minds g r ("async function".toList ++ (a.blank ++ a.name) ++ before ++ '(' :: inside ++ [')']
      ++ k) := by
  have hmode : r.scanner.mode = .code := h.alike.mode ▸ hm
  obtain ⟨-, hb, hname, -⟩ := Rewriter.peekName?_eq_some ahead
  have hne := Rewriter.blank_ne_nil ahead hrest
  have hn : r.inNumber = false := h.not_inNumber (Rewriter.isLetter_of_type type)
  rw [show "async function".toList = "async".toList ++ ' ' :: "function".toList by decide]
  simp only [List.append_assoc, List.cons_append, List.nil_append]
  refine minds_name ⟨hmode, fun _ _ => Reader.not_goesOn_of_idle hn⟩ (by decide) (stopsRun_space _)
    (fun he => absurd he (by decide)) fun member => ?_
  have hword : { r with inNumber := false }.word member "async".toList =
      { r with inNumber := false, lead := if member then .member else .async } := by
    unfold Reader.word
    rw [String.ofList_toList, if_neg (by decide), if_pos rfl]
  rw [hword]
  refine minds_space hmode (by decide) ?_
  refine minds_function
    (r := { r with inNumber := false, lead := if member then .member else .async })
    hmode rfl hne hb hname identifier (stopsRun_parens blank _) ?_
  refine minds_parens (r := { r with
      scanner := { r.scanner with nesting := r.scanner.nesting.declare _ }
      inNumber := false
      lead := .other }) hmode rfl blank (ih _ _ ?_)
  exact ⟨⟨h.alike.mode, h.alike.depth, h.alike.interpolations⟩, h.below.declare fun _ => rfl,
    h.parens, nofun, nofun, rfl⟩

/-- **What a name is turned into is minded** if what is left behind it is. -/
theorem minds_word {rest : List Char} {o : Rewritten} (ho : q.word (c :: w) rest = o)
    (h : InTune q r g ((c :: w) ++ rest)) (hm : q.scanner.mode = .code)
    (hw : isName (c :: w) = true) (hrest : StopsRun isNameChar rest)
    (hclear : q.previous = some "async" → String.ofList (c :: w) ∉ returnTypeWords)
    (ih : ∀ r' g', InTune o.rewriter r' g' o.rest → Minds g' r' (o.rewriter.run o.rest)) :
    Minds g r (o.out ++ o.rewriter.run o.rest) := by
  have hfate := q.fate_word (c :: w) rest
  rw [ho] at hfate
  have hmode : r.scanner.mode = .code := h.alike.mode ▸ hm
  have stops (hcs : StopsRun isNameChar o.rest) : StopsRun isNameChar (o.rewriter.run o.rest) :=
    hfate.stopsRun_run hm hcs
  have idle (hl : isLetter c = true) : r.inNumber = false := h.not_inNumber hl
  by_cases hcopy : q.word (c :: w) rest = q.copyWord (c :: w) rest
  · exact minds_copyWord (hcopy ▸ ho) h hm hw hrest ih
  · cases hfate with
    | copied =>
      refine minds_name (h.free hm hw) hw (stops hrest)
        (fun hd => absurd (Rewriter.word_of_delay hd) hcopy) fun member => ih _ _ h.word
    | awaited name _ => exact absurd (Rewriter.word_of_delay name) hcopy
    | dropped a type ahead =>
      refine ih r g ⟨h.alike, h.below, h.parens, fun hn => ?_, h.lead, h.gist⟩
      rw [idle (Rewriter.isLetter_of_type type)] at hn
      cases hn
    | bound type =>
      have hn := idle (Rewriter.isLetter_of_type type)
      refine minds_plain (w := "let".toList) ⟨hmode, fun _ _ => Reader.not_goesOn_of_idle hn⟩
        (by decide) (stops hrest) (by decide) (by decide) (fun he => absurd he (by decide))
        (ih _ _ ?_)
      exact ⟨h.alike, h.below, h.parens, nofun, nofun, rfl⟩
    | declared a type ahead identifier =>
      obtain ⟨-, hb, hname, hstop⟩ := Rewriter.peekName?_eq_some ahead
      have hne := Rewriter.blank_ne_nil ahead hrest
      rw [List.append_assoc, List.append_assoc]
      refine minds_function hmode (idle (Rewriter.isLetter_of_type type)) hne hb hname identifier
        (stops hstop) (ih _ _ ?_)
      refine ⟨⟨h.alike.mode, h.alike.depth, h.alike.interpolations⟩, h.below.declare fun hl => ?_,
        h.parens, fun hn => ?_, nofun, rfl⟩
      · exact absurd type (hclear (h.lead (by simpa using hl)))
      · rw [show r.inNumber = false from idle (Rewriter.isLetter_of_type type)] at hn
        cases hn
    | entry a type ahead identifier before inside after split blank =>
      exact minds_entry h hm hrest type ahead identifier blank ih

/-! ## What is left of the source -/

/-- Where the pass remembers `async`, that is the last token of the source too. -/
def Follow (p : Option String) (q : Rewriter) : Prop := q.previous = some "async" → p = some "async"

theorem follow_of_previous (hp : p = q.previous) : Follow p q := fun h => hp.trans h

theorem Rewriter.previous_afterWord (q : Rewriter) (w : List Char) :
    (q.afterWord w).previous = some (String.ofList w) := by
  unfold afterWord declare
  dsimp only
  split_ifs <;> rfl

/-- **What is left behind a name is clear** if the name and what comes behind it are. -/
theorem clear_word {rest : List Char} {o : Rewritten} (ho : q.word w rest = o)
    (hm : q.scanner.mode = .code) (hw : isName w = true) (hfollow : Follow p q)
    (hclear : Clear p (⟨.code, w⟩ :: q.scanner.segments rest) = true) :
    ∃ p', Follow p' o.rewriter ∧ Clear p' (q.scanner.segments o.rest) = true := by
  have hfate := q.fate_word w rest
  rw [ho] at hfate
  have hrest := Clear.tail hclear
  rw [lastToken_name hw] at hrest
  have named (hp : o.rewriter.previous = some (String.ofList w)) :
      Follow (some (String.ofList w)) o.rewriter := follow_of_previous hp.symm
  cases hfate with
  | copied => exact ⟨_, named (q.previous_afterWord w), hrest⟩
  | awaited => exact ⟨_, named (q.previous_afterWord w), hrest⟩
  | bound => exact ⟨_, fun hp => absurd (Option.some.inj hp) (by decide), hrest⟩
  | dropped a type ahead =>
    refine ⟨some (String.ofList w), fun hp => absurd type (Clear.name hclear (hfollow hp)), ?_⟩
    · have hblank : ∀ c ∈ rest.takeWhile isHorizontal, isSpace c = true :=
        fun c hc => isSpace_of_isHorizontal (List.mem_takeWhile_imp hc)
      have hsplit := segments_marks hm (fun c hc => isMark_of_isSpace (hblank c hc))
        (rest.dropWhile isHorizontal)
      rw [List.takeWhile_append_dropWhile] at hsplit
      rw [hsplit] at hrest
      have := Clear.append hrest
      rwa [foldl_blanks hblank] at this
  | declared a type ahead identifier =>
    obtain ⟨heq, hb, hname, hstop⟩ := Rewriter.peekName?_eq_some ahead
    rw [heq, segments_ahead hm hb hname hstop] at hrest
    have := Clear.tail (Clear.append hrest)
    rw [foldl_blanks hb, lastToken_name hname] at this
    exact ⟨_, follow_of_previous rfl, this⟩
  | entry a type ahead identifier before inside after split blank =>
    obtain ⟨heq, hb, hname, -⟩ := Rewriter.peekName?_eq_some ahead
    rw [heq, split, segments_ahead hm hb hname (stopsRun_parens blank _),
      segments_parens hm blank] at hrest
    have := Clear.append (Clear.tail (Clear.append hrest))
    rw [List.map_append, List.foldl_append] at this
    exact ⟨some ")", follow_of_previous rfl, this⟩

/-- What is left behind any other segment. -/
theorem clear_other (hname : ¬ Rewriter.AtName q.scanner c) (hfollow : Follow p q)
    (hclear : Clear p (q.scanner.segments (c :: cs)) = true) :
    ∃ p', Follow p' (q.step c cs).rewriter ∧
      Clear p' ((q.scanner.step c cs).scanner.segments (q.scanner.step c cs).rest) = true := by
  rw [segments_cons] at hclear
  refine ⟨_, ?_, Clear.tail hclear⟩
  unfold Rewriter.step lastToken
  dsimp only
  cases hk : (q.scanner.step c cs).kind with
  | code =>
    dsimp only
    rw [Rewriter.not_isName_of_not_atName hname hk]
    simp only [Bool.false_eq_true, if_false, Rewriter.punctuation]
    split_ifs
    · exact hfollow
    all_goals exact follow_of_previous rfl
  | string => exact follow_of_previous rfl
  | template => exact follow_of_previous rfl
  | lineComment => exact hfollow
  | blockComment => exact hfollow

/-- **What the pass writes is minded**, if the source is clear. -/
theorem minds_run (q : Rewriter) (cs : List Char) (r : Reader) (g : Gist) (p : Option String)
    (h : InTune q r g cs) (hfollow : Follow p q)
    (hclear : Clear p (q.scanner.segments cs) = true) : Minds g r (q.run cs) := by
  induction q, cs using Rewriter.run.induct generalizing r g p with
  | case1 q => rw [Rewriter.run_nil]; exact minds_nil g r
  | case2 q c cs ih =>
    rw [Rewriter.run_cons]
    by_cases hname : Rewriter.AtName q.scanner c
    · have hw : isName (c :: cs.takeWhile isNameChar) = true :=
        isName_cons.mpr ⟨hname.2, fun d => List.mem_takeWhile_imp⟩
      have hstop := stopsRun_dropWhile isNameChar cs
      rw [← List.takeWhile_append_dropWhile (p := isNameChar) (l := cs), ← List.cons_append,
        segments_word hname.1 hw hstop] at hclear
      rw [← List.takeWhile_append_dropWhile (p := isNameChar) (l := cs)] at h
      rw [Rewriter.step_of_name hname] at ih ⊢
      obtain ⟨p', hfollow', hclear'⟩ := clear_word rfl hname.1 hw hfollow hclear
      have halike := (q.fate_word (c :: cs.takeWhile isNameChar) (cs.dropWhile isNameChar)).alike
      refine minds_word rfl h hname.1 hw hstop (fun hp => Clear.name hclear (hfollow hp))
        fun r' g' hr' => ih r' g' p' hr' hfollow' ?_
      rw [segments_of_alike halike]
      exact hclear'
    · obtain ⟨hout, hrest, halike⟩ := Rewriter.step_of_other cs hname
      have hk := Rewriter.follows_run (q.step c cs).rewriter (q.step c cs).rest
      rw [halike.mode, hrest] at hk
      obtain ⟨p', hfollow', hclear'⟩ := clear_other hname hfollow hclear
      rw [hout]
      refine h.minds_other hname (hrest ▸ hk) fun r' g' hr' => ih r' g' p' hr' hfollow' ?_
      rw [hrest, segments_of_alike halike]
      exact hclear'

end LedSketch.Dialect
