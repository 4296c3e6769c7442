import LedSketch.Dialect.HostForm
import LedSketch.Proofs.Scan.Segments

/-!
# What one step of the rewriting pass can do

A step takes a segment that is no name as it is. A name of code has six possible fates, the
constructors of `Fate`: it is copied, it is copied behind an `await`, it is dropped together with
the blanks behind it, `let` takes its place, or a declaration that it starts is rewritten, which is
either that of an entry point or another one.

* `step_of_other`: what happens to a segment that is no name.
* `step_of_name`, `fate_word`: what happens to a name of code.
* `follows_run`: the rewriting of a text starts like the text, unless that starts with a letter in
  code; so it may stand where the text stands.
-/

namespace LedSketch.Dialect

open Text Scan Scanner

namespace Rewriter

/-- The scanner is in code and a name comes next. -/
def AtName (s : Scanner) (c : Char) : Prop := s.mode = .code ∧ isNameStart c = true

theorem kind_ne_code_of_mode {s : Scanner} {c : Char} {cs : List Char} (hs : s.mode ≠ .code)
    (h : (s.step c cs).kind = .code) : (s.step c cs).text = ['\n'] := by
  cases hm : s.mode with
  | code => exact absurd hm hs
  | lineComment =>
    rw [step_lineComment hm] at h ⊢
    split_ifs at h ⊢ with hc
    · rw [hc]; rfl
    · cases h
  | blockComment =>
    rw [step_blockComment hm] at h
    split_ifs at h <;> cases h
  | string q =>
    rw [step_string hm] at h
    unfold stepQuoted at h
    split_ifs at h <;> cases h
  | template =>
    rw [step_template hm] at h
    unfold stepQuoted at h
    split_ifs at h <;> cases h

/-- Only where a name comes next in code does the scanner take a name of code. -/
theorem not_isName_of_not_atName {s : Scanner} {c : Char} {cs : List Char} (h : ¬ AtName s c)
    (hk : (s.step c cs).kind = .code) : isName (s.step c cs).text = false := by
  by_cases hs : s.mode = .code
  · have hc : isNameStart c = false := by simpa using fun hc => h ⟨hs, hc⟩
    rw [text_eq_cons]
    simp [isName, hc]
  · rw [kind_ne_code_of_mode hs hk]
    rfl

theorem punctuation_alike (r : Rewriter) (text : List Char) :
    Alike (r.punctuation text).scanner r.scanner := by
  unfold punctuation
  dsimp only
  split_ifs <;> exact ⟨rfl, rfl, rfl⟩

/-- **A segment that is no name is copied.** -/
theorem step_of_other {r : Rewriter} {c : Char} (cs : List Char) (h : ¬ AtName r.scanner c) :
    (r.step c cs).out = (r.scanner.step c cs).text ∧
      (r.step c cs).rest = (r.scanner.step c cs).rest ∧
      Alike (r.step c cs).rewriter.scanner (r.scanner.step c cs).scanner := by
  unfold step
  dsimp only
  split
  · rename_i hk
    rw [not_isName_of_not_atName h hk]
    exact ⟨rfl, rfl, punctuation_alike _ _⟩
  all_goals exact ⟨rfl, rfl, .refl _⟩

/-- **A name of code is taken whole.** -/
theorem step_of_name {r : Rewriter} {c : Char} {cs : List Char} (h : AtName r.scanner c) :
    r.step c cs = r.word (c :: cs.takeWhile isNameChar) (cs.dropWhile isNameChar) := by
  have hw : isName (c :: cs.takeWhile isNameChar) = true :=
    isName_cons.mpr ⟨h.2, fun d => List.mem_takeWhile_imp⟩
  unfold step
  rw [step_name h.1 h.2]
  simp only [takeRun, hw, if_true]

/-! ## The fates of a name -/

/-- What the pass remembers of a name that it copies. -/
def afterWord (r : Rewriter) (w : List Char) : Rewriter :=
  let done := { r with previous := some (String.ofList w) }
  if String.ofList w = "function" then done.declare (r.previous == some "async") else done

theorem afterWord_alike (r : Rewriter) (w : List Char) :
    Alike (r.afterWord w).scanner r.scanner := by
  unfold afterWord
  dsimp only
  split_ifs <;> exact ⟨rfl, rfl, rfl⟩

/-- What may become of the name `w` of code in front of `rest`. -/
inductive Fate (r : Rewriter) (w rest : List Char) : Rewritten → Prop where
  /-- The name is copied. -/
  | copied : Fate r w rest ⟨w, rest, r.afterWord w⟩
  /-- The name is that of the pausing builtin, and it is awaited. -/
  | awaited (name : String.ofList w = "delay")
      (suspendable : r.scanner.nesting.suspendable = true) :
      Fate r w rest ⟨"await ".toList ++ w, rest, r.afterWord w⟩
  /-- The name of a type is dropped, and with it the blanks behind it on the same line. -/
  | dropped (a : Ahead) (type : String.ofList w ∈ returnTypeWords)
      (ahead : peekName? rest = some a) : Fate r w rest ⟨[], rest.dropWhile isHorizontal, r⟩
  /-- The name of a type makes room for a binding word. -/
  | bound (type : String.ofList w ∈ returnTypeWords) :
      Fate r w rest ⟨"let".toList, rest, { r with previous := some "let" }⟩
  /-- A type starts a declaration. -/
  | declared (a : Ahead) (type : String.ofList w ∈ returnTypeWords)
      (ahead : peekName? rest = some a) (identifier : isIdentifier a.name = true) :
      Fate r w rest ⟨"function".toList ++ (a.blank ++ a.name), a.rest,
        { r.declare false with
          paramLevel := some r.parens
          previous := some (String.ofList a.name) }⟩
  /-- A type starts the declaration of an entry point, which has no parameters. -/
  | entry (a : Ahead) (type : String.ofList w ∈ returnTypeWords) (ahead : peekName? rest = some a)
      (identifier : isIdentifier a.name = true) (before inside after : List Char)
      (split : a.rest = before ++ '(' :: (inside ++ ')' :: after))
      (blank : ∀ c ∈ before ++ inside, isSpace c = true)
      (point : String.ofList a.name ∈ entryPoints) :
      Fate r w rest ⟨"async function".toList ++ (a.blank ++ a.name) ++ before ++ '(' :: inside
        ++ [')'], after, { r.declare true with previous := some ")" }⟩

theorem fate_copyWord (r : Rewriter) (w rest : List Char) :
    Fate r w rest (r.copyWord w rest) := by
  unfold copyWord
  dsimp only
  split_ifs with h₁ h₂
  · have : Fate r w rest ⟨w, rest, r.afterWord w⟩ := .copied
    rwa [afterWord, if_pos h₁] at this
  · simp only [Bool.and_eq_true, decide_eq_true_eq] at h₂
    have : Fate r w rest ⟨"await ".toList ++ w, rest, r.afterWord w⟩ :=
      .awaited h₂.1.1.1.1 h₂.1.1.2
    rwa [afterWord, if_neg h₁] at this
  · have : Fate r w rest ⟨w, rest, r.afterWord w⟩ := .copied
    rwa [afterWord, if_neg h₁] at this

theorem peekChar?_eq_some {cs : List Char} {c : Char} (h : peekChar? cs = some c) :
    ∃ before after, cs = before ++ c :: after ∧ ∀ d ∈ before, isSpace d = true := by
  obtain ⟨after, hafter⟩ := List.head?_eq_some_iff.mp h
  refine ⟨cs.takeWhile isSpace, after, ?_, fun d => List.mem_takeWhile_imp⟩
  rw [← hafter, skipSpace, List.takeWhile_append_dropWhile]

/-! ## Looking ahead -/

/-- **A name that comes next** stands behind blanks and is taken whole. -/
theorem peekName?_eq_some {cs : List Char} {a : Ahead} (h : peekName? cs = some a) :
    cs = a.blank ++ (a.name ++ a.rest) ∧ (∀ d ∈ a.blank, isSpace d = true) ∧
      isName a.name = true ∧ StopsRun isNameChar a.rest := by
  unfold peekName? at h
  split at h
  · rename_i c r hr
    split at h
    · rename_i hc
      cases h
      refine ⟨?_, fun d => List.mem_takeWhile_imp, ?_, stopsRun_dropWhile _ r⟩
      · dsimp only
        rw [List.cons_append, List.takeWhile_append_dropWhile, ← hr,
          List.takeWhile_append_dropWhile]
      · exact isName_cons.mpr ⟨hc, fun d => List.mem_takeWhile_imp⟩
    · cases h
  · cases h

/-- There are blanks between a name that was taken whole and the next one. -/
theorem blank_ne_nil {cs : List Char} {a : Ahead} (h : peekName? cs = some a)
    (hcs : StopsRun isNameChar cs) : a.blank ≠ [] := by
  obtain ⟨heq, -, hname, -⟩ := peekName?_eq_some h
  intro hb
  rw [hb, List.nil_append] at heq
  cases hn : a.name with
  | nil => rw [hn] at hname; cases hname
  | cons c w =>
    rw [hn] at heq hname
    have := hcs c (by rw [heq]; rfl)
    rw [isNameChar_of_isNameStart (isName_cons.mp hname).1] at this
    cases this

/-- Behind a dropped type a blank or a name comes next. -/
theorem head?_dropWhile_of_peekName? {cs : List Char} {a : Ahead} (h : peekName? cs = some a) :
    ∃ d, (cs.dropWhile isHorizontal).head? = some d ∧
      (isNameStart d = true ∨ isSpace d = true) := by
  obtain ⟨heq, hb, hname, -⟩ := peekName?_eq_some h
  subst heq
  generalize a.blank = b at hb
  induction b with
  | nil =>
    cases hn : a.name with
    | nil => rw [hn] at hname; cases hname
    | cons c w =>
      rw [hn] at hname
      have hc := (isName_cons.mp hname).1
      have hh : isHorizontal c = false := by
        rcases hhc : isHorizontal c with _ | _
        · rfl
        · simp only [isHorizontal, Bool.or_eq_true, beq_iff_eq] at hhc
          rcases hhc with rfl | rfl <;> revert hc <;> decide
      exact ⟨c, by simp [hh], Or.inl hc⟩
  | cons d b ih =>
    by_cases hh : isHorizontal d = true
    · rw [List.cons_append, List.dropWhile_cons_of_pos hh]
      exact ih fun e he => hb e (List.mem_cons_of_mem d he)
    · exact ⟨d, by simp [hh], Or.inr (hb d List.mem_cons_self)⟩

theorem fate_declaration {r : Rewriter} {w rest : List Char} {a : Ahead}
    (type : String.ofList w ∈ returnTypeWords) (ahead : peekName? rest = some a)
    (identifier : isIdentifier a.name = true) (paren : peekChar? a.rest = some '(') :
    Fate r w rest (r.declaration a) := by
  unfold declaration
  dsimp only
  split
  · rename_i hpoint
    split
    · rename_i after hafter
      obtain ⟨before, behind, hsplit, hbefore⟩ := peekChar?_eq_some paren
      have hstop : StopsRun isSpace ('(' :: behind) := by rintro c ⟨⟩; decide
      have hskip : skipSpace a.rest = '(' :: behind := by
        rw [hsplit, skipSpace, dropWhile_append_of_stopsRun hbefore hstop]
      have htake : a.rest.takeWhile isSpace = before := by
        rw [hsplit, takeWhile_append_of_stopsRun hbefore hstop]
      rw [hskip, List.drop_one, List.tail_cons] at hafter
      rw [hskip, htake, List.drop_one, List.tail_cons]
      refine Fate.entry a type ahead identifier before (behind.takeWhile isSpace) after ?_ ?_
        (List.contains_iff_mem.mp hpoint)
      · rw [← hafter, skipSpace, List.takeWhile_append_dropWhile]
        exact hsplit
      · intro c hc
        rcases List.mem_append.mp hc with hc | hc
        · exact hbefore c hc
        · exact List.mem_takeWhile_imp hc
    · exact Fate.declared a type ahead identifier
  · exact Fate.declared a type ahead identifier

/-- **Every name of code meets one of the fates.** -/
theorem fate_word (r : Rewriter) (w rest : List Char) : Fate r w rest (r.word w rest) := by
  unfold word
  dsimp only
  split
  · rename_i htype
    simp only [Bool.and_eq_true, List.contains_iff_mem] at htype
    split
    · rename_i a ha
      split
      · rename_i hid
        split
        · rename_i hparen
          simp only [Bool.and_eq_true, beq_iff_eq] at hparen
          exact fate_declaration htype.1 ha hid hparen.1
        · split
          · unfold typedBinding
            split
            · exact .dropped a htype.1 ha
            · exact .bound htype.1
          · exact fate_copyWord r w rest
      · split
        · exact .dropped a htype.1 ha
        · exact fate_copyWord r w rest
    · exact fate_copyWord r w rest
  · exact fate_copyWord r w rest

/-! ## What the rewriting of a text starts with -/

theorem run_nil (r : Rewriter) : r.run [] = [] := by rw [run]

theorem run_cons (r : Rewriter) (c : Char) (cs : List Char) :
    r.run (c :: cs) = (r.step c cs).out ++ (r.step c cs).rewriter.run (r.step c cs).rest := by
  rw [run]

/-- The words that may be rewritten start with a letter. -/
theorem isLetter_of_type {c : Char} {w : List Char} (h : String.ofList (c :: w) ∈ returnTypeWords) :
    isLetter c = true := by
  have key : ∀ v ∈ returnTypeWords, (v.toList.head?.all isLetter) = true := by decide
  simpa using key _ h

theorem isLetter_of_delay {c : Char} {w : List Char} (h : String.ofList (c :: w) = "delay") :
    isLetter c = true := by
  have : (c :: w) = "delay".toList := by rw [← h, String.toList_ofList]
  have hd : "delay".toList = 'd' :: "elay".toList := by decide
  rw [hd] at this
  rw [(List.cons.inj this).1]
  decide

/-- A name of code changes nothing that decides how the text is cut. -/
theorem Fate.alike {r : Rewriter} {w rest : List Char} {o : Rewritten} (h : Fate r w rest o) :
    Alike o.rewriter.scanner r.scanner := by
  cases h with
  | copied => exact afterWord_alike r w
  | awaited => exact afterWord_alike r w
  | dropped => exact .refl _
  | bound => exact .refl _
  | declared => exact ⟨rfl, rfl, rfl⟩
  | entry => exact ⟨rfl, rfl, rfl⟩

theorem Fate.follows {r : Rewriter} {c : Char} {w rest : List Char} {o : Rewritten}
    (h : Fate r (c :: w) rest o)
    (hrun : Follows .code o.rest (o.rewriter.run o.rest)) :
    Follows .code ((c :: w) ++ rest) (o.out ++ o.rewriter.run o.rest) := by
  have letter (hc : isLetter c = true) {ds : List Char}
      (hd : ∃ d, ds.head? = some d ∧ (isNameStart d = true ∨ isSpace d = true)) :
      Follows .code ((c :: w) ++ rest) ds := by
    obtain ⟨d, hd, hstart⟩ := hd
    exact Or.inr ⟨rfl, c, d, rfl, hc, hd, hstart⟩
  cases h with
  | copied => exact Or.inl rfl
  | awaited name _ => exact letter (isLetter_of_delay name) ⟨'a', rfl, by decide⟩
  | dropped a type ahead =>
    refine letter (isLetter_of_type type) ?_
    obtain ⟨d, hd, hstart⟩ := head?_dropWhile_of_peekName? ahead
    rcases hrun with hrun | ⟨-, c', d', -, -, hd', hstart'⟩
    · exact ⟨d, by rw [← hd, ← hrun]; rfl, hstart⟩
    · exact ⟨d', hd', hstart'⟩
  | bound type => exact letter (isLetter_of_type type) ⟨'l', rfl, by decide⟩
  | declared a type _ _ => exact letter (isLetter_of_type type) ⟨'f', rfl, by decide⟩
  | entry a type _ _ before inside after _ _ =>
    exact letter (isLetter_of_type type) ⟨'a', rfl, by decide⟩

/-- **The rewriting of a text may stand in its place.** -/
theorem follows_run (r : Rewriter) (cs : List Char) :
    Follows r.scanner.mode cs (r.run cs) := by
  induction r, cs using run.induct with
  | case1 r => exact Or.inl (by rw [run_nil])
  | case2 r c cs ih =>
    rw [run_cons]
    by_cases h : AtName r.scanner c
    · rw [step_of_name h] at ih ⊢
      have hf := fate_word r (c :: cs.takeWhile isNameChar) (cs.dropWhile isNameChar)
      rw [hf.alike.mode, h.1] at ih
      rw [h.1]
      simpa using hf.follows ih
    · rw [(step_of_other cs h).1, text_eq_cons]
      exact Or.inl rfl

end Rewriter
end LedSketch.Dialect
