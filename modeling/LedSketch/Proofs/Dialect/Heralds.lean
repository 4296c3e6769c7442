import LedSketch.Dialect.EntryPoints
import LedSketch.Proofs.Dialect.Heeding

/-!
# Every async function is announced

The quick check looks for the names of the entry points behind types, the pass for types in front of
such names. In the host form of a sketch without a word `async`, each `async` is one that the pass
has written: `function` and a name stand behind it, with nothing but blanks between them, and the
quick check of the sketch has found that name too.

* `declaredFrom_of_alike`, `declaredFrom_name`, `declaredFrom_spaces`: what the quick check finds,
  segment by segment.
* `Announces`: the declaration of an entry point as the pass writes it.
* `heralds_run`: whatever the pass writes, every `async` of it is such a declaration.
-/

namespace LedSketch.Dialect

open Text Scan Scanner Grammar

variable {N : List String} {s t : Scanner} {p : Option String} {c : Char}
  {cs ds w rest k : List Char} {q : Rewriter} {o : Rewritten}

/-! ## What the quick check finds -/

/-- Scanners that are alike find the same. -/
theorem declaredFrom_of_alike (h : Alike s t) (p : Option String) (cs : List Char) :
    declaredFrom s p cs = declaredFrom t p cs := by
  induction s, cs using Scanner.run.induct generalizing t p with
  | case1 s => rw [declaredFrom, declaredFrom]
  | case2 s c cs _ =>
    rename_i ih
    obtain ⟨hkind, htext, hrest, halike⟩ := step_of_alike h c cs
    have hnext (p : Option String) : declaredFrom (s.step c cs).scanner p (s.step c cs).rest =
        declaredFrom (t.step c cs).scanner p (s.step c cs).rest := ih halike p
    rw [declaredFrom, declaredFrom]
    simp only [← hkind, ← htext, ← hrest, hnext]

/-- What is found behind a segment was found in front of it. -/
theorem declaredFrom_step (s : Scanner) (p : Option String) (c : Char) (cs : List Char) :
    ∃ p', ∀ x ∈ declaredFrom (s.step c cs).scanner p' (s.step c cs).rest,
      x ∈ declaredFrom s p (c :: cs) := by
  rw [declaredFrom]
  dsimp only
  split
  · exact ⟨_, fun _ hx => List.mem_append_right _ hx⟩
  · split
    · exact ⟨p, fun _ hx => hx⟩
    · exact ⟨none, fun _ hx => hx⟩

/-- A name of code: it is found behind a type and in front of a parenthesis, and it is what comes
before the next one. -/
theorem declaredFrom_name (hm : s.mode = .code) (hw : isName w = true)
    (hrest : StopsRun isNameChar rest) (p : Option String) :
    declaredFrom s p (w ++ rest) =
      (if p.any returnTypeWords.contains && entryPoints.contains (String.ofList w)
        && peekChar? rest == some '(' then [String.ofList w] else [])
        ++ declaredFrom s (some (String.ofList w)) rest := by
  cases w with
  | nil => cases hw
  | cons c w =>
    obtain ⟨hc, hall⟩ := isName_cons.mp hw
    rw [List.cons_append, declaredFrom, step_name hm hc]
    simp [takeRun, takeWhile_append_of_stopsRun hall hrest,
      dropWhile_append_of_stopsRun hall hrest, hw]

/-- Blanks change nothing. -/
theorem declaredFrom_spaces {xs : List Char} (hm : s.mode = .code)
    (hx : ∀ c ∈ xs, isSpace c = true) (p : Option String) :
    declaredFrom s p (xs ++ ds) = declaredFrom s p ds := by
  induction xs with
  | nil => rfl
  | cons c xs ih =>
    have hc := hx c List.mem_cons_self
    rw [List.cons_append, declaredFrom, isMark_of_isSpace hc s _ hm]
    simp [takeOne, isName, isNameStart_of_isSpace hc, isBlank, hc,
      ih fun d hd => hx d (List.mem_cons_of_mem c hd)]

/-- A mark ends what comes before a name. -/
theorem declaredFrom_mark (hm : s.mode = .code) (hc : IsMark c) (hn : isNameStart c = false)
    (hs : isSpace c = false) (p : Option String) :
    declaredFrom s p (c :: ds) = declaredFrom s none ds := by
  rw [declaredFrom, hc s ds hm]
  simp [takeOne, isName, hn, isBlank, hs]

/-- The empty parentheses of an entry point. -/
theorem declaredFrom_parens (hm : s.mode = .code) {before inside : List Char}
    (hb : ∀ c ∈ before ++ inside, isSpace c = true) (p : Option String) :
    declaredFrom s p (before ++ '(' :: (inside ++ ')' :: ds)) = declaredFrom s none ds := by
  rw [declaredFrom_spaces hm fun c hc => hb c (List.mem_append_left _ hc),
    declaredFrom_mark hm isMark_openParen (by decide) (by decide),
    declaredFrom_spaces hm fun c hc => hb c (List.mem_append_right _ hc),
    declaredFrom_mark hm isMark_closeParen (by decide) (by decide)]

/-- **What is found behind a name and its fate** was found before. -/
theorem Rewriter.Fate.declaredFrom_rest (h : Fate q w rest o) (hm : q.scanner.mode = .code)
    (p : Option String) :
    ∃ p', ∀ x ∈ declaredFrom q.scanner p' o.rest, x ∈ declaredFrom q.scanner p rest := by
  cases h with
  | copied | awaited | bound => exact ⟨p, fun _ hx => hx⟩
  | dropped a type ahead =>
    refine ⟨p, fun x hx => ?_⟩
    rw [← List.takeWhile_append_dropWhile (p := isHorizontal) (l := rest), declaredFrom_spaces hm]
    · exact hx
    · exact fun c hc => isSpace_of_isHorizontal (List.mem_takeWhile_imp hc)
  | declared a type ahead identifier =>
    obtain ⟨heq, hb, hname, hstop⟩ := Rewriter.peekName?_eq_some ahead
    refine ⟨some (String.ofList a.name), fun x hx => ?_⟩
    rw [heq, declaredFrom_spaces hm hb, declaredFrom_name hm hname hstop]
    exact List.mem_append_right _ hx
  | entry a type ahead identifier before inside after split blank =>
    obtain ⟨heq, hb, hname, hstop⟩ := Rewriter.peekName?_eq_some ahead
    refine ⟨none, fun x hx => ?_⟩
    rw [heq, declaredFrom_spaces hm hb, declaredFrom_name hm hname hstop, split,
      declaredFrom_parens hm blank]
    exact List.mem_append_right _ hx

/-- **The entry points that the pass declares are found.** -/
theorem mem_declaredFrom {a : Ahead} {before after : List Char} (hm : s.mode = .code)
    (type : String.ofList w ∈ returnTypeWords) (ahead : peekName? rest = some a)
    (point : String.ofList a.name ∈ entryPoints) (split : a.rest = before ++ '(' :: after)
    (blank : ∀ c ∈ before, isSpace c = true) :
    String.ofList a.name ∈ declaredFrom s (some (String.ofList w)) rest := by
  obtain ⟨heq, hb, hname, hstop⟩ := Rewriter.peekName?_eq_some ahead
  have hparen : peekChar? a.rest = some '(' := by
    rw [split, peekChar?, skipSpace, List.dropWhile_append_of_pos blank]
    rfl
  rw [heq, declaredFrom_spaces hm hb, declaredFrom_name hm hname hstop, if_pos]
  · exact List.mem_append_left _ List.mem_cons_self
  · simp [type, point, hparen]

/-! ## Announcements -/

/-- **The declaration of an async function**, by a name of `N` and without comments. -/
def Announces (N : List String) (cs : List Char) : Prop :=
  ∃ blank name es, cs = "async function".toList ++ (blank ++ (name ++ es)) ∧
    (∀ c ∈ blank, isSpace c = true) ∧ isName name = true ∧ StopsRun isNameChar es ∧
    String.ofList name ∈ N

/-- Every `async` that is read further on declares an async function. -/
def Reader.Heralds (N : List String) (r : Reader) (cs : List Char) : Prop :=
  ∀ ks r' ds, Along r cs ks r' ds → r'.Meets ds "async".toList → Announces N ds

/-- The same of every reader that is not in the middle of a number and reads like `s`. -/
def Heralded (N : List String) (s : Scanner) (cs : List Char) : Prop :=
  ∀ r : Reader, Alike s r.scanner → r.inNumber = false → r.Heralds N cs

namespace Reader

variable {r : Reader}

theorem heralds_nil (r : Reader) : r.Heralds N [] := by
  intro ks r' ds h hm
  cases h
  obtain ⟨-, -, es, hes, -⟩ := hm
  cases hes

theorem heralds_cons (hm : r.Meets (c :: cs) "async".toList → Announces N (c :: cs))
    (h : (r.step c cs).reader.Heralds N (r.step c cs).rest) : r.Heralds N (c :: cs) := by
  intro ks r' ds ha hmeets
  cases ha with
  | refl => exact hm hmeets
  | step ha => exact h _ _ _ ha hmeets

theorem inNumber_word (r : Reader) (member : Bool) (w : List Char) :
    (r.word member w).inNumber = r.inNumber := by
  unfold word
  split_ifs <;> rfl

theorem inNumber_mark (r : Reader) (w : List Char) : (r.mark w).inNumber = r.inNumber := by
  unfold mark
  dsimp only
  split_ifs <;> rfl

theorem inNumber_take (r : Reader) (t : Step) : (r.take t).reader.inNumber = false := by
  unfold take
  dsimp only
  split
  · dsimp only
    split_ifs
    · rw [inNumber_word]
    · rw [inNumber_mark]
  all_goals rfl

/-- **A name**, which declares an async function if it is `async`. -/
theorem heralds_name (hf : r.Free w) (hw : isName w = true) (hds : StopsRun isNameChar ds)
    (ha : w = "async".toList → Announces N (w ++ ds)) (h : Heralded N r.scanner ds) :
    r.Heralds N (w ++ ds) := by
  cases w with
  | nil => cases hw
  | cons c w =>
    rw [List.cons_append]
    refine heralds_cons (fun hmeets => ha (eq_of_meets hw hds hmeets)) ?_
    rw [step_of_name hf.code hw (hf.number c rfl) hds]
    exact h _ (word_alike { r with inNumber := false } _ _).symm (inNumber_word _ _ _)

end Reader

/-! ## Texts that the pass writes -/

theorem Heralded.of_alike (h : Heralded N s cs) (ha : Alike t s) : Heralded N t cs :=
  fun r hr => h r (ha.symm.trans hr)

theorem heralded_name (hm : s.mode = .code) (hw : isName w = true) (hds : StopsRun isNameChar ds)
    (ha : w = "async".toList → Announces N (w ++ ds)) (h : Heralded N s ds) :
    Heralded N s (w ++ ds) :=
  fun _ hr hn => Reader.heralds_name
    ⟨hr.mode ▸ hm, fun _ _ => Reader.not_goesOn_of_idle hn⟩ hw hds ha (h.of_alike hr.symm)

theorem heralded_mark (hm : s.mode = .code) (hc : IsMark c) (hn : isNumberChar c = false)
    (hd : isDecimalDigit c = false) (hs : isNameStart c = false) (h : Heralded N s ds) :
    Heralded N s (c :: ds) := by
  intro r hr _
  refine Reader.heralds_cons (fun hmeets => absurd hmeets (Reader.not_meets_of_start hs)) ?_
  rw [step_of_not_goesOn (not_goesOn hn) hd, hc r.scanner ds (hr.mode ▸ hm)]
  have halike := Reader.take_alike r (r.scanner.takeOne .code c ds)
  exact h _ (hr.trans halike.symm) (Reader.inNumber_take _ _)

theorem heralded_space (hm : s.mode = .code) (hc : isSpace c = true) (h : Heralded N s ds) :
    Heralded N s (c :: ds) :=
  heralded_mark hm (isMark_of_isSpace hc) (isNumberChar_of_isSpace hc)
    (isDecimalDigit_of_isSpace hc) (isNameStart_of_isSpace hc) h

theorem heralded_spaces {xs : List Char} (hm : s.mode = .code) (hx : ∀ c ∈ xs, isSpace c = true)
    (h : Heralded N s ds) : Heralded N s (xs ++ ds) := by
  induction xs with
  | nil => exact h
  | cons c xs ih =>
    exact heralded_space hm (hx c List.mem_cons_self)
      (ih fun d hd => hx d (List.mem_cons_of_mem c hd))

theorem heralded_parens {before inside : List Char} (hm : s.mode = .code)
    (hb : ∀ c ∈ before ++ inside, isSpace c = true) (h : Heralded N s ds) :
    Heralded N s (before ++ '(' :: (inside ++ ')' :: ds)) := by
  refine heralded_spaces hm (fun c hc => hb c (List.mem_append_left _ hc)) ?_
  refine heralded_mark hm isMark_openParen isNumberChar_openParen (by decide) (by decide) ?_
  refine heralded_spaces hm (fun c hc => hb c (List.mem_append_right _ hc)) ?_
  exact heralded_mark hm isMark_closeParen isNumberChar_closeParen (by decide) (by decide) h

/-! ## Side by side with the pass -/

/-- The reader of what the pass writes reads like the pass, which is in front of `cs`. -/
structure Beside (s : Scanner) (r : Reader) (cs : List Char) : Prop where
  alike : Alike s r.scanner
  number : r.inNumber = true → StopsRun isNumberChar cs

namespace Beside

variable {r : Reader}

theorem not_goesOn (h : Beside s r (c :: cs)) : ¬ r.GoesOn c := by
  rintro ⟨-, hn, hg⟩
  rw [h.number hn c rfl] at hg
  cases hg

theorem heralded (h : ∀ r, Beside s r cs → r.Heralds N k) : Heralded N s k :=
  fun r hr hn => h r ⟨hr, fun hn' => absurd (hn.symm.trans hn') nofun⟩

/-- What starts with a letter does not stand behind a number. -/
theorem idle (h : Beside s r (c :: cs)) (hc : isLetter c = true) : r.inNumber = false := by
  cases hn : r.inNumber with
  | false => rfl
  | true =>
    have := h.number hn c rfl
    simp [isNumberChar, isWordChar_of_isLetter hc] at this

/-- **A number** is read character by character. -/
theorem heralds_number {xs : List Char} (hm : r.scanner.mode = .code) (hn : r.inNumber = true)
    (hx : ∀ c ∈ xs, isNumberChar c = true)
    (h : ∀ r' : Reader, Alike r.scanner r'.scanner → r'.Heralds N k) : r.Heralds N (xs ++ k) := by
  induction xs generalizing r with
  | nil => exact h r (.refl _)
  | cons c xs ih =>
    have hg : r.GoesOn c := ⟨hm, hn, hx c List.mem_cons_self⟩
    refine Reader.heralds_cons (fun hmeets => ?_) ?_
    · obtain ⟨-, -, -, -, -, hnot⟩ := hmeets
      exact absurd hg (hnot c rfl)
    · unfold Reader.step
      rw [if_pos hg]
      exact ih hm hn (fun d hd => hx d (List.mem_cons_of_mem c hd)) h

/-- **A segment that is no name** declares nothing. -/
theorem heralds_other (h : Beside s r (c :: cs)) (hname : ¬ Rewriter.AtName s c)
    (hk : Follows (s.step c cs).scanner.mode (s.step c cs).rest k)
    (ih : ∀ r', Beside (s.step c cs).scanner r' (s.step c cs).rest → r'.Heralds N k) :
    r.Heralds N ((s.step c cs).text ++ k) := by
  have hmeets (ds : List Char) : ¬ r.Meets (c :: ds) "async".toList := by
    intro hmeets
    refine Reader.not_meets_of_start ?_ hmeets
    simpa using fun hs => hname ⟨h.alike.mode.trans hmeets.1, hs⟩
  rw [text_eq_cons, List.cons_append]
  refine Reader.heralds_cons (fun hm => absurd hm (hmeets _)) ?_
  by_cases hdigit : s.mode = .code ∧ isDecimalDigit c = true
  · -- the scanner takes a number at once
    have hmode : r.scanner.mode = .code := h.alike.mode ▸ hdigit.1
    unfold Reader.step
    rw [if_neg h.not_goesOn, if_pos ⟨hmode, hdigit.2⟩]
    rw [step_digit hdigit.1 hdigit.2] at ih ⊢
    refine heralds_number hmode rfl (fun d => List.mem_takeWhile_imp) fun r' hr' => ih r' ?_
    exact ⟨h.alike.trans hr', fun _ => stopsRun_dropWhile _ _⟩
  · have hstep (ds : List Char) : r.step c ds = r.take (r.scanner.step c ds) := by
      unfold Reader.step
      rw [if_neg h.not_goesOn, if_neg (h.alike.mode ▸ hdigit)]
    obtain ⟨-, -, hrest, halike⟩ := step_of_alike h.alike c ((s.step c cs).text.tail ++ k)
    rw [step_of_follows rfl hk] at hrest halike
    rw [hstep, Reader.take_rest, ← hrest]
    exact heralded ih _ (halike.trans (Reader.take_alike _ _).symm) (Reader.inNumber_take _ _)

end Beside

/-- **Every fate of a name** writes declarations of what is found, or no `async`. -/
theorem Rewriter.Fate.heralds {r : Reader} (hf : Fate q (c :: w) rest o)
    (h : Beside q.scanner r ((c :: w) ++ rest)) (hm : q.scanner.mode = .code)
    (hw : isName (c :: w) = true) (hrest : StopsRun isNameChar rest)
    (hasync : (c :: w) ≠ "async".toList)
    (hN : ∀ x ∈ declaredFrom q.scanner (some (String.ofList (c :: w))) rest, x ∈ N)
    (hk : Follows .code o.rest k) (ih : ∀ r', Beside q.scanner r' o.rest → r'.Heralds N k) :
    r.Heralds N (o.out ++ k) := by
  have space {ds : List Char} (h : Heralded N q.scanner ds) : Heralded N q.scanner (' ' :: ds) :=
    heralded_space hm (by decide) h
  have behind := Beside.heralded ih
  have name {v ds : List Char} (hv : isName v = true) (hds : StopsRun isNameChar ds)
      (hne : v ≠ "async".toList) (h : Heralded N q.scanner ds) : Heralded N q.scanner (v ++ ds) :=
    heralded_name hm hv hds (fun he => absurd he hne) h
  have identifies {v : List Char} (hv : isIdentifier v = true) : v ≠ "async".toList := by
    rintro rfl
    revert hv
    decide
  have letter {ds : List Char} (hl : isLetter c = true) (hout : Heralded N q.scanner ds) :
      r.Heralds N ds := hout r h.alike (h.idle hl)
  cases hf with
  | copied =>
    exact Reader.heralds_name ⟨h.alike.mode ▸ hm, by rintro d ⟨⟩; exact h.not_goesOn⟩ hw
      (hrest.name_of_follows hk) (fun he => absurd he hasync) (behind.of_alike h.alike.symm)
  | awaited delay _ =>
    refine letter (isLetter_of_delay delay) ?_
    rw [show "await ".toList = "await".toList ++ [' '] by decide, List.append_assoc,
      List.append_assoc, List.singleton_append]
    exact name (by decide) (stopsRun_space _) (by decide)
      (space (name hw (hrest.name_of_follows hk) hasync behind))
  | dropped a type ahead => exact letter (isLetter_of_type type) behind
  | bound type =>
    exact letter (isLetter_of_type type)
      (name (v := "let".toList) (by decide) (hrest.name_of_follows hk) (by decide) behind)
  | declared a type ahead identifier =>
    obtain ⟨-, hb, hname, hstop⟩ := Rewriter.peekName?_eq_some ahead
    refine letter (isLetter_of_type type) ?_
    rw [List.append_assoc, List.append_assoc]
    refine name (by decide) (stopsRun_of_isSpace (Rewriter.blank_ne_nil ahead hrest) hb _) (by decide) ?_
    exact heralded_spaces hm hb (name hname (hstop.name_of_follows hk) (identifies identifier) behind)
  | entry a type ahead identifier before inside after split blank point =>
    obtain ⟨-, hb, hname, -⟩ := Rewriter.peekName?_eq_some ahead
    have hbefore : ∀ c ∈ before, isSpace c = true := fun c hc => blank c (List.mem_append_left _ hc)
    have hfound := hN _ (mem_declaredFrom hm type ahead point split hbefore)
    refine letter (isLetter_of_type type) ?_
    simp only [List.append_assoc, List.cons_append, List.nil_append]
    have hannounces : Announces N ("async function".toList ++
        (a.blank ++ (a.name ++ (before ++ '(' :: (inside ++ ')' :: k))))) :=
      ⟨a.blank, a.name, _, rfl, hb, hname, stopsRun_parens blank _, hfound⟩
    rw [show "async function".toList = "async".toList ++ ' ' :: "function".toList by decide,
      List.append_assoc] at hannounces ⊢
    refine heralded_name hm (by decide) (stopsRun_space _) (fun _ => hannounces) (space ?_)
    refine name (by decide) (stopsRun_of_isSpace (Rewriter.blank_ne_nil ahead hrest) hb _) (by decide) ?_
    refine heralded_spaces hm hb (name hname (stopsRun_parens blank _) (identifies identifier) ?_)
    exact heralded_parens hm blank behind

/-- **What the pass writes declares only async functions that are found**, if no `async` is there
yet. -/
theorem heralds_run (q : Rewriter) (cs : List Char) (r : Reader) (p : Option String)
    (h : Beside q.scanner r cs) (hasync : ⟨.code, "async".toList⟩ ∉ q.scanner.segments cs)
    (hN : ∀ x ∈ declaredFrom q.scanner p cs, x ∈ N) : r.Heralds N (q.run cs) := by
  induction q, cs using Rewriter.run.induct generalizing r p with
  | case1 q => rw [Rewriter.run_nil]; exact r.heralds_nil
  | case2 q c cs ih =>
    rw [Rewriter.run_cons]
    by_cases hname : Rewriter.AtName q.scanner c
    · have hw : isName (c :: cs.takeWhile isNameChar) = true :=
        isName_cons.mpr ⟨hname.2, fun d => List.mem_takeWhile_imp⟩
      have hstop := stopsRun_dropWhile isNameChar cs
      rw [← List.takeWhile_append_dropWhile (p := isNameChar) (l := cs), ← List.cons_append]
        at h hasync hN
      rw [segments_word hname.1 hw hstop] at hasync
      rw [declaredFrom_name hname.1 hw hstop] at hN
      rw [Rewriter.step_of_name hname] at ih ⊢
      have hf := Rewriter.fate_word q (c :: cs.takeWhile isNameChar) (cs.dropWhile isNameChar)
      generalize q.word (c :: cs.takeWhile isNameChar) (cs.dropWhile isNameChar) = o at ih hf ⊢
      have hk := Rewriter.follows_run o.rewriter o.rest
      rw [hf.alike.mode, hname.1] at hk
      have hfound := fun x hx => hN x (List.mem_append_right _ hx)
      refine hf.heralds h hname.1 hw hstop (fun he => hasync (he ▸ List.mem_cons_self)) hfound hk
        fun r' hr' => ?_
      obtain ⟨p', hp'⟩ := hf.declaredFrom_rest hname.1 _
      obtain ⟨gs, hgs⟩ := hf.segments_rest hname.1
      refine ih r' p' ⟨hf.alike.trans hr'.alike, hr'.number⟩ ?_ fun x hx => ?_
      · rw [segments_of_alike hf.alike]
        intro hmem
        refine hasync (List.mem_cons_of_mem _ ?_)
        rw [hgs]
        exact List.mem_append_right _ hmem
      · rw [declaredFrom_of_alike hf.alike] at hx
        exact hfound x (hp' x hx)
    · obtain ⟨hout, hrest, halike⟩ := Rewriter.step_of_other cs hname
      have hk := Rewriter.follows_run (q.step c cs).rewriter (q.step c cs).rest
      rw [halike.mode, hrest] at hk
      rw [hout]
      obtain ⟨p', hp'⟩ := declaredFrom_step q.scanner p c cs
      rw [hrest] at ih ⊢
      refine h.heralds_other hname hk fun r' hr' =>
        ih r' p' ⟨halike.trans hr'.alike, hr'.number⟩ ?_ fun x hx => ?_
      · rw [segments_of_alike halike]
        intro hmem
        rw [segments_cons] at hasync
        exact hasync (List.mem_cons_of_mem _ hmem)
      · rw [declaredFrom_of_alike halike] at hx
        exact hN x (hp' x hx)

end LedSketch.Dialect
