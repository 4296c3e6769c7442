import LedSketch.Proofs.Dialect.Rewriting

/-!
# What survives the rewriting of a sketch

The pass adds and takes away nothing but spaces, tabs, the names of types and the four words that
it writes in their place. Everything else comes through in order, of the same kind and on the same
line, whatever the source is, and whether or not its comments, strings and templates are closed.

* `lasting`: the segments of a source that the pass may not touch, each with its line.
* `Fate.kept`: no fate of a name touches them.
* `lasting_toHostForm`: a source and its host form have the same lasting segments.
-/

namespace LedSketch.Dialect

open Text Scan Scanner

/-- The words that come and go. -/
def incidentalWords : List String := returnTypeWords ++ ["let", "await", "async", "function"]

/-- Whether a segment is a single space or tab, or a word that comes and goes. -/
def incidental (g : Segment) : Bool :=
  g.kind == .code &&
    (g.text == [' '] || g.text == ['\t'] || incidentalWords.contains (String.ofList g.text))

/-- The segments with the lines they start on; the first starts on line `n`. -/
def numbered (n : Nat) : List Segment → List (Nat × Segment)
  | [] => []
  | g :: gs => (n, g) :: numbered (n + g.text.count '\n') gs

/-- The segments that stay, with their lines. -/
def kept (n : Nat) (gs : List Segment) : List (Nat × Segment) :=
  (numbered n gs).filter fun p => !incidental p.2

/-- The segments of a source that must survive, with their lines. -/
def lasting (source : String) : List (Nat × Segment) := kept 1 (scan source.toList)

/-! ## Segments that come and go -/

theorem count_of_incidental {g : Segment} (h : incidental g = true) : g.text.count '\n' = 0 := by
  have key : ∀ w ∈ incidentalWords, w.toList.count '\n' = 0 := by decide
  simp only [incidental, Bool.and_eq_true, Bool.or_eq_true, beq_iff_eq,
    List.contains_iff_mem] at h
  rcases h with ⟨-, (h | h) | h⟩
  · rw [h]; decide
  · rw [h]; decide
  · simpa using key _ h

theorem incidental_word {w : List Char} (h : String.ofList w ∈ incidentalWords) :
    incidental ⟨.code, w⟩ = true := by
  simp [incidental, h]

theorem incidental_type {w : List Char} (h : String.ofList w ∈ returnTypeWords) :
    incidental ⟨.code, w⟩ = true :=
  incidental_word (List.mem_append_left _ h)

theorem incidental_of_isHorizontal {c : Char} (h : isHorizontal c = true) :
    incidental ⟨.code, [c]⟩ = true := by
  simp only [isHorizontal, Bool.or_eq_true, beq_iff_eq] at h
  rcases h with rfl | rfl <;> decide

theorem kept_cons_of_incidental {g : Segment} (h : incidental g = true) (n : Nat)
    (gs : List Segment) : kept n (g :: gs) = kept n gs := by
  simp [kept, numbered, h, count_of_incidental h]

theorem kept_append_of_incidental {gs : List Segment} (h : ∀ g ∈ gs, incidental g = true) (n : Nat)
    (hs : List Segment) : kept n (gs ++ hs) = kept n hs := by
  induction gs with
  | nil => rfl
  | cons g gs ih =>
    rw [List.cons_append, kept_cons_of_incidental (h g List.mem_cons_self)]
    exact ih fun g' hg' => h g' (List.mem_cons_of_mem g hg')

/-- Lists of segments of which the same stay, wherever they start. -/
def SameKept (gs hs : List Segment) : Prop := ∀ n, kept n gs = kept n hs

theorem SameKept.cons {gs hs : List Segment} (h : SameKept gs hs) (g : Segment) :
    SameKept (g :: gs) (g :: hs) := by
  intro n
  have := h (n + g.text.count '\n')
  simp only [kept] at this
  simp only [kept, numbered, List.filter_cons, this]

theorem SameKept.append {gs hs : List Segment} (h : SameKept gs hs) (fs : List Segment) :
    SameKept (fs ++ gs) (fs ++ hs) := by
  induction fs with
  | nil => exact h
  | cons f fs ih => exact ih.cons f

/-! ## Each fate of a name keeps what stays -/

/-- The segments of a name that was met by looking ahead. -/
theorem segments_ahead {s : Scanner} (hs : s.mode = .code) {blank name ds : List Char}
    (hb : ∀ c ∈ blank, isSpace c = true) (hn : isName name = true)
    (hd : StopsRun isNameChar ds) :
    s.segments (blank ++ (name ++ ds)) =
      blank.map (fun c => ⟨.code, [c]⟩) ++ ⟨.code, name⟩ :: s.segments ds := by
  cases name with
  | nil => cases hn
  | cons c w =>
    obtain ⟨hc, hw⟩ := isName_cons.mp hn
    rw [segments_marks hs fun c hc => isMark_of_isSpace (hb c hc), List.cons_append,
      segments_name hs hc hw hd]

theorem segments_word {s : Scanner} (hs : s.mode = .code) {w ds : List Char}
    (hw : isName w = true) (hd : StopsRun isNameChar ds) :
    s.segments (w ++ ds) = ⟨.code, w⟩ :: s.segments ds :=
  @segments_ahead s hs [] w ds (by simp) hw hd

theorem stopsRun_of_isSpace {cs : List Char} (hcs : cs ≠ []) (h : ∀ c ∈ cs, isSpace c = true)
    (ds : List Char) : StopsRun isNameChar (cs ++ ds) := by
  cases cs with
  | nil => exact absurd rfl hcs
  | cons c cs =>
    rintro d ⟨⟩
    exact isNameChar_of_isSpace (h _ List.mem_cons_self)

/-- The blanks and the empty parentheses of an entry point. -/
theorem segments_parens {s : Scanner} (hs : s.mode = .code) {before inside : List Char}
    (hb : ∀ c ∈ before ++ inside, isSpace c = true) (ds : List Char) :
    s.segments (before ++ '(' :: (inside ++ ')' :: ds)) =
      (before ++ '(' :: inside ++ [')']).map (fun c => ⟨.code, [c]⟩) ++ s.segments ds := by
  have hmarks : ∀ c ∈ before ++ '(' :: inside ++ [')'], IsMark c := by
    intro c hc
    simp only [List.mem_append, List.mem_cons, List.not_mem_nil, or_false] at hc
    rcases hc with (hc | rfl | hc) | rfl
    · exact isMark_of_isSpace (hb c (List.mem_append_left _ hc))
    · exact isMark_openParen
    · exact isMark_of_isSpace (hb c (List.mem_append_right _ hc))
    · exact isMark_closeParen
  rw [← segments_marks hs hmarks]
  simp

theorem stopsRun_parens {before inside : List Char}
    (hb : ∀ c ∈ before ++ inside, isSpace c = true) (ds : List Char) :
    StopsRun isNameChar (before ++ '(' :: ds) := by
  cases before with
  | nil => exact stopsRun_cons (isNameChar_of_isAsciiMark (by decide)) _
  | cons c cs =>
    rintro d ⟨⟩
    exact isNameChar_of_isSpace (hb _ (by simp))

namespace Rewriter

/-- **No fate of a name touches what stays**, if what is left comes through. -/
theorem Fate.kept {r : Rewriter} {w rest k : List Char} {o : Rewritten}
    (h : Fate r w rest o) (hm : r.scanner.mode = .code) (hw : isName w = true)
    (hrest : StopsRun isNameChar rest) (hk : Follows .code o.rest k)
    (ih : SameKept (r.scanner.segments k) (r.scanner.segments o.rest)) :
    SameKept (r.scanner.segments (o.out ++ k)) (r.scanner.segments (w ++ rest)) := by
  have word {v ds : List Char} (hv : isName v = true) (hd : StopsRun isNameChar ds) :=
    segments_word (s := r.scanner) hm hv hd
  rw [word hw hrest]
  cases h with
  | copied =>
    rw [word hw (hrest.name_of_follows hk)]
    exact ih.cons _
  | awaited =>
    rw [List.append_assoc, show "await ".toList = "await".toList ++ [' '] by decide,
      List.append_assoc, List.singleton_append, word (by decide) (stopsRun_space _),
      segments_mark hm (isMark_of_isSpace (by decide)), word hw (hrest.name_of_follows hk)]
    intro n
    rw [kept_cons_of_incidental (by decide), kept_cons_of_incidental (by decide)]
    exact ih.cons _ n
  | dropped a type ahead =>
    have hblank : ∀ c ∈ rest.takeWhile isHorizontal, isHorizontal c = true :=
      fun c => List.mem_takeWhile_imp
    have hmarks : ∀ c ∈ rest.takeWhile isHorizontal, IsMark c := by
      intro c hc
      refine isMark_of_isSpace ?_
      have := hblank c hc
      simp only [isHorizontal, Bool.or_eq_true, beq_iff_eq] at this
      rcases this with rfl | rfl <;> decide
    have hsplit := segments_marks hm hmarks (rest.dropWhile isHorizontal)
    rw [List.takeWhile_append_dropWhile] at hsplit
    intro n
    rw [kept_cons_of_incidental (incidental_type type), List.nil_append, ih n, hsplit,
      kept_append_of_incidental]
    simpa using fun c hc => incidental_of_isHorizontal (hblank c hc)
  | bound type =>
    have hlet : incidental ⟨.code, "let".toList⟩ = true := by decide
    rw [word (v := "let".toList) (by decide) (hrest.name_of_follows hk)]
    intro n
    rw [kept_cons_of_incidental hlet, kept_cons_of_incidental (incidental_type type)]
    exact ih n
  | declared a type ahead identifier =>
    obtain ⟨heq, hb, hname, hstop⟩ := peekName?_eq_some ahead
    have hne := blank_ne_nil ahead hrest
    rw [List.append_assoc, List.append_assoc,
      word (by decide) (stopsRun_of_isSpace hne hb _),
      segments_ahead hm hb hname (hstop.name_of_follows hk), heq, segments_ahead hm hb hname hstop]
    intro n
    rw [kept_cons_of_incidental (by decide), kept_cons_of_incidental (incidental_type type)]
    exact (ih.cons _).append _ n
  | entry a type ahead identifier before inside after split blank =>
    obtain ⟨heq, hb, hname, -⟩ := peekName?_eq_some ahead
    have hne := blank_ne_nil ahead hrest
    rw [show "async function".toList = "async".toList ++ ' ' :: "function".toList by decide]
    simp only [List.append_assoc, List.cons_append, List.nil_append]
    rw [word (by decide) (stopsRun_space _), segments_mark hm (isMark_of_isSpace (by decide)),
      word (by decide) (stopsRun_of_isSpace hne hb _),
      segments_ahead hm hb hname (stopsRun_parens blank _), segments_parens hm blank, heq, split,
      segments_ahead hm hb hname (stopsRun_parens blank _), segments_parens hm blank]
    intro n
    rw [kept_cons_of_incidental (by decide), kept_cons_of_incidental (by decide),
      kept_cons_of_incidental (by decide), kept_cons_of_incidental (incidental_type type)]
    exact ((ih.append _).cons _).append _ n

/-- What stays of a text stays in its rewriting. -/
theorem sameKept_run (r : Rewriter) (cs : List Char) :
    SameKept (r.scanner.segments (r.run cs)) (r.scanner.segments cs) := by
  induction r, cs using run.induct with
  | case1 r => rw [run_nil]; exact fun n => rfl
  | case2 r c cs ih =>
    rw [run_cons]
    by_cases h : AtName r.scanner c
    · rw [step_of_name h] at ih ⊢
      have hf := fate_word r (c :: cs.takeWhile isNameChar) (cs.dropWhile isNameChar)
      generalize r.word (c :: cs.takeWhile isNameChar) (cs.dropWhile isNameChar) = o at ih hf ⊢
      have hk := follows_run o.rewriter o.rest
      rw [hf.alike.mode, h.1] at hk
      rw [segments_of_alike hf.alike, segments_of_alike hf.alike] at ih
      have hw : isName (c :: cs.takeWhile isNameChar) = true :=
        isName_cons.mpr ⟨h.2, fun d => List.mem_takeWhile_imp⟩
      have := hf.kept h.1 hw (stopsRun_dropWhile _ cs) hk ih
      rwa [List.cons_append, List.takeWhile_append_dropWhile] at this
    · obtain ⟨hout, hrest, halike⟩ := step_of_other cs h
      have hk := follows_run (r.step c cs).rewriter (r.step c cs).rest
      rw [halike.mode, hrest] at hk
      rw [hrest, segments_of_alike halike, segments_of_alike halike] at ih
      rw [hout, hrest, segments_of_follows hk, segments_cons]
      exact ih.cons _

end Rewriter

/-- **Everything but blanks, types and the words in their place survives**: of the same kind, in
order and on the same line. -/
theorem lasting_toHostForm (source : String) : lasting (toHostForm source) = lasting source := by
  have := Rewriter.sameKept_run {} source.toList 1
  rwa [lasting, toHostForm, String.toList_ofList]

end LedSketch.Dialect
