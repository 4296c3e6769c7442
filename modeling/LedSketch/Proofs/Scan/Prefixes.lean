import LedSketch.Proofs.Scan.Kinds

/-!
# Nothing is classified anew

When more text is put behind a source, the last segment of the source may grow: a word goes on, an
escape gets its second character. Its kind stays what it was, with one exception, a slash in code
that the new text turns into the mark of a comment. Every segment before the last one stays as it
is, since a step sees no more than the next character.

* `Scanner.Extends`: a step that takes at least what another takes, and calls it the same.
* `Scanner.extends_step`: a step that takes all there is, in front of more text.
* `Scanner.kinds_append`: the kinds of a text from any state.
* `classify_append`: the kinds of a source.
-/

namespace LedSketch.Scan

open Text

namespace Scanner

variable {s : Scanner} {c : Char} {cs ts : List Char}

/-- Whether more text turns the last slash of a text, read as code, into the mark of a comment. -/
def Reopens (s : Scanner) (cs ts : List Char) : Prop :=
  cs.getLast? = some '/' ∧ (s.kinds cs).getLast? = some .code ∧
    (ts.head? = some '/' ∨ ts.head? = some '*')

theorem length_kinds (s : Scanner) (cs : List Char) : (s.kinds cs).length = cs.length := by
  induction s, cs using run.induct with
  | case1 s => rw [kinds_nil]; rfl
  | case2 s c cs =>
    rename_i ih
    rw [kinds_step, List.length_append, List.length_replicate, ih, ← List.length_append,
      text_append_rest]

/-! ## In front of more text -/

/-- **A step goes on**: it calls its text the same, and takes no less. -/
structure Extends (t u : Step) : Prop where
  kind : u.kind = t.kind
  text : t.text <+: u.text

/-- A segment of one character does not depend on what follows. -/
theorem extends_takeOne (s : Scanner) (k : Kind) (c : Char) (cs ds : List Char) :
    Extends (s.takeOne k c cs) (s.takeOne k c ds) := ⟨rfl, List.prefix_rfl⟩

/-- A run up to the end of a text goes on behind it. -/
theorem extends_takeRun {p : Char → Bool} (k : Kind) (h : cs.dropWhile p = []) :
    Extends (s.takeRun k p c cs) (s.takeRun k p c (cs ++ ts)) := by
  have hcs : ∀ d ∈ cs, p d = true := List.dropWhile_eq_nil_iff.mp h
  refine ⟨rfl, ?_⟩
  simp only [takeRun]
  rw [List.takeWhile_append_of_pos hcs, List.takeWhile_eq_self_iff.mpr hcs]
  exact List.prefix_append ..

theorem extends_stepQuoted {k : Kind} {closer : Char} {plain : Char → Bool}
    (h : (s.stepQuoted k closer plain c cs).rest = []) :
    Extends (s.stepQuoted k closer plain c cs) (s.stepQuoted k closer plain c (cs ++ ts)) := by
  unfold stepQuoted at h ⊢
  split_ifs at h ⊢
  · -- an escape at the end may lack its second character
    refine ⟨rfl, (List.prefix_cons_inj _).mpr ?_⟩
    rw [List.take_append]
    exact List.prefix_append ..
  · exact extends_takeOne ..
  · exact extends_takeRun k h
  · exact extends_takeOne ..

/-- A slash at the end of the text is code until a comment goes on with it. -/
theorem extends_slash (hs : s.mode = .code) (h : (s.step '/' cs).rest = [])
    (hopen : cs = [] → ts.head? ≠ some '/' ∧ ts.head? ≠ some '*') :
    Extends (s.step '/' cs) (s.step '/' (cs ++ ts)) := by
  simp only [step_code hs, stepCode_slash] at h ⊢
  cases cs with
  | nil =>
    obtain ⟨hline, hblock⟩ := hopen rfl
    rw [List.nil_append, if_neg hline, if_neg hblock]
    exact extends_takeOne ..
  | cons d ds =>
    rw [List.head?_cons] at h ⊢
    rw [List.cons_append, List.head?_cons]
    split_ifs at h ⊢
    · exact ⟨rfl, List.prefix_rfl⟩
    · exact ⟨rfl, List.prefix_rfl⟩
    · cases h

theorem extends_code (hs : s.mode = .code) (h : (s.step c cs).rest = [])
    (hopen : c = '/' → cs = [] → ts.head? ≠ some '/' ∧ ts.head? ≠ some '*') :
    Extends (s.step c cs) (s.step c (cs ++ ts)) := by
  by_cases hslash : c = '/'
  · subst hslash
    exact extends_slash hs h (hopen rfl)
  simp only [step_code hs] at h ⊢
  by_cases hbrace : c = '{'
  · subst hbrace
    exact extends_takeOne ..
  by_cases hclose : c = '}'
  · subst hclose
    rw [stepCode_closeBrace, stepCode_closeBrace]
    split_ifs
    · exact extends_takeOne ..
    · exact extends_takeOne ..
  by_cases htick : c = '\x60'
  · subst htick
    exact extends_takeOne ..
  simp only [stepCode_of_ne s hslash hbrace hclose htick] at h ⊢
  cases hq : Quote.ofChar? c with
  | some q => exact extends_takeOne ..
  | none =>
    rw [hq] at h
    dsimp only at h ⊢
    split_ifs at h ⊢
    · exact extends_takeRun .code h
    · exact extends_takeRun .code h
    · exact extends_takeOne ..

/-- **A step that takes all there is goes on** in front of more text, unless a comment opens. -/
theorem extends_step (h : (s.step c cs).rest = [])
    (hopen : s.mode = .code → c = '/' → cs = [] → ts.head? ≠ some '/' ∧ ts.head? ≠ some '*') :
    Extends (s.step c cs) (s.step c (cs ++ ts)) := by
  cases hs : s.mode with
  | code => exact extends_code hs h (hopen hs)
  | lineComment =>
    simp only [step_lineComment hs] at h ⊢
    split_ifs at h ⊢
    · exact extends_takeOne ..
    · exact extends_takeRun .lineComment h
  | blockComment =>
    simp only [step_blockComment hs] at h ⊢
    by_cases hc : c = '*'
    · -- the comment may close behind a star at the end
      simp only [if_pos hc] at h ⊢
      cases cs with
      | nil =>
        rw [if_neg (by simp)]
        split_ifs
        · exact ⟨rfl, List.prefix_append ['*'] ['/']⟩
        · exact extends_takeOne ..
      | cons d ds =>
        rw [List.head?_cons] at h ⊢
        rw [List.cons_append, List.head?_cons]
        split_ifs at h ⊢
        · exact ⟨rfl, List.prefix_rfl⟩
        · cases h
    · simp only [if_neg hc] at h ⊢
      exact extends_takeRun .blockComment h
  | string q =>
    simp only [step_string hs] at h ⊢
    exact extends_stepQuoted h
  | template =>
    simp only [step_template hs] at h ⊢
    cases cs with
    | nil =>
      rw [if_neg (by simp)] at h ⊢
      split_ifs with hbrace
      · -- an interpolation may open behind a dollar sign at the end
        obtain ⟨rfl, -⟩ := hbrace
        exact ⟨rfl, List.prefix_append ['$'] ['{']⟩
      · exact extends_stepQuoted h
    | cons d ds =>
      rw [List.head?_cons] at h ⊢
      rw [List.cons_append, List.head?_cons]
      split_ifs at h ⊢
      · exact ⟨rfl, List.prefix_rfl⟩
      · exact extends_stepQuoted h

/-! ## Kinds -/

/-- A step that leaves something behind does not see the new text. -/
theorem kinds_of_rest (h : (s.step c cs).rest ≠ []) (ts : List Char) :
    s.kinds (c :: cs ++ ts) = List.replicate (s.step c cs).text.length (s.step c cs).kind ++
      (s.step c cs).scanner.kinds ((s.step c cs).rest ++ ts) := by
  have hfollows : Follows (s.step c cs).scanner.mode (s.step c cs).rest
      ((s.step c cs).rest ++ ts) := .inl (List.head?_append_of_ne_nil _ h)
  rw [← text_append_rest s c cs, List.append_assoc, kinds, segments_of_follows hfollows,
    List.flatMap_cons, kinds]

theorem kind_stepQuoted (s : Scanner) (k : Kind) (closer : Char) (plain : Char → Bool) (c : Char)
    (cs : List Char) : (s.stepQuoted k closer plain c cs).kind = k := by
  unfold stepQuoted
  split_ifs <;> rfl

/-- A segment of code is one character, or a run of ordinary ones. -/
theorem text_of_code (hs : s.mode = .code) (hkind : (s.step c cs).kind = .code) :
    (s.step c cs).text = [c] ∨ ∀ d ∈ (s.step c cs).text, isOrdinary d = true := by
  by_cases hc : isOrdinary c = true
  · obtain ⟨xs, ds, -, hxs, hstep⟩ := step_ordinary hs hc cs
    rw [hstep]
    exact .inr (List.forall_mem_cons.mpr ⟨hc, hxs⟩)
  left
  rw [step_code hs] at hkind ⊢
  obtain rfl | rfl | rfl | rfl | rfl | rfl :
      c = '/' ∨ c = '{' ∨ c = '}' ∨ c = '\x60' ∨ c = '"' ∨ c = '\'' := by
    grind [isOrdinary]
  · rw [stepCode_slash] at hkind ⊢
    split_ifs at hkind ⊢
    rfl
  · rfl
  · rw [stepCode_closeBrace]
    split_ifs <;> rfl
  · rfl
  · rfl
  · rfl

/-- Only a slash by itself in code is code that ends in a slash. -/
theorem slash_of_kind (hkind : (s.step c cs).kind = .code) (hrest : (s.step c cs).rest = [])
    (hlast : (c :: cs).getLast? = some '/') : s.mode = .code ∧ c = '/' ∧ cs = [] := by
  cases hs : s.mode with
  | code =>
    have htext : (s.step c cs).text = c :: cs := by
      rw [← text_append_rest s c cs, hrest, List.append_nil]
    rcases text_of_code hs hkind with hone | hall
    · obtain rfl : cs = [] := (List.cons.inj (htext.symm.trans hone)).2
      exact ⟨rfl, Option.some.inj hlast, rfl⟩
    · rw [htext] at hall
      exact absurd (hall _ (List.mem_of_getLast? hlast)) (by decide)
  | lineComment =>
    rw [step_lineComment hs] at hkind hrest
    split_ifs at hkind hrest with hc
    · obtain rfl : cs = [] := hrest
      rw [hc] at hlast
      cases hlast
    · cases hkind
  | blockComment =>
    rw [kind_comment hs] at hkind
    cases hkind
  | string q =>
    rw [step_string hs, kind_stepQuoted] at hkind
    cases hkind
  | template =>
    rw [step_template hs] at hkind
    split_ifs at hkind
    rw [kind_stepQuoted] at hkind
    cases hkind

/-- A slash in code that a comment goes on with is no code. -/
theorem kind_slash (hs : s.mode = .code) (ht : ts.head? = some '/' ∨ ts.head? = some '*') :
    (s.step '/' ts).kind ≠ .code := by
  rw [step_code hs, stepCode_slash]
  split_ifs with hline hblock
  · simp
  · simp
  · exact absurd ht (by simp [hline, hblock])

/-- The kinds of a text that is one segment. -/
theorem kinds_of_rest_nil (h : (s.step c cs).rest = []) :
    s.kinds (c :: cs) = List.replicate (c :: cs).length (s.step c cs).kind := by
  have htext : (s.step c cs).text = c :: cs := by
    rw [← text_append_rest s c cs, h, List.append_nil]
  rw [kinds_step, h, kinds_nil, List.append_nil, htext]

/-- The last segment grows, unless its slash is classified anew. -/
theorem kinds_append_last (h : (s.step c cs).rest = []) (ts : List Char) :
    (s.kinds (c :: cs) <+: s.kinds (c :: cs ++ ts) ↔ ¬ s.Reopens (c :: cs) ts) ∧
      (s.kinds (c :: cs)).dropLast <+: s.kinds (c :: cs ++ ts) := by
  have hlast : (s.kinds (c :: cs)).getLast? = some (s.step c cs).kind := by
    rw [kinds_of_rest_nil h, List.getLast?_replicate, List.length_cons, if_neg (Nat.succ_ne_zero _)]
  by_cases hr : s.Reopens (c :: cs) ts
  · obtain ⟨hslash, hkind, ht⟩ := hr
    rw [hlast, Option.some.injEq] at hkind
    have hreopens : s.Reopens (c :: cs) ts := ⟨hslash, hlast.trans (congrArg some hkind), ht⟩
    obtain ⟨hs, rfl, rfl⟩ := slash_of_kind hkind h hslash
    rw [kinds_of_rest_nil h, hkind]
    refine ⟨iff_of_false (fun hprefix => kind_slash hs ht ?_) (not_not_intro hreopens),
      List.nil_prefix⟩
    obtain ⟨ks, hks⟩ := hprefix
    have hhead := head?_kinds s '/' ts
    rw [← List.singleton_append, ← hks] at hhead
    exact (Option.some.inj hhead).symm
  · have hopen : s.mode = .code → c = '/' → cs = [] →
        ts.head? ≠ some '/' ∧ ts.head? ≠ some '*' := by
      rintro hs rfl rfl
      rw [← not_or]
      refine fun ht => hr ⟨rfl, hlast.trans ?_, ht⟩
      rw [step_code hs]
      rfl
    have hgrows := extends_step h hopen
    have hprefix : s.kinds (c :: cs) <+: s.kinds (c :: cs ++ ts) := by
      rw [List.cons_append, kinds_step, h, kinds_nil, List.append_nil, kinds_step, hgrows.kind]
      refine List.IsPrefix.trans ?_ (List.prefix_append ..)
      rw [List.prefix_replicate_iff]
      exact ⟨List.length_replicate ▸ hgrows.text.length_le, by rw [List.length_replicate]⟩
    exact ⟨iff_of_true hprefix hr, (List.dropLast_prefix _).trans hprefix⟩

/-- **The kinds of a text in front of more text** are what they were, unless its last slash is
classified anew, and then all but the last. -/
theorem kinds_append (s : Scanner) (cs ts : List Char) :
    (s.kinds cs <+: s.kinds (cs ++ ts) ↔ ¬ s.Reopens cs ts) ∧
      (s.kinds cs).dropLast <+: s.kinds (cs ++ ts) := by
  induction s, cs using run.induct with
  | case1 s => simp [Reopens]
  | case2 s c cs =>
    rename_i ih
    by_cases hrest : (s.step c cs).rest = []
    · exact kinds_append_last hrest ts
    · -- the new text is out of sight
      have hkinds : (s.step c cs).scanner.kinds (s.step c cs).rest ≠ [] := by
        rw [← List.length_pos_iff, length_kinds, List.length_pos_iff]
        exact hrest
      have hlast : (c :: cs).getLast? = (s.step c cs).rest.getLast? := by
        rw [← text_append_rest s c cs, List.getLast?_append_of_ne_nil _ hrest]
      have hreopens : s.Reopens (c :: cs) ts ↔
          (s.step c cs).scanner.Reopens (s.step c cs).rest ts := by
        rw [Reopens, Reopens, hlast, kinds_step, List.getLast?_append_of_ne_nil _ hkinds]
      rw [hreopens, kinds_of_rest hrest, kinds_step, List.prefix_append_right_inj,
        List.dropLast_append_of_ne_nil hkinds, List.prefix_append_right_inj]
      exact ih

end Scanner

/-- **Nothing is classified anew by what follows**: every character of a source has a kind, and it
keeps that kind in front of more text, except for a slash in code at the end of the source that the
text turns into the mark of a comment; then the other characters keep theirs. -/
theorem classify_append (source more : List Char) :
    (classify source).length = source.length ∧
      (classify source <+: classify (source ++ more) ↔
        ¬ (source.getLast? = some '/' ∧ (classify source).getLast? = some .code ∧
          (more.head? = some '/' ∨ more.head? = some '*'))) ∧
      (classify source).dropLast <+: classify (source ++ more) :=
  ⟨Scanner.length_kinds {} source, Scanner.kinds_append {} source more⟩

end LedSketch.Scan
