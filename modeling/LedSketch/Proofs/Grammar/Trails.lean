import LedSketch.Proofs.Dialect.Trail
import LedSketch.Proofs.Grammar.Passes

/-!
# What the lexemes leave to be remembered

Behind most lexemes the last token means nothing for the word that comes next. Blanks and comments
leave what was remembered as it is.

* `Coded`: what the characters of code in a text are like.
* `Along.calm`, `Along.quiet`, `Along.still`: what is remembered behind a text, given its characters.
* `Calm`, `Quiet`: lexemes behind which nothing is remembered, if nothing was before, or whatever was.
* `lexemes_calm`: the lexemes of the plain rules are calm.
* `trail_property`: behind a member name nothing is remembered, unless it spells a bound word.
-/

namespace LedSketch.Dialect

open Text Scan Scanner

variable {g g' : Gist} {r r' : Reader} {c : Char} {cs ds w xs : List Char} {k : Kind}
  {ks : List Kind} {p : Char → Bool} {n : Nat}

/-- **Every character of code** in a text with the kinds `ks` satisfies `p`. -/
def Coded (p : Char → Bool) (cs : List Char) (ks : List Kind) : Prop :=
  ∀ x ∈ cs.zip ks, x.2 = .code → p x.1 = true

theorem coded_nil : Coded p cs [] := by simp [Coded]

theorem coded_cons :
    Coded p (c :: cs) (k :: ks) ↔ (k = .code → p c = true) ∧ Coded p cs ks := by
  simp [Coded]

theorem coded_append : Coded p (xs ++ cs) (List.replicate xs.length k ++ ks) ↔
    (k = .code → ∀ c ∈ xs, p c = true) ∧ Coded p cs ks := by
  induction xs with
  | nil => simp
  | cons x xs ih =>
    rw [List.cons_append, List.length_cons, List.replicate_succ, List.cons_append, coded_cons, ih,
      ← and_assoc]
    refine and_congr_left fun _ => ?_
    simp only [List.forall_mem_cons]
    exact ⟨fun h hk => ⟨h.1 hk, h.2 hk⟩, fun h => ⟨fun hk => (h hk).1, fun hk => (h hk).2⟩⟩

/-- What is no code satisfies anything. -/
theorem Coded.behind (hk : k ≠ .code) (h : Coded p (cs.drop n) ks) :
    Coded p cs (List.replicate n k ++ ks) := by
  induction n generalizing cs with
  | zero => exact h
  | succ n ih =>
    cases cs with
    | nil => simp [Coded]
    | cons c cs =>
      rw [List.replicate_succ, List.cons_append, coded_cons]
      exact ⟨fun hc => absurd hc hk, ih h⟩

/-- Text that is no code satisfies anything. -/
theorem coded_text (hk : k ≠ .code) (n : Nat) : Coded p cs (List.replicate n k) := by
  rw [← List.append_nil (List.replicate n k)]
  exact Coded.behind hk coded_nil

theorem coded_replicate (h : ∀ c ∈ cs.take n, p c = true) :
    Coded p cs (List.replicate n .code) := by
  induction n generalizing cs with
  | zero => exact coded_nil
  | succ n ih =>
    cases cs with
    | nil => simp [Coded]
    | cons c cs =>
      rw [List.take_succ_cons, List.forall_mem_cons] at h
      rw [List.replicate_succ, coded_cons]
      exact ⟨fun _ => h.1, ih h.2⟩

/-! ## What a step leaves to be remembered -/

theorem Gist.behind_code (g : Gist) (text : List Char) :
    g.behind .code text = if isBlank text then g else .of (String.ofList text) := rfl

namespace Reader

theorem text_append_rest (r : Reader) (c : Char) (cs : List Char) :
    (r.step c cs).text ++ (r.step c cs).rest = c :: cs := by
  unfold step
  split_ifs
  · rfl
  · rfl
  · rw [take_text, take_rest]
    exact Scanner.text_append_rest _ _ _

theorem text_eq_cons (r : Reader) (c : Char) (cs : List Char) :
    (r.step c cs).text = c :: (r.step c cs).text.tail := by
  unfold step
  split_ifs
  · rfl
  · rfl
  · rw [take_text]
    exact Scanner.text_eq_cons _ _ _

/-- What is remembered behind a step that reads no part of a number. -/
theorem gist_of_step (hn : ¬ (r.GoesOn c ∨ r.scanner.mode = .code ∧ isDecimalDigit c = true)) :
    r.gist g c cs = g.behind (r.step c cs).kind (r.step c cs).text := by
  unfold gist step
  rw [if_neg hn, if_neg fun h => hn (Or.inl h), if_neg fun h => hn (Or.inr h), take_kind, take_text]

end Reader

/-- A character that no token starts with that means something. -/
def isCalm (c : Char) : Bool := c != '.' && !isNameStart c

theorem isCalm_of_isSpace (h : isSpace c = true) : isCalm c = true := by
  have hdot : c ≠ '.' := ne_of_isSpace h (by decide)
  simp [isCalm, hdot, isNameStart_of_isSpace h]

theorem of_calm (hc : isCalm c = true) (w : List Char) :
    Gist.of (String.ofList (c :: w)) = .other := by
  simp only [isCalm, Bool.and_eq_true, bne_iff_ne, ne_eq, Bool.not_eq_true'] at hc
  have hname (v : String) (hv : isName v.toList = true) : String.ofList (c :: w) ≠ v := by
    rintro rfl
    rw [String.toList_ofList, isName_cons, hc.2] at hv
    cases hv.1
  have hdot : String.ofList (c :: w) ≠ "." := by
    intro h
    have := congrArg String.toList h
    rw [String.toList_ofList] at this
    exact hc.1 (List.cons.inj this).1
  unfold Gist.of
  rw [if_neg (hname _ (by decide)), if_neg hdot, if_neg (hname _ (by decide)),
    if_neg (hname _ (by decide))]

theorem of_name (hw : isName w = true) (hb : String.ofList w ∉ Grammar.boundWords) :
    Gist.of (String.ofList w) = .other := by
  have hne (v : String) (hv : v ∈ Grammar.boundWords) : String.ofList w ≠ v := by
    rintro rfl
    exact hb hv
  have hdot : String.ofList w ≠ "." := by
    rintro h
    rw [← String.toList_ofList (l := w), h] at hw
    exact absurd hw (by decide)
  unfold Gist.of
  rw [if_neg (hne _ (by decide)), if_neg hdot, if_neg (hne _ (by decide)),
    if_neg (hne _ (by decide))]

/-- Where nothing is remembered, calm text changes nothing. -/
theorem gist_calm (h : (r.step c cs).kind = .code → isCalm c = true) :
    r.gist .other c cs = .other := by
  by_cases hn : r.GoesOn c ∨ r.scanner.mode = .code ∧ isDecimalDigit c = true
  · unfold Reader.gist
    rw [if_pos hn]
  · rw [Reader.gist_of_step hn, Reader.text_eq_cons]
    cases hk : (r.step c cs).kind with
    | code =>
      rw [Gist.behind_code]
      split
      · rfl
      · exact of_calm (h hk) _
    | string | template | lineComment | blockComment => rfl

/-- A character that starts a token which means nothing. -/
def Starts (c : Char) (k : Kind) : Prop :=
  k = .string ∨ k = .template ∨ k = .code ∧ isCalm c = true ∧ isSpace c = false

theorem gist_quiet (h : Starts c (r.step c cs).kind) : r.gist g c cs = .other := by
  by_cases hn : r.GoesOn c ∨ r.scanner.mode = .code ∧ isDecimalDigit c = true
  · unfold Reader.gist
    rw [if_pos hn]
  · rw [Reader.gist_of_step hn, Reader.text_eq_cons]
    rcases h with hk | hk | ⟨hk, hcalm, hspace⟩
    · rw [hk]; rfl
    · rw [hk]; rfl
    · have hblank : isBlank (c :: (r.step c cs).text.tail) = false := by simp [isBlank, hspace]
      rw [hk, Gist.behind_code, hblank]
      exact of_calm hcalm _

theorem gist_still (h : (r.step c cs).kind = .code → ∀ d ∈ (r.step c cs).text, isSpace d = true)
    (hk : (r.step c cs).kind ≠ .string ∧ (r.step c cs).kind ≠ .template) :
    r.gist g c cs = g := by
  have hspace (hcode : (r.step c cs).kind = .code) : isSpace c = true :=
    h hcode c (by rw [Reader.text_eq_cons]; exact List.mem_cons_self)
  have hn : ¬ (r.GoesOn c ∨ r.scanner.mode = .code ∧ isDecimalDigit c = true) := by
    rintro (hg | ⟨hm, hd⟩)
    · have := hspace (by unfold Reader.step; rw [if_pos hg])
      exact Grammar.not_goesOn (Grammar.isNumberChar_of_isSpace this) hg
    · by_cases hg : r.GoesOn c
      · have := hspace (by unfold Reader.step; rw [if_pos hg])
        exact Grammar.not_goesOn (Grammar.isNumberChar_of_isSpace this) hg
      · have := hspace (by unfold Reader.step; rw [if_neg hg, if_pos ⟨hm, hd⟩])
        rw [isDecimalDigit_of_isSpace this] at hd
        cases hd
  rw [Reader.gist_of_step hn]
  cases hcode : (r.step c cs).kind with
  | code =>
    have hblank : isBlank (r.step c cs).text = true := by
      simp only [isBlank, Bool.and_eq_true, List.all_eq_true]
      refine ⟨?_, h hcode⟩
      rw [Reader.text_eq_cons]
      rfl
    rw [Gist.behind_code, hblank]
    rfl
  | string => exact absurd hcode hk.1
  | template => exact absurd hcode hk.2
  | lineComment | blockComment => rfl

/-! ## What a text leaves to be remembered -/

theorem coded_step (h : Coded p (c :: cs)
      (List.replicate (r.step c cs).text.length (r.step c cs).kind ++ ks)) :
    ((r.step c cs).kind = .code → ∀ d ∈ (r.step c cs).text, p d = true) ∧
      Coded p (r.step c cs).rest ks := by
  rwa [← r.text_append_rest c cs, coded_append] at h

/-- **Calm text** leaves nothing to be remembered if nothing was before. -/
theorem Along.calm (h : Along r cs ks r' ds) (hc : Coded isCalm cs ks) :
    Trail .other r cs ks .other r' ds := by
  induction h with
  | refl => exact .refl _ _ _
  | @step r r' c cs ds ks _ ih =>
    obtain ⟨htext, hrest⟩ := coded_step hc
    refine .step ?_
    rw [gist_calm fun hk => htext hk c (by rw [Reader.text_eq_cons]; exact List.mem_cons_self)]
    exact ih hrest

/-- **Calm text that starts with a token** leaves nothing to be remembered. -/
theorem Along.quiet (h : Along r (c :: cs) (k :: ks) r' ds)
    (hc : Coded isCalm (c :: cs) (k :: ks)) (hs : Starts c k) (g : Gist) :
    Trail g r (c :: cs) (k :: ks) .other r' ds := by
  generalize hls : k :: ks = ls at h hc ⊢
  cases h with
  | refl => cases hls
  | @step _ _ _ _ _ ls h =>
    have hk : (r.step c cs).kind = k := by
      rw [r.text_eq_cons, List.length_cons, List.replicate_succ] at hls
      exact (List.cons.inj hls).1.symm
    refine .step ?_
    rw [gist_quiet (hk ▸ hs)]
    exact h.calm (coded_step hc).2

/-- **Blanks and comments** leave what is remembered as it is. -/
theorem Along.still (h : Along r cs ks r' ds) (hc : Coded isSpace cs ks)
    (hk : Kind.string ∉ ks ∧ Kind.template ∉ ks) (g : Gist) : Trail g r cs ks g r' ds := by
  induction h with
  | refl => exact .refl _ _ _
  | @step r r' c cs ds ks _ ih =>
    obtain ⟨htext, hrest⟩ := coded_step hc
    have hmem (k : Kind) (hk : k ∉ List.replicate (r.step c cs).text.length (r.step c cs).kind ++ ks) :
        (r.step c cs).kind ≠ k ∧ k ∉ ks := by
      rw [List.mem_append, not_or, r.text_eq_cons, List.length_cons, List.replicate_succ,
        List.mem_cons, not_or] at hk
      exact ⟨fun h => hk.1.1 h.symm, hk.2⟩
    refine .step ?_
    rw [gist_still htext ⟨(hmem _ hk.1).1, (hmem _ hk.2).1⟩]
    exact ih hrest ⟨(hmem _ hk.1).2, (hmem _ hk.2).2⟩

theorem Trail.eq_of_nil (h : Trail g r cs [] g' r' ds) : g' = g ∧ r' = r := by
  generalize hks : ([] : List Kind) = ks at h
  cases h with
  | refl => exact ⟨rfl, rfl⟩
  | @step _ _ _ _ c cs _ _ h =>
    rw [Reader.text_eq_cons] at hks
    cases hks

/-- The first step of a trail. -/
theorem Trail.uncons (h : Trail g r (c :: cs) ks g' r' ds) (hne : ks ≠ []) :
    ∃ ls, ks = List.replicate (r.step c cs).text.length (r.step c cs).kind ++ ls ∧
      Trail (r.gist g c cs) (r.step c cs).reader (r.step c cs).rest ls g' r' ds := by
  cases h with
  | refl => exact absurd rfl hne
  | step h => exact ⟨_, rfl, h⟩

/-- In the middle of a number nothing is remembered. -/
theorem Trail.number (h : Trail g r cs ks g' r' ds) (hn : r'.inNumber = true) :
    g' = .other ∨ ks = [] ∧ g' = g := by
  have hstep (r : Reader) (g : Gist) (c : Char) (cs : List Char)
      (hn : (r.step c cs).reader.inNumber = true) : r.gist g c cs = .other := by
    unfold Reader.gist
    rw [if_pos]
    by_contra hnot
    unfold Reader.step at hn
    rw [if_neg fun h => hnot (Or.inl h), if_neg fun h => hnot (Or.inr h)] at hn
    have hidle (q : Reader) (w : List Char) (m : Bool) (hq : q.inNumber = false) :
        (q.word m w).inNumber = false ∧ (q.mark w).inNumber = false := by
      unfold Reader.word Reader.mark
      dsimp only
      constructor <;> split_ifs <;> exact hq
    unfold Reader.take at hn
    dsimp only at hn
    split at hn
    · dsimp only at hn
      split_ifs at hn
      · rw [(hidle _ _ _ rfl).1] at hn
        cases hn
      · rw [(hidle _ _ true rfl).2] at hn
        cases hn
    all_goals cases hn
  induction h with
  | refl => exact Or.inr ⟨rfl, rfl⟩
  | @step g g' r r' c cs ds ks h ih =>
    rcases ih hn with hother | ⟨rfl, rfl⟩
    · exact Or.inl hother
    · obtain ⟨-, rfl⟩ := h.eq_of_nil
      exact Or.inl (hstep r g c cs hn)

/-! ## Names -/

theorem isNameChar_of_isName (hw : isName w = true) : ∀ c ∈ w, isNameChar c = true := by
  cases w with
  | nil => cases hw
  | cons c w =>
    obtain ⟨hc, hall⟩ := isName_cons.mp hw
    exact List.forall_mem_cons.mpr ⟨isNameChar_of_isNameStart hc, hall⟩

/-- The characters that a step and what comes behind it take. -/
theorem take_step (r : Reader) (c : Char) (cs : List Char) (ks : List Kind) :
    (c :: cs).take (List.replicate (r.step c cs).text.length (r.step c cs).kind ++ ks).length =
      (r.step c cs).text ++ (r.step c cs).rest.take ks.length := by
  rw [← r.text_append_rest c cs, List.length_append, List.length_replicate, List.take_append,
    List.take_of_length_le (Nat.le_add_right _ _), Nat.add_sub_cancel_left]

/-- Behind a name that is read whole, and nothing else, what it means is remembered. -/
theorem Trail.name (h : Trail g r (w ++ ds) ks g' r' xs) (hne : ks ≠ [])
    (hx : ∀ c ∈ (w ++ ds).take ks.length, isNameChar c = true) (hm : r.scanner.mode = .code)
    (hw : isName w = true) (hg : ∀ c ∈ w.head?, ¬ r.GoesOn c) (hds : StopsRun isNameChar ds) :
    g' = .of (String.ofList w) := by
  cases w with
  | nil => cases hw
  | cons c w =>
    have hgist := gist_name (g := g) hm hw (hg c rfl) hds
    have hstep := Reader.step_of_name hm hw (hg c rfl) hds
    rw [List.cons_append] at h hx
    obtain ⟨ls, rfl, h'⟩ := h.uncons hne
    rw [take_step, hstep] at hx
    rw [hgist, hstep] at h'
    cases ls with
    | nil => exact h'.eq_of_nil.1
    | cons k ls =>
      cases ds with
      | nil =>
        have := h'.along.kinds
        rw [kinds_nil] at this
        cases this
      | cons d ds =>
        have := hx d (List.mem_append_right _ (by simp))
        rw [hds d rfl] at this
        cases this

/-- A name that goes on a number leaves nothing to be remembered. -/
theorem Trail.nameChars (h : Trail g r cs ks g' r' ds) (hg : g = .other)
    (hm : r.scanner.mode = .code) (hn : r.inNumber = true)
    (hx : ∀ c ∈ cs.take ks.length, isNameChar c = true) : g' = .other := by
  induction h with
  | refl => exact hg
  | @step g g' r r' c cs ds ks h ih =>
    have hc : isNameChar c = true := by
      rw [take_step] at hx
      exact hx c (List.mem_append_left _ (by rw [r.text_eq_cons]; exact List.mem_cons_self))
    by_cases hgo : r.GoesOn c
    · have hstep : r.step c cs = ⟨.code, [c], cs, { r with lead := .other }⟩ := by
        unfold Reader.step
        rw [if_pos hgo]
      have hgist : r.gist g c cs = .other := by
        unfold Reader.gist
        rw [if_pos (Or.inl hgo)]
      rw [take_step, hstep] at hx
      rw [hstep] at ih
      exact ih hgist hm hn fun d hd => hx d (List.mem_append_right _ hd)
    · -- a dollar sign ends what is taken for the number, and starts a name
      obtain rfl : c = '$' := by
        have hnumber : isNumberChar c = false := by simpa using fun hnum => hgo ⟨hm, hn, hnum⟩
        simp only [isNameChar, isNumberChar, Bool.or_eq_true, beq_iff_eq, Bool.or_eq_false_iff]
          at hc hnumber
        exact hc.resolve_left (by simp [hnumber.1])
      have hw : isName ('$' :: cs.takeWhile isNameChar) = true :=
        isName_cons.mpr ⟨by decide, fun d => List.mem_takeWhile_imp⟩
      have hb : String.ofList ('$' :: cs.takeWhile isNameChar) ∉ Grammar.boundWords := by
        intro hb
        have key : ∀ v ∈ Grammar.boundWords, v.toList.head? ≠ some '$' := by decide
        exact key _ hb (by simp)
      have hsplit : '$' :: cs = '$' :: cs.takeWhile isNameChar ++ cs.dropWhile isNameChar := by
        rw [List.cons_append, List.takeWhile_append_dropWhile]
      have hwhole := Trail.step h
      rw [hsplit] at hwhole
      rw [hsplit] at hx
      have hne : List.replicate (r.step '$' cs).text.length (r.step '$' cs).kind ++ ks ≠ [] := by
        rw [r.text_eq_cons, List.length_cons, List.replicate_succ]
        exact List.cons_ne_nil _ _
      rw [hwhole.name hne hx hm hw (by rintro d ⟨⟩; exact hgo) (stopsRun_dropWhile _ cs),
        of_name hw hb]

end LedSketch.Dialect

namespace LedSketch.Grammar

open Text Scan Scanner Dialect

variable {F : Frame} {ok : Option Bool → Prop} {r : Reader} {c : Char} {cs ds w : List Char}
  {n : Nat} {m : Lexeme}

/-! ## Lexemes -/

/-- A lexeme that is read as code, and leaves nothing to be remembered if nothing was before. -/
def Calm (ok : Option Bool → Prop) (m : Lexeme) : Prop :=
  ∀ F cs n, m cs = some n → ∀ r, At F ok r cs →
    ∃ r', Trail .other r cs (List.replicate n .code) .other r' (cs.drop n) ∧ At F ok r' (cs.drop n)

/-- A lexeme that is read as code, and leaves nothing to be remembered whatever was before. -/
def Quiet (ok : Option Bool → Prop) (m : Lexeme) : Prop :=
  ∀ F cs n, m cs = some n → ∀ g r, At F ok r cs →
    ∃ r', Trail g r cs (List.replicate n .code) .other r' (cs.drop n) ∧ At F ok r' (cs.drop n)

theorem Quiet.calm (h : Quiet ok m) : Calm ok m := fun F cs n hn r hr => h F cs n hn .other r hr

theorem calm_of_plain (hm : Plain ok m)
    (hc : ∀ cs n, m cs = some n → ∀ c ∈ cs.take n, isCalm c = true) : Calm ok m := by
  intro F cs n hn r hr
  obtain ⟨r', h', hr'⟩ := hm F cs n hn r hr
  exact ⟨r', h'.calm (coded_replicate (hc cs n hn)), hr'⟩

theorem calm_firstOf {ms : List Lexeme} (h : ∀ m ∈ ms, Calm ok m) : Calm ok (.firstOf ms) := by
  intro F cs n hn
  obtain ⟨m, hm, hmn⟩ := List.exists_of_findSome?_eq_some hn
  exact h m hm F cs n hmn

theorem quiet_firstOf {ms : List Lexeme} (h : ∀ m ∈ ms, Quiet ok m) : Quiet ok (.firstOf ms) := by
  intro F cs n hn
  obtain ⟨m, hm, hmn⟩ := List.exists_of_findSome?_eq_some hn
  exact h m hm F cs n hmn

theorem take_literal {s : String} (h : Lexeme.literal s cs = some n) : cs.take n = s.toList := by
  obtain ⟨hcs, rfl⟩ := literal_eq_some h
  rw [hcs, List.take_left]

theorem starts_of_mem (hc : c ∈ plainMarks) : isCalm c = true ∧ isSpace c = false := by
  have key : plainMarks.all (fun c => isCalm c && !isSpace c) = true := by decide
  simpa using List.all_eq_true.mp key c hc

theorem calm_of_marks (hs : marks w = true) : ∀ c ∈ w, isCalm c = true := by
  intro c hc
  refine (starts_of_mem ?_).1
  simpa using List.all_eq_true.mp hs c hc

theorem calm_literal {s : String} (hs : marks s.toList = true) : Calm ok (.literal s) :=
  calm_of_plain (plain_literal hs) fun cs n hn => by
    rw [take_literal hn]
    exact calm_of_marks hs

theorem calm_notBefore {stop s : String} (hm : Plain ok (.notBefore stop s))
    (hs : ∀ c ∈ s.toList, isCalm c = true) : Calm ok (.notBefore stop s) :=
  calm_of_plain hm fun cs n hn => by
    rw [take_literal (notBefore_eq_some hn).1]
    exact hs

/-- A mark that is not empty starts with a token. -/
theorem quiet_literal {s : String} (hs : marks s.toList = true) (hne : s.toList ≠ []) :
    Quiet ok (.literal s) := by
  intro F cs n hn g r hr
  obtain ⟨r', h', hr'⟩ := plain_literal hs F cs n hn r hr
  refine ⟨r', ?_, hr'⟩
  obtain ⟨hcs, rfl⟩ := literal_eq_some hn
  have hcalm : Coded isCalm cs (List.replicate s.toList.length .code) := coded_replicate (by
    rw [take_literal hn]
    exact calm_of_marks hs)
  generalize cs.drop s.toList.length = ds at hcs h'
  generalize s.toList = w at hcs hs hne h' hcalm
  cases w with
  | nil => exact absurd rfl hne
  | cons c w =>
    subst hcs
    have hmem : c ∈ plainMarks := by simpa using List.all_eq_true.mp hs c List.mem_cons_self
    rw [List.length_cons, List.replicate_succ] at h' hcalm ⊢
    exact h'.quiet hcalm (Or.inr (Or.inr ⟨rfl, starts_of_mem hmem⟩)) g

/-- **A name** leaves what it means. -/
theorem trail_name (h : At F ok r (w ++ ds)) (hw : isName w = true) (hds : StopsRun isNameChar ds)
    (hf : String.ofList w ≠ "function") (ha : String.ofList w ≠ "async") (g : Gist) :
    ∃ r', Trail g r (w ++ ds) (List.replicate w.length .code) (.of (String.ofList w)) r' ds ∧
      Inside .code F ok r' := by
  cases w with
  | nil => cases hw
  | cons c w =>
    have hg : ¬ r.GoesOn c := not_goesOn_of_isNameStart h.between (isName_cons.mp hw).1
    have htrail := Trail.single (g := g) (Reader.step_of_name h.code hw hg hds)
    rw [gist_name h.code hw hg hds] at htrail
    exact ⟨_, htrail, h.toOpen.word h.code hf fun he => absurd he ha⟩

theorem quiet_name (h : At F ok r (w ++ ds)) (hw : isName w = true) (hds : StopsRun isNameChar ds)
    (hb : String.ofList w ∉ boundWords) (g : Gist) :
    ∃ r', Trail g r (w ++ ds) (List.replicate w.length .code) .other r' ds ∧
      Inside .code F ok r' := by
  have htrail := trail_name h hw hds (fun hf => hb (by simp [hf, boundWords]))
    (fun ha => hb (by simp [ha, boundWords])) g
  rwa [of_name hw hb] at htrail

theorem quiet_word {s : String} (hs : isName s.toList = true) (hb : s ∉ boundWords) :
    Quiet ok (.word s) := by
  intro F cs n h g r hr
  obtain ⟨hlit, hstop⟩ := word_eq_some h
  obtain ⟨hcs, rfl⟩ := literal_eq_some hlit
  rw [hcs] at hr
  obtain ⟨r', h', hr'⟩ := quiet_name hr hs hstop (by rwa [String.ofList_toList]) g
  rw [← hcs] at h'
  exact ⟨r', h', hr'.at _⟩

theorem quiet_identifier : Quiet ok identifier? := by
  intro F cs n h g r hr
  unfold identifier? at h
  split at h
  · rename_i k hk
    split_ifs at h with hres
    cases h
    obtain ⟨hw, hstop, hlen⟩ := property?_eq_some hk
    have hb : String.ofList (cs.take n) ∉ boundWords := by
      intro hb
      have key : ∀ v ∈ boundWords, v ∈ reservedWords := by decide
      exact hres (by simpa using key _ hb)
    rw [← List.take_append_drop n cs] at hr
    obtain ⟨r', h', hr'⟩ := quiet_name hr hw hstop hb g
    rw [List.take_append_drop, hlen] at h'
    exact ⟨r', h', hr'.at _⟩
  · cases h

/-- A numeral takes something. -/
theorem numeral?_pos (h : numeral? cs = some n) : n ≠ 0 := by
  have hmarked {k : Nat} (hk : markedNumeral? cs = some k) : k ≠ 0 := by
    obtain ⟨m, ds, p, -, rfl, -⟩ := markedNumeral?_eq_some hk
    omega
  have hdecimal {k : Nat} {whole : Option Nat} (hk : decimalNumeral? cs = some (k, whole)) :
      k ≠ 0 ∧ whole ≠ some 0 := by
    unfold decimalNumeral? at hk
    dsimp only at hk
    split_ifs at hk with hw
    · split at hk
      · split_ifs at hk
        cases hk
        exact ⟨by omega, nofun⟩
      · cases hk
    · split at hk
      · cases hk
        exact ⟨by omega, by simpa using hw⟩
      · cases hk
        exact ⟨by omega, nofun⟩
  unfold numeral? at h
  dsimp only at h
  split at h
  · rename_i k hk
    cases h
    exact hmarked (Option.filter_eq_some_iff.mp hk).1
  · split at h
    · rename_i k whole hk
      split_ifs at h
      · cases h
        exact (hdecimal hk).1
      · rintro rfl
        exact (hdecimal hk).2 h
    · cases h

theorem quiet_numeral : Quiet ok numeral? := by
  intro F cs n h g r hr
  obtain ⟨r', h', hr', hstop⟩ := along_numeral hr h
  obtain ⟨g', htrail⟩ := h'.trail g
  rcases htrail.number hr'.number with rfl | ⟨hks, -⟩
  · exact ⟨r', htrail, hr'.toOpen, Or.inl hr'.mode, fun _ => hstop⟩
  · exact absurd (List.replicate_eq_nil_iff _ |>.mp hks) (numeral?_pos h)

/-- The blanks that a run counts are calm. -/
theorem calm_runLength {p : Char → Bool} (hp : ∀ c, p c = true → isSpace c = true)
    (cs : List Char) : ∀ c ∈ cs.take (runLength p cs), isCalm c = true := by
  intro c hc
  rw [take_runLength] at hc
  exact isCalm_of_isSpace (hp c (List.mem_takeWhile_imp hc))

theorem calm_indented (hm : Calm ok m) : Calm ok (.indented m) := by
  intro F cs n h r hr
  obtain ⟨k, hk, rfl⟩ := Option.map_eq_some_iff.mp h
  obtain ⟨r₁, h₁, hr₁⟩ := along_runLength (fun _ => isSpace_of_isHorizontal) hr
  obtain ⟨r₂, h₂, hr₂⟩ := hm F _ k hk r₁ hr₁
  have hblanks := h₁.calm (coded_replicate (calm_runLength (fun _ => isSpace_of_isHorizontal) cs))
  rw [List.drop_drop] at h₂ hr₂
  exact ⟨r₂, by simpa only [List.replicate_append_replicate] using hblanks.trans h₂, hr₂⟩

/-- **The lexemes of the plain rules are calm.** -/
theorem lexemes_calm (hok : ok none) : Lexemes (Calm ok) where
  literal := calm_literal
  notBefore hs := calm_notBefore (plain_notBefore hs) (calm_of_marks hs)
  semicolon := calm_of_plain (plain_semicolon hok) fun cs n hn => by
    rw [take_literal hn]
    exact List.all_eq_true.mp (by decide)
  divide := calm_notBefore plain_divide (List.all_eq_true.mp (by decide))
  divideAssign := calm_notBefore plain_divideAssign (List.all_eq_true.mp (by decide))
  word hs hb := (quiet_word hs hb).calm
  firstOf := calm_firstOf
  indented := calm_indented
  sameLine := calm_of_plain plain_sameLine fun cs n hn => by
    unfold sameLine? at hn
    dsimp only at hn
    split_ifs at hn
    cases hn
    exact calm_runLength (fun _ => isSpace_of_isHorizontal) cs
  trailingComma := calm_of_plain plain_trailingComma fun cs n hn => by
    unfold trailingComma? at hn
    dsimp only at hn
    split_ifs at hn with hcomma
    cases hn
    intro c hc
    rw [List.take_add_one, List.mem_append] at hc
    rcases hc with hc | hc
    · exact calm_runLength (fun _ => isSpace_of_isWhiteSpace) cs c hc
    · cases hd : cs.drop (runLength isWhiteSpace cs) with
      | nil =>
        rw [hd] at hcomma
        cases hcomma
      | cons d ds =>
        rw [hd] at hcomma
        obtain rfl : d = ',' := by simpa [startsWith] using hcomma
        rw [← List.head?_drop, hd] at hc
        obtain rfl : c = ',' := by simpa using hc
        decide
  numeral := quiet_numeral.calm
  identifier := quiet_identifier.calm

/-! ## Blanks and comments -/

theorem coded_gapKinds (cs : List Char) : Coded isSpace cs (gapKinds cs) := by
  fun_induction gapKinds cs with
  | case1 => exact coded_nil
  | case2 cs n ih =>
    rw [Nat.add_comm, List.replicate_succ, List.replicate_succ, List.cons_append, List.cons_append,
      coded_cons, coded_cons]
    exact ⟨by rintro ⟨⟩, by rintro ⟨⟩, ih.behind (by rintro ⟨⟩)⟩
  | case3 cs n hn ih =>
    rw [Nat.add_comm, List.replicate_succ, List.replicate_succ, List.cons_append, List.cons_append,
      coded_cons, coded_cons]
    exact ⟨by rintro ⟨⟩, by rintro ⟨⟩, ih.behind (by rintro ⟨⟩)⟩
  | case4 => exact coded_nil
  | case5 c cs h₁ h₂ hc ih => exact coded_cons.mpr ⟨fun _ => isSpace_of_isWhiteSpace hc, ih⟩
  | case6 => exact coded_nil

theorem not_mem_gapKinds (cs : List Char) :
    Kind.string ∉ gapKinds cs ∧ Kind.template ∉ gapKinds cs := by
  fun_induction gapKinds cs with
  | case1 => simp
  | case2 cs n ih => simpa [List.mem_append, List.mem_replicate] using ih
  | case3 cs n hn ih => simpa [List.mem_append, List.mem_replicate] using ih
  | case4 => simp
  | case5 c cs h₁ h₂ hc ih => simpa using ih
  | case6 => simp

theorem coded_properEnd? {ks : List Kind} (h : properEnd? cs = some ks) : Coded isCalm cs ks := by
  fun_induction properEnd? cs generalizing ks with
  | case1 => cases h; exact coded_nil
  | case2 c cs hc ih =>
    obtain ⟨ls, hls, rfl⟩ := Option.map_eq_some_iff.mp h
    exact coded_cons.mpr ⟨fun _ => isCalm_of_isSpace (isSpace_of_isHorizontal hc), ih hls⟩
  | case3 c cs h₁ h₂ =>
    cases h
    refine coded_cons.mpr ⟨fun _ => ?_, coded_nil⟩
    have hc : c = ';' ∨ c = '\n' := by simpa using h₂
    rcases hc with rfl | rfl <;> decide
  | case4 => cases h; exact coded_nil
  | case5 cs h₁ h₂ h₃ =>
    cases h
    exact coded_cons.mpr ⟨fun _ => by decide,
      coded_cons.mpr ⟨fun _ => by decide, coded_nil⟩⟩
  | case6 => cases h; exact coded_nil
  | case7 cs n hn h₁ h₂ h₃ ih =>
    obtain ⟨ls, hls, rfl⟩ := Option.map_eq_some_iff.mp h
    rw [Nat.add_comm, List.replicate_succ, List.replicate_succ, List.cons_append, List.cons_append,
      coded_cons, coded_cons]
    exact ⟨by rintro ⟨⟩, by rintro ⟨⟩, (ih hls).behind (by rintro ⟨⟩)⟩
  | case8 => cases h
  | case9 => cases h

/-! ## Member names -/

/-- **A member name** leaves nothing to be remembered, unless it spells a bound word. -/
theorem trail_property (h : AfterPoint F ok r cs) (hn : property? cs = some n)
    (hmem : r.members cs.length = true) (hb : String.ofList (cs.take n) ∉ boundWords) (g : Gist) :
    ∃ r', Trail g r cs (List.replicate n .code) .other r' (cs.drop n) ∧ At F ok r' (cs.drop n) := by
  obtain ⟨r', halong, hr'⟩ :=
    along_property h (fun hf => absurd (by simp [hf, boundWords]) hb) hn hmem
  refine ⟨r', ?_, hr'⟩
  obtain ⟨g', htrail⟩ := halong.trail g
  suffices g' = .other by rwa [this] at htrail
  obtain ⟨hw, hstop, hlen⟩ := property?_eq_some hn
  have hsplit := List.take_append_drop n cs
  generalize cs.take n = w at hw hb hlen hsplit
  generalize cs.drop n = ds at htrail hstop hsplit
  subst hlen hsplit
  have hall : ∀ c ∈ (w ++ ds).take (List.replicate w.length Kind.code).length,
      isNameChar c = true := by
    rw [List.length_replicate, List.take_left]
    exact isNameChar_of_isName hw
  cases w with
  | nil => cases hw
  | cons c w =>
    by_cases hgo : r.GoesOn c
    · -- the name goes on a number
      have hstep : r.step c (w ++ ds) = ⟨.code, [c], w ++ ds, { r with lead := .other }⟩ := by
        unfold Reader.step
        rw [if_pos hgo]
      have hgist : r.gist g c (w ++ ds) = .other := by
        unfold Reader.gist
        rw [if_pos (Or.inl hgo)]
      have hne : List.replicate (c :: w).length Kind.code ≠ [] := by rintro ⟨⟩
      generalize List.replicate (c :: w).length Kind.code = ks at htrail hall hne
      rw [List.cons_append] at htrail hall
      obtain ⟨ls, rfl, h'⟩ := htrail.uncons hne
      rw [take_step, hstep] at hall
      rw [hgist, hstep] at h'
      exact h'.nameChars rfl hgo.1 hgo.2.1 fun d hd => hall d (List.mem_append_right _ hd)
    · rw [htrail.name (by rintro ⟨⟩) hall h.code hw (by rintro d ⟨⟩; exact hgo) hstop, of_name hw hb]

end LedSketch.Grammar
