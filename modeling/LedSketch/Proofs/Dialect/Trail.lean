import LedSketch.Proofs.Dialect.Heeding

/-!
# What a reader remembers of the last token

Whether a call of `delay` is awaited depends on the token in front of it. `Trail` follows a reader
over a text and keeps what that token was.

* `Gist`: what the last token means for the word that comes next.
* `Trail`: what is read on the way from one place to a later one, with the gist at both ends.
* `Minds`: every call of `delay` that is read further on, where the innermost body may suspend and
  outside of interpolations, stands behind a token that keeps the pass from awaiting it.
* `minds_name`, `minds_mark`, …: what comes next may be minded if what is left behind it is.
-/

namespace LedSketch.Dialect

open Text Scan Scanner

/-- What the last token means for the word that comes next. -/
inductive Gist where
  | await
  | point
  | function
  | async
  | other
deriving DecidableEq, Repr

/-- What a token of code means. -/
def Gist.of (token : String) : Gist :=
  if token = "await" then .await
  else if token = "." then .point
  else if token = "function" then .function
  else if token = "async" then .async
  else .other

variable {g g' g'' : Gist} {r r' r'' : Reader} {c : Char} {cs ds es w : List Char}
  {ks ls : List Kind}

/-- The gist behind a segment: blanks and comments leave it as it is. -/
def Gist.behind (g : Gist) : Kind → List Char → Gist
  | .code, text => if isBlank text then g else .of (String.ofList text)
  | .string, _ | .template, _ => .other
  | .lineComment, _ | .blockComment, _ => g

/-- The gist behind the next step of a reader. -/
def Reader.gist (r : Reader) (g : Gist) (c : Char) (cs : List Char) : Gist :=
  if r.GoesOn c ∨ r.scanner.mode = .code ∧ isDecimalDigit c = true then .other
  else g.behind (r.scanner.step c cs).kind (r.scanner.step c cs).text

/-- From `cs` the reader gets to `ds`, over characters of the kinds `ks`, and what it remembers of
the last token is `g` before and `g'` behind. -/
inductive Trail : Gist → Reader → List Char → List Kind → Gist → Reader → List Char → Prop
  | refl (g : Gist) (r : Reader) (cs : List Char) : Trail g r cs [] g r cs
  | step {g g' : Gist} {r r' : Reader} {c : Char} {cs ds : List Char} {ks : List Kind}
      (h : Trail (r.gist g c cs) (r.step c cs).reader (r.step c cs).rest ks g' r' ds) :
      Trail g r (c :: cs)
        (List.replicate (r.step c cs).text.length (r.step c cs).kind ++ ks) g' r' ds

namespace Trail

theorem trans (h : Trail g r cs ks g' r' ds) (h' : Trail g' r' ds ls g'' r'' es) :
    Trail g r cs (ks ++ ls) g'' r'' es := by
  induction h with
  | refl => exact h'
  | step _ ih =>
    rw [List.append_assoc]
    exact .step (ih h')

theorem along (h : Trail g r cs ks g' r' ds) : Along r cs ks r' ds := by
  induction h with
  | refl => exact .refl _ _
  | step _ ih => exact .step ih

/-- A single step. -/
theorem single {t : Read} (h : r.step c cs = t) :
    Trail g r (c :: cs) (List.replicate t.text.length t.kind) (r.gist g c cs) t.reader t.rest := by
  have := Trail.step (.refl (r.gist g c cs) (r.step c cs).reader (r.step c cs).rest)
  rwa [List.append_nil, h] at this

end Trail

/-- Whatever is remembered before, something is remembered behind. -/
theorem Along.trail (h : Along r cs ks r' ds) (g : Gist) : ∃ g', Trail g r cs ks g' r' ds := by
  induction h generalizing g with
  | refl => exact ⟨g, .refl g _ _⟩
  | @step r r' c cs ds ks _ ih =>
    obtain ⟨g', h⟩ := ih (r.gist g c cs)
    exact ⟨g', .step h⟩

/-! ## Looking ahead -/

theorem peekChar?_cons (c : Char) (cs : List Char) :
    peekChar? (c :: cs) = if isSpace c then peekChar? cs else some c := by
  unfold peekChar? skipSpace
  rw [List.dropWhile_cons]
  split <;> rfl

/-- Where a character comes next that goes on no name, no name goes on. -/
theorem stopsRun_of_peekChar? (h : peekChar? cs = some c) (hc : isNameChar c = false) :
    StopsRun isNameChar cs := by
  intro d hd
  obtain ⟨ds, rfl⟩ := List.head?_eq_some_iff.mp hd
  rw [peekChar?_cons] at h
  split at h
  · exact isNameChar_of_isSpace ‹_›
  · cases h
    exact hc

/-! ## Calls of `delay` -/

/-- A call of `delay` that comes next, where it may pause, is kept from being awaited. -/
def Mindful (g : Gist) (r : Reader) (cs : List Char) : Prop :=
  ∀ ds, cs = "delay".toList ++ ds → r.Meets cs "delay".toList → peekChar? ds = some '(' →
    r.suspendable = true → r.scanner.interpolations = [] → g ≠ .other

/-- **A text is minded** if whatever is read next in it is. -/
def Minds (g : Gist) (r : Reader) (cs : List Char) : Prop :=
  ∀ ks g' r' ds, Trail g r cs ks g' r' ds → Mindful g' r' ds

theorem Minds.trail (h : Minds g r cs) (ht : Trail g r cs ks g' r' ds) : Minds g' r' ds :=
  fun _ _ _ _ hb => h _ _ _ _ (ht.trans hb)

theorem Minds.mindful (h : Minds g r cs) : Mindful g r cs := h _ _ _ _ (.refl g r cs)

/-- Only a name has to be minded. -/
theorem mindful_of_start (hc : isNameStart c = false) : Mindful g r (c :: cs) :=
  fun _ _ hm => absurd hm (Reader.not_meets_of_start hc)

theorem minds_nil (g : Gist) (r : Reader) : Minds g r [] := by
  intro ks g' r' ds h
  cases h
  intro es hes
  cases hes

theorem minds_cons (hm : Mindful g r (c :: cs))
    (h : Minds (r.gist g c cs) (r.step c cs).reader (r.step c cs).rest) : Minds g r (c :: cs) := by
  intro ks g' r' ds ht
  cases ht with
  | refl => exact hm
  | step ht => exact h _ _ _ _ ht

/-! ## Token by token -/

/-- What a name means. -/
theorem gist_name (hm : r.scanner.mode = .code) (hw : isName (c :: w) = true) (hg : ¬ r.GoesOn c)
    (hds : StopsRun isNameChar ds) : r.gist g c (w ++ ds) = .of (String.ofList (c :: w)) := by
  obtain ⟨hc, hall⟩ := isName_cons.mp hw
  have hblank : isBlank (c :: w) = false := by
    cases hs : isSpace c with
    | false => simp [isBlank, hs]
    | true => rw [isNameStart_of_isSpace hs] at hc; cases hc
  have hdigit := Reader.isDecimalDigit_of_isNameStart hc
  unfold Reader.gist
  rw [if_neg (by simp [hg, hdigit]), step_name hm hc]
  simp only [takeRun, takeWhile_append_of_stopsRun hall hds, Gist.behind, hblank]
  rfl

/-- **A name is minded** if what is left behind it is. -/
theorem minds_name (hf : r.Free w) (hw : isName w = true) (hds : StopsRun isNameChar ds)
    (hdelay : String.ofList w = "delay" → peekChar? ds = some '(' → r.suspendable = true →
      r.scanner.interpolations = [] → g ≠ .other)
    (h : ∀ member, Minds (.of (String.ofList w)) ({ r with inNumber := false }.word member w) ds) :
    Minds g r (w ++ ds) := by
  cases w with
  | nil => cases hw
  | cons c w =>
    rw [List.cons_append]
    refine minds_cons (fun es hes hmeets => ?_) ?_
    · have heq := Reader.eq_of_meets hw hds hmeets
      have hsplit : (c :: w) ++ ds = "delay".toList ++ es := hes
      rw [heq] at hdelay hsplit
      obtain rfl := List.append_cancel_left hsplit
      exact hdelay String.ofList_toList
    · rw [Reader.step_of_name hf.code hw (hf.number c rfl) hds,
        gist_name hf.code hw (hf.number c rfl) hds]
      exact h _

/-- What a character of code means that is no part of a name or of a number. -/
theorem gist_mark (hm : r.scanner.mode = .code) (hc : IsMark c) (hn : isNumberChar c = false)
    (hd : isDecimalDigit c = false) :
    r.gist g c cs = if isBlank [c] then g else .of (String.ofList [c]) := by
  unfold Reader.gist
  rw [if_neg (by simp [Grammar.not_goesOn hn, hd]), hc r.scanner cs hm]
  rfl

theorem minds_mark (hm : r.scanner.mode = .code) (hc : IsMark c) (hn : isNumberChar c = false)
    (hd : isDecimalDigit c = false) (hs : isNameStart c = false)
    (h : Minds (if isBlank [c] then g else .of (String.ofList [c]))
      ({ r with inNumber := false }.mark [c]) ds) : Minds g r (c :: ds) := by
  refine minds_cons (mindful_of_start hs) ?_
  have hname : isName [c] = false := by simp [isName, hs]
  rw [gist_mark hm hc hn hd, Grammar.step_of_not_goesOn (Grammar.not_goesOn hn) hd,
    hc r.scanner ds hm]
  simpa only [Reader.take, takeOne, hname, Bool.false_eq_true, if_false] using h

/-- A blank changes nothing. -/
theorem minds_space (hm : r.scanner.mode = .code) (hc : isSpace c = true)
    (h : Minds g { r with inNumber := false } ds) : Minds g r (c :: ds) := by
  refine minds_mark hm (isMark_of_isSpace hc) (Grammar.isNumberChar_of_isSpace hc)
    (isDecimalDigit_of_isSpace hc) (isNameStart_of_isSpace hc) ?_
  have hblank : isBlank [c] = true := by simp [isBlank, hc]
  simpa only [Reader.mark, hblank, if_true] using h

theorem minds_spaces {xs : List Char} (hm : r.scanner.mode = .code) (hn : r.inNumber = false)
    (hx : ∀ c ∈ xs, isSpace c = true) (h : Minds g r ds) : Minds g r (xs ++ ds) := by
  induction xs with
  | nil => exact h
  | cons c xs ih =>
    refine minds_space hm (hx c List.mem_cons_self) ?_
    rw [show ({ r with inNumber := false } : Reader) = r by rw [← hn]]
    exact ih fun d hd => hx d (List.mem_cons_of_mem c hd)

/-- A number is read character by character. -/
theorem minds_numberChars {xs : List Char} (hm : r.scanner.mode = .code) (hn : r.inNumber = true)
    (hl : r.lead = .other) (hx : ∀ c ∈ xs, isNumberChar c = true) (h : Minds .other r ds) :
    Minds .other r (xs ++ ds) := by
  induction xs with
  | nil => exact h
  | cons c xs ih =>
    have hg : r.GoesOn c := ⟨hm, hn, hx c List.mem_cons_self⟩
    refine minds_cons (fun _ _ hmeets => ?_) ?_
    · obtain ⟨-, -, -, -, -, hnot⟩ := hmeets
      exact absurd hg (hnot c rfl)
    unfold Reader.gist Reader.step
    rw [if_pos (Or.inl hg), if_pos hg]
    dsimp only
    rw [show ({ r with lead := .other } : Reader) = r by rw [← hl]]
    exact ih fun d hd => hx d (List.mem_cons_of_mem c hd)

end LedSketch.Dialect
