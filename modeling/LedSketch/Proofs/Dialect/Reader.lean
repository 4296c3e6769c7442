import LedSketch.Dialect.Words
import LedSketch.Proofs.Scan.Kinds

/-!
# Reading the host form

A `Reader` goes over a text like the rewriting pass, but it rewrites nothing: it only notes which
words declare functions, and which of these are async. It is told which places are those of member
names, and it reads numbers character by character, because the grammar may see a member access
where the scanner still sees a number.

* `Along`: what is read on the way from one place to a later one.
* `Along.kinds`: a reader gives every character the kind that the scanner gives it.
* `Heeds`: no `await` is read where the innermost function body may not suspend.
-/

namespace LedSketch.Dialect

open Text Scan Scanner

/-- What the last token means for a word that comes next. -/
inductive Lead where
  /-- The word `async`: an async function may follow. -/
  | async
  /-- The word `async` as a member name. -/
  | member
  | other
deriving DecidableEq, Repr

/-- The state of reading between two segments. -/
structure Reader where
  /-- Whether a member name stands at a place, given by how many characters are left. -/
  members : Nat → Bool
  scanner : Scanner := {}
  lead : Lead := .other
  /-- A number was read, which goes on over word characters and points. -/
  inNumber : Bool := false
  parens : Nat := 0

/-- The outcome of one step: what was read, what is left, and the state after it. -/
structure Read where
  kind : Kind
  text : List Char
  rest : List Char
  reader : Reader

/-- What a number goes on with. -/
def isNumberChar (c : Char) : Bool := isWordChar c || c == '.'

theorem isNumberChar_of_lt {c : Char} (h : c.toNat < 0xAA) :
    isNumberChar c = (isAsciiAlnum c || c == '_' || c == '.') := by
  rw [isNumberChar, isWordChar_of_lt h]

theorem isNumberChar_of_isAsciiMark {c : Char} (h : isAsciiMark c = true) (hdot : c ≠ '.') :
    isNumberChar c = false := by
  have hname := isNameChar_of_isAsciiMark h
  simp only [isNameChar, Bool.or_eq_false_iff] at hname
  simp [isNumberChar, hname.1, hdot]

theorem isNumberChar_point : isNumberChar '.' = true := by simp [isNumberChar]

theorem isNumberChar_openParen : isNumberChar '(' = false :=
  isNumberChar_of_isAsciiMark (by decide) (by decide)

theorem isNumberChar_closeParen : isNumberChar ')' = false :=
  isNumberChar_of_isAsciiMark (by decide) (by decide)

namespace Reader

/-- Whether the innermost open body may suspend. -/
def suspendable (r : Reader) : Bool := r.scanner.nesting.suspendable

/-- The state after a name of code, which may be that of a member. -/
def word (r : Reader) (member : Bool) (w : List Char) : Reader :=
  if String.ofList w = "function" then
    { r with
      scanner := { r.scanner with nesting := r.scanner.nesting.declare (r.lead == .async) }
      lead := .other }
  else if String.ofList w = "async" then { r with lead := if member then .member else .async }
  else { r with lead := .other }

/-- The state after code that is no name. -/
def mark (r : Reader) (text : List Char) : Reader :=
  if isBlank text then r
  else
    let done := { r with lead := .other }
    if text = ['('] then { done with parens := r.parens + 1 }
    else if text = [')'] then { done with parens := r.parens - 1 }
    else if text = [';'] && r.parens == 0 then
      { done with scanner := { r.scanner with nesting := r.scanner.nesting.cancelPending } }
    else done

/-- Whether the reader is in code and in the middle of a number that goes on with `c`. -/
def GoesOn (r : Reader) (c : Char) : Prop :=
  r.scanner.mode = .code ∧ r.inNumber = true ∧ isNumberChar c = true

instance (r : Reader) (c : Char) : Decidable (r.GoesOn c) :=
  inferInstanceAs (Decidable (_ ∧ _ ∧ _))

/-- The outcome of a step over a segment that the scanner takes. -/
def take (r : Reader) (t : Step) : Read :=
  let q : Reader := { r with scanner := t.scanner, inNumber := false }
  match t.kind with
  | .code =>
    let member := r.members (t.text.length + t.rest.length)
    ⟨t.kind, t.text, t.rest, if isName t.text then q.word member t.text else q.mark t.text⟩
  | .string | .template => ⟨t.kind, t.text, t.rest, { q with lead := .other }⟩
  | .lineComment | .blockComment => ⟨t.kind, t.text, t.rest, q⟩

/-- Reads one segment, or one character of a number. -/
def step (r : Reader) (c : Char) (cs : List Char) : Read :=
  if r.GoesOn c then ⟨.code, [c], cs, { r with lead := .other }⟩
  else if r.scanner.mode = .code ∧ isDecimalDigit c = true then
    ⟨.code, [c], cs, { r with inNumber := true, lead := .other }⟩
  else r.take (r.scanner.step c cs)

/-! ## What a step leaves as it is -/

theorem word_alike (r : Reader) (member : Bool) (w : List Char) :
    Alike (r.word member w).scanner r.scanner := by
  unfold word
  split_ifs <;> exact ⟨rfl, rfl, rfl⟩

theorem mark_alike (r : Reader) (text : List Char) : Alike (r.mark text).scanner r.scanner := by
  unfold mark
  dsimp only
  split_ifs <;> exact ⟨rfl, rfl, rfl⟩

theorem take_alike (r : Reader) (t : Step) : Alike (r.take t).reader.scanner t.scanner := by
  unfold take
  dsimp only
  split
  · dsimp only
    split_ifs
    · exact word_alike _ _ _
    · exact mark_alike _ _
  all_goals exact .refl _

@[simp] theorem take_kind (r : Reader) (t : Step) : (r.take t).kind = t.kind := by
  unfold take
  dsimp only
  split <;> rfl

@[simp] theorem take_text (r : Reader) (t : Step) : (r.take t).text = t.text := by
  unfold take
  dsimp only
  split <;> rfl

@[simp] theorem take_rest (r : Reader) (t : Step) : (r.take t).rest = t.rest := by
  unfold take
  dsimp only
  split <;> rfl

theorem members_word (r : Reader) (member : Bool) (w : List Char) :
    (r.word member w).members = r.members := by
  unfold word
  split_ifs <;> rfl

theorem members_mark (r : Reader) (text : List Char) : (r.mark text).members = r.members := by
  unfold mark
  dsimp only
  split_ifs <;> rfl

theorem members_take (r : Reader) (t : Step) : (r.take t).reader.members = r.members := by
  unfold take
  dsimp only
  split
  · dsimp only
    split_ifs
    · exact members_word _ _ _
    · exact members_mark _ _
  all_goals rfl

theorem members_step (r : Reader) (c : Char) (cs : List Char) :
    (r.step c cs).reader.members = r.members := by
  unfold step
  split_ifs
  · rfl
  · rfl
  · exact members_take r _

theorem isOrdinary_of_isDecimalDigit {c : Char} (h : isDecimalDigit c = true) :
    isOrdinary c = true :=
  isOrdinary_of_class (by decide) h

/-- **A step gives its text the kind that the scanner gives it**, and leaves the scanner where the
scanner would be. -/
theorem kinds_of_step (r : Reader) (c : Char) (cs : List Char) :
    r.scanner.kinds (c :: cs) = List.replicate (r.step c cs).text.length (r.step c cs).kind ++
        (r.step c cs).reader.scanner.kinds (r.step c cs).rest ∧
      Alike (r.scanner.finish (c :: cs))
        ((r.step c cs).reader.scanner.finish (r.step c cs).rest) := by
  unfold step
  split_ifs with h₁ h₂
  · exact ⟨kinds_ordinary h₁.1 (isOrdinary_of_isWordChar h₁.2.2) cs,
      by rw [finish_ordinary h₁.1 (isOrdinary_of_isWordChar h₁.2.2)]; exact .refl _⟩
  · exact ⟨kinds_ordinary h₂.1 (isOrdinary_of_isDecimalDigit h₂.2) cs,
      by rw [finish_ordinary h₂.1 (isOrdinary_of_isDecimalDigit h₂.2)]; exact .refl _⟩
  · rw [take_kind, take_text, take_rest]
    have h := take_alike r (r.scanner.step c cs)
    exact ⟨by rw [kinds_step, kinds_of_alike h],
      by rw [finish_step]; exact finish_of_alike h.symm _⟩

theorem isDecimalDigit_of_isNameStart {c : Char} (hc : isNameStart c = true) : isDecimalDigit c = false := by
  have hlt : c.toNat < 128 := by
    simp only [isNameStart, Bool.or_eq_true, Bool.and_eq_true, decide_eq_true_eq,
      beq_iff_eq] at hc
    rcases hc with ((⟨-, h⟩ | ⟨-, h⟩) | rfl) | rfl
    · exact Nat.lt_of_le_of_lt h (by decide)
    · exact Nat.lt_of_le_of_lt h (by decide)
    · decide
    · decide
  have key : ∀ n < 128, isNameStart (Char.ofNat n) = true →
      isDecimalDigit (Char.ofNat n) = false := by decide
  rw [← Char.ofNat_toNat c] at hc ⊢
  exact key _ hlt hc

/-- **A name is read whole.** -/
theorem step_of_name {r : Reader} {c : Char} {w ds : List Char} (hm : r.scanner.mode = .code)
    (hw : isName (c :: w) = true) (hg : ¬ r.GoesOn c) (hds : StopsRun isNameChar ds) :
    r.step c (w ++ ds) = ⟨.code, c :: w, ds,
      { r with inNumber := false }.word (r.members (c :: w ++ ds).length) (c :: w)⟩ := by
  obtain ⟨hc, hall⟩ := isName_cons.mp hw
  unfold step
  rw [if_neg hg, if_neg (by rw [isDecimalDigit_of_isNameStart hc]; simp), step_name hm hc]
  simp only [takeRun]
  rw [takeWhile_append_of_stopsRun hall hds, dropWhile_append_of_stopsRun hall hds]
  simp [take, hw, Nat.add_right_comm]

end Reader

/-! ## Reading from one place to another -/

/-- From `cs` the reader gets to `ds`, and the characters in between are of the kinds `ks`. -/
inductive Along : Reader → List Char → List Kind → Reader → List Char → Prop
  | refl (r : Reader) (cs : List Char) : Along r cs [] r cs
  | step {r r' : Reader} {c : Char} {cs ds : List Char} {ks : List Kind}
      (h : Along (r.step c cs).reader (r.step c cs).rest ks r' ds) :
      Along r (c :: cs)
        (List.replicate (r.step c cs).text.length (r.step c cs).kind ++ ks) r' ds

namespace Along

variable {r r' r'' : Reader} {cs ds es : List Char} {ks ls : List Kind}

theorem trans (h : Along r cs ks r' ds) (h' : Along r' ds ls r'' es) :
    Along r cs (ks ++ ls) r'' es := by
  induction h with
  | refl => exact h'
  | step _ ih =>
    rw [List.append_assoc]
    exact .step (ih h')

theorem join {i j : Nat} {k : Kind} (h : Along r cs (List.replicate i k) r' ds)
    (h' : Along r' ds (List.replicate j k) r'' es) :
    Along r cs (List.replicate (i + j) k) r'' es := by
  rw [← List.replicate_append_replicate]
  exact h.trans h'

/-- A single step. -/
theorem single {c : Char} {t : Read} (h : r.step c cs = t) :
    Along r (c :: cs) (List.replicate t.text.length t.kind) t.reader t.rest := by
  have := Along.step (.refl (r.step c cs).reader (r.step c cs).rest)
  rwa [List.append_nil, h] at this

/-- **What is read on the way has the kinds that the scanner gives it.** -/
theorem kinds (h : Along r cs ks r' ds) : r.scanner.kinds cs = ks ++ r'.scanner.kinds ds := by
  induction h with
  | refl => rfl
  | @step r _ c cs _ _ _ ih => rw [(r.kinds_of_step c cs).1, ih, List.append_assoc]

theorem finish (h : Along r cs ks r' ds) :
    Alike (r.scanner.finish cs) (r'.scanner.finish ds) := by
  induction h with
  | refl => exact .refl _
  | @step r _ c cs _ _ _ ih => exact (r.kinds_of_step c cs).2.trans ih

theorem members (h : Along r cs ks r' ds) : r'.members = r.members := by
  induction h with
  | refl => rfl
  | @step r _ c cs _ _ _ ih => rw [ih, r.members_step]

end Along

/-- The reader is in code and reads the name `w` next. -/
def Reader.Meets (r : Reader) (cs w : List Char) : Prop :=
  r.scanner.mode = .code ∧ isName w = true ∧
    ∃ ds, cs = w ++ ds ∧ StopsRun isNameChar ds ∧ ∀ c ∈ cs.head?, ¬ r.GoesOn c

/-- **Every `await` that is read further on stands where the innermost body may suspend.** -/
def Reader.Heeds (r : Reader) (cs : List Char) : Prop :=
  ∀ ks r' ds, Along r cs ks r' ds → r'.Meets ds "await".toList → r'.suspendable = true

theorem Reader.Heeds.along {r r' : Reader} {cs ds : List Char} {ks : List Kind}
    (h : r.Heeds cs) (ha : Along r cs ks r' ds) : r'.Heeds ds :=
  fun _ _ _ hb hm => h _ _ _ (ha.trans hb) hm

end LedSketch.Dialect
