import LedSketch.Text.Classes
import LedSketch.Scan.Nesting

/-!
# The lexical scanner

A sketch is cut from left to right into segments of code, comment, string and template text. The
scanner keeps its whole state between segments, so that a rewriting pass can take one segment at a
time and decide in between; nothing is reclassified once it was returned.

Braces met in code go to the `Nesting`. An interpolation inside a template counts as one open brace
there, and the brace that matches it leads back into the template.

This is the scanner of section 4.1 of the specification (`SPEC_FULL.md:116-137`): `step` is its
`step`, `classify` its `classify`, and a `Kind` one of its scan states (`SPEC_FULL.md:95-97`).

* `Scanner.text_append_rest` — a step splits its input, it loses and invents nothing;
* `Scanner.text_ne_nil` — a step takes at least one character;
* `scan_text` — the segments of a text spell the text.
-/

namespace LedSketch.Scan

open Text

/-- What a character belongs to. -/
inductive Kind where
  | code
  | lineComment
  | blockComment
  | string
  | template
deriving DecidableEq, Repr

/-- The name of a kind in reports. -/
def Kind.label : Kind → String
  | code => "code"
  | lineComment => "line-comment"
  | blockComment => "block-comment"
  | string => "string"
  | template => "template"

/-- The two marks that enclose a string. -/
inductive Quote where
  | single
  | double
deriving DecidableEq, Repr

/-- The character of a quote. -/
def Quote.char : Quote → Char
  | single => '\''
  | double => '"'

/-- The quote a character is. -/
def Quote.ofChar? (c : Char) : Option Quote :=
  if c = '"' then some double else if c = '\'' then some single else none

/-- What the scanner is inside of. An open string remembers its quote. -/
inductive Mode where
  | code
  | lineComment
  | blockComment
  | string (quote : Quote)
  | template
deriving DecidableEq, Repr

/-- The kind of the text that a mode reads. -/
def Mode.kind : Mode → Kind
  | code => .code
  | lineComment => .lineComment
  | blockComment => .blockComment
  | string _ => .string
  | template => .template

/-- A stretch of source text of one kind. -/
structure Segment where
  kind : Kind
  text : List Char
deriving DecidableEq, Repr

/-- The state of the scanner between two segments. -/
structure Scanner where
  mode : Mode := .code
  nesting : Nesting := {}
  /-- The depth recorded at each open interpolation, the innermost first. -/
  interpolations : List Nat := []
deriving DecidableEq, Repr

/-- The outcome of one step: the segment taken, what is left, and the state after it. -/
structure Step where
  kind : Kind
  text : List Char
  rest : List Char
  scanner : Scanner

namespace Scanner

/-- Whether an interpolation is open. -/
def inInterpolation (s : Scanner) : Bool := !s.interpolations.isEmpty

/-- The quote of the open string. -/
def quote? (s : Scanner) : Option Quote :=
  match s.mode with
  | .string q => some q
  | _ => none

/-- Takes the longest run that starts with `c` and goes on with `p`. -/
def takeRun (s : Scanner) (kind : Kind) (p : Char → Bool) (c : Char) (cs : List Char) : Step :=
  ⟨kind, c :: cs.takeWhile p, cs.dropWhile p, s⟩

/-- Takes one character. -/
def takeOne (s : Scanner) (kind : Kind) (c : Char) (cs : List Char) : Step := ⟨kind, [c], cs, s⟩

/-- Inside quotes: an escape is one unit, the closing mark leads back to code, and any other text is
taken up to the next character that `plain` excludes. -/
def stepQuoted (s : Scanner) (kind : Kind) (closer : Char) (plain : Char → Bool) (c : Char)
    (cs : List Char) : Step :=
  if c = '\\' then ⟨kind, c :: cs.take 1, cs.drop 1, s⟩
  else if c = closer then takeOne { s with mode := .code } kind c cs
  else if plain c then takeRun s kind plain c cs
  else takeOne s kind c cs

/-- In code: comments, strings and templates open, braces are counted, and words and numbers are
taken whole. -/
def stepCode (s : Scanner) (c : Char) (cs : List Char) : Step :=
  match c, cs with
  | '/', '/' :: cs => ⟨.lineComment, ['/', '/'], cs, { s with mode := .lineComment }⟩
  | '/', '*' :: cs => ⟨.blockComment, ['/', '*'], cs, { s with mode := .blockComment }⟩
  | '{', cs => takeOne { s with nesting := s.nesting.openBrace } .code '{' cs
  | '}', cs =>
    let closed := s.nesting.closeBrace
    match s.interpolations with
    | d :: ds =>
      if d = s.nesting.depth then
        takeOne ⟨.template, closed, ds⟩ .template '}' cs
      else takeOne { s with nesting := closed } .code '}' cs
    | [] => takeOne { s with nesting := closed } .code '}' cs
  | '\x60', cs => takeOne { s with mode := .template } .template '\x60' cs
  | c, cs =>
    match Quote.ofChar? c with
    | some q => takeOne { s with mode := .string q } .string c cs
    | none =>
      if isNameStart c then takeRun s .code isNameChar c cs
      else if isDecimalDigit c then takeRun s .code (fun c => isWordChar c || c == '.') c cs
      else takeOne s .code c cs

/-- Takes the next segment of a source that goes on with `c` and `cs`. -/
def step (s : Scanner) (c : Char) (cs : List Char) : Step :=
  match s.mode with
  | .code => s.stepCode c cs
  | .lineComment =>
    if c = '\n' then takeOne { s with mode := .code } .code c cs
    else takeRun s .lineComment (· ≠ '\n') c cs
  | .blockComment =>
    match c, cs with
    | '*', '/' :: cs => ⟨.blockComment, ['*', '/'], cs, { s with mode := .code }⟩
    | '*', cs => takeOne s .blockComment '*' cs
    | c, cs => takeRun s .blockComment (· ≠ '*') c cs
  | .string q => s.stepQuoted .string q.char (fun c => c ≠ '\\' && c ≠ q.char) c cs
  | .template =>
    match c, cs with
    | '$', '{' :: cs =>
      let nesting := s.nesting.openInterpolation
      ⟨.template, ['$', '{'], cs, ⟨.code, nesting, nesting.depth :: s.interpolations⟩⟩
    | c, cs => s.stepQuoted .template '\x60' (fun c => c ≠ '\\' && c ≠ '\x60' && c ≠ '$') c cs

@[simp] theorem takeRun_text_append_rest (s : Scanner) (k : Kind) (p : Char → Bool) (c : Char)
    (cs : List Char) : (takeRun s k p c cs).text ++ (takeRun s k p c cs).rest = c :: cs := by
  simp [takeRun]

@[simp] theorem takeOne_text_append_rest (s : Scanner) (k : Kind) (c : Char) (cs : List Char) :
    (takeOne s k c cs).text ++ (takeOne s k c cs).rest = c :: cs := rfl

theorem stepQuoted_text_append_rest (s : Scanner) (k : Kind) (closer : Char) (plain : Char → Bool)
    (c : Char) (cs : List Char) :
    (s.stepQuoted k closer plain c cs).text ++ (s.stepQuoted k closer plain c cs).rest
      = c :: cs := by
  unfold stepQuoted
  split
  · cases cs <;> rfl
  · split
    · simp
    · split <;> simp

theorem stepCode_text_append_rest (s : Scanner) (c : Char) (cs : List Char) :
    (s.stepCode c cs).text ++ (s.stepCode c cs).rest = c :: cs := by
  unfold stepCode
  split
  · rfl
  · rfl
  · rfl
  · split
    · split <;> rfl
    · rfl
  · rfl
  · split
    · rfl
    · split
      · simp
      · split <;> simp

/-- A step splits its input. -/
theorem text_append_rest (s : Scanner) (c : Char) (cs : List Char) :
    (s.step c cs).text ++ (s.step c cs).rest = c :: cs := by
  unfold step
  split
  · exact stepCode_text_append_rest s c cs
  · split <;> simp
  · split <;> simp
  · exact stepQuoted_text_append_rest ..
  · split
    · rfl
    · exact stepQuoted_text_append_rest ..

/-- A step takes at least one character. -/
theorem text_ne_nil (s : Scanner) (c : Char) (cs : List Char) : (s.step c cs).text ≠ [] := by
  unfold step stepCode stepQuoted takeRun takeOne
  grind

theorem length_rest_lt (s : Scanner) (c : Char) (cs : List Char) :
    (s.step c cs).rest.length < (c :: cs).length := by
  have h := congrArg List.length (text_append_rest s c cs)
  have h' := List.length_pos_iff.2 (text_ne_nil s c cs)
  rw [List.length_append] at h
  omega

/-- The segments of a source, each with the state after it. -/
def run (s : Scanner) : List Char → List (Segment × Scanner)
  | [] => []
  | c :: cs =>
    let t := s.step c cs
    (⟨t.kind, t.text⟩, t.scanner) :: run t.scanner t.rest
termination_by cs => cs.length
decreasing_by exact length_rest_lt s c cs

/-- The state at the end of a source. -/
def finish (s : Scanner) (cs : List Char) : Scanner :=
  ((s.run cs).getLast?.map Prod.snd).getD s

end Scanner

/-- The segments of a source. -/
def scan (source : List Char) : List Segment := (({} : Scanner).run source).map Prod.fst

/-- The kind of every character of a source. -/
def classify (source : List Char) : List Kind :=
  (scan source).flatMap fun g => List.replicate g.text.length g.kind

theorem run_text (s : Scanner) (cs : List Char) :
    ((s.run cs).map fun r => r.1.text).flatten = cs := by
  fun_induction Scanner.run s cs with
  | case1 => rfl
  | case2 s c cs t ih =>
    rw [List.map_cons, List.flatten_cons, ih]
    exact Scanner.text_append_rest s c cs

/-- The segments of a source spell the source. -/
theorem scan_text (source : List Char) : ((scan source).map Segment.text).flatten = source := by
  rw [scan, List.map_map]
  exact run_text {} source

end LedSketch.Scan
