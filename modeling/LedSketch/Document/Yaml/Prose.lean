import LedSketch.Document.Json
import LedSketch.Document.Yaml.Cursor

/-!
# Texts in a YAML document

A text may be plain, quoted, or a block of lines. A single line end inside a plain or quoted text is
folded to a space, and of several line ends all but the first are kept.

* `plain` — a plain text, which ends where the document goes on;
* `quoted` — a text between quotes;
* `block` — the lines of a block, folded or as they are.
-/

namespace LedSketch.Yaml

-- Powers are those of the core library, also where other ones are in scope; there the type of an
-- exponent has to be known.
attribute [local instance (high)] instPowNat

/-- Refuses the document. -/
def refuse {α : Type} : Except Refusal α := .error .badYaml

/-- What is found, or a refusal. -/
def need {α : Type} : Option α → Except Refusal α
  | some a => .ok a
  | none => refuse

/-- How a line end and those that follow it are kept. -/
def foldedBreaks (first : Char) (more : List Char) : List Char :=
  (if first ≠ '\n' then [first] else if more.isEmpty then [' '] else []) ++ more

/-! ## Plain texts -/

/-- The characters of a plain text up to the next gap. -/
def plainStretch (inFlow : Bool) : List Char → List Char
  | [] => []
  | c :: rest =>
    let colonEnds := rest.head?.all fun d => isGap d || (inFlow && isFlowMark d)
    if isGap c || (c == ':' && colonEnds) || (inFlow && (isFlowMark c || c == '?')) then []
    else c :: plainStretch inFlow rest

/-- Line ends and the spaces around them; nothing in front of a separator of documents. -/
def plainBreaks : Nat → Cursor → Option (List Char) × Cursor
  | 0, c => (some [], c)
  | fuel + 1, c =>
    let c := c.skipWhile (· == ' ')
    match c.lineEnd? with
    | none => (some [], c)
    | some (b, c) =>
      if c.atSeparator then (none, c)
      else
        let (bs, c) := plainBreaks fuel c
        (bs.map (b :: ·), c)

/-- What stands for the gap behind a stretch, the place behind the gap, and whether a line ended. It
is nothing if the text ends here. -/
def plainGap (c : Cursor) : List Char × Cursor × Bool :=
  let (spaces, c) := c.span (· == ' ')
  match c.lineEnd? with
  | none => (spaces, c, false)
  | some (b, c) =>
    if c.atSeparator then ([], c, true)
    else match plainBreaks c.rest.length c with
      | (none, c) => ([], c, true)
      | (some bs, c) => (foldedBreaks b bs, c, true)

/-- Stretches with the gaps between them, in at most `fuel` stretches. -/
def plainFrom (inFlow : Bool) (indent : Int) :
    Nat → List Char → Cursor → Bool → List Char × Cursor × Bool
  | 0, _, c, crossed => ([], c, crossed)
  | fuel + 1, gap, c, crossed =>
    let stretch := plainStretch inFlow c.rest
    if c.at? '#' || stretch.isEmpty then ([], c, crossed)
    else
      let (nextGap, d, crossed) := plainGap (c.skip stretch.length)
      if nextGap.isEmpty || d.at? '#' || (!inFlow && (d.column : Int) < indent) then
        (gap ++ stretch, d, crossed)
      else
        let (more, e, crossed) := plainFrom inFlow indent fuel nextGap d crossed
        (gap ++ stretch ++ more, e, crossed)

/-- A plain text, the place behind it, and whether it was left behind a line end. Outside of
brackets its lines are indented at least by `indent`. -/
def plain (inFlow : Bool) (indent : Int) (c : Cursor) : String × Cursor × Bool :=
  let (cs, c, crossed) := plainFrom inFlow indent (c.rest.length + 1) [] c false
  (String.ofList cs, c, crossed)

/-! ## Quoted texts -/

/-- The character that a one-letter escape stands for. -/
def shortEscape? : Char → Option Char
  | '0' => some (Char.ofNat 0)
  | 'a' => some '\x07'
  | 'b' => some '\x08'
  | 't' => some '\t'
  | '\t' => some '\t'
  | 'n' => some '\n'
  | 'v' => some '\x0b'
  | 'f' => some '\x0c'
  | 'r' => some '\r'
  | 'e' => some '\x1b'
  | ' ' => some ' '
  | '"' => some '"'
  | '\\' => some '\\'
  | '/' => some '/'
  | 'N' => some '\u0085'
  | '_' => some '\u00A0'
  | 'L' => some '\u2028'
  | 'P' => some '\u2029'
  | _ => none

/-- How many hexadecimal digits follow a letter. -/
def codeLength? : Char → Option Nat
  | 'x' => some 2
  | 'u' => some 4
  | 'U' => some 8
  | _ => none

/-- The character of a code. -/
def ofCode (n : Nat) : Except Refusal Char :=
  if n < 0x110000 then .ok (Char.ofNat n)
  else if n < 2 ^ (31 : Nat) then .error (.mishap (.refused "chr() arg not in range(0x110000)"))
  else .error (.mishap .codeTooLarge)

/-- Line ends inside of quotes, with the blanks around them. -/
def quotedBreaks : Nat → Cursor → Except Refusal (List Char × Cursor)
  | 0, _ => refuse
  | fuel + 1, c =>
    if c.atSeparator then refuse
    else
      let c := c.skipWhile isBlank
      match c.lineEnd? with
      | none => .ok ([], c)
      | some (b, c) => do
        let (bs, c) ← quotedBreaks fuel c
        return (b :: bs, c)

/-- What an escape stands for; the cursor stands behind the backslash. -/
def escape (c : Cursor) : Except Refusal (List Char × Cursor) := do
  let e ← need (c.look 0)
  match shortEscape? e with
  | some d => return ([d], c.next)
  | none => match codeLength? e with
    | some n =>
      let ds ← need ((c.next.rest.take n).mapM Json.hexDigit?)
      if ds.length < n then refuse
      else return ([← ofCode (Reading.ofDigits 16 ds)], c.skip (n + 1))
    | none =>
      let (_, c) ← need c.lineEnd?
      quotedBreaks (c.rest.length + 1) c

/-- The rest of a text between quotes `q`, in at most `fuel` steps. -/
def quotedFrom (q : Char) : Nat → Cursor → Except Refusal (List Char × Cursor)
  | 0, _ => refuse
  | fuel + 1, c => do
    let x ← need (c.look 0)
    let more (part : List Char) (c : Cursor) : Except Refusal (List Char × Cursor) := do
      let (cs, c) ← quotedFrom q fuel c
      return (part ++ cs, c)
    if x = q then
      if q = '\'' && c.look 1 == some q then more [q] (c.skip 2) else return ([], c.next)
    else if x = '\\' && q = '"' then
      let (part, c) ← escape c.next
      more part c
    else if isGap x then
      let (blanks, c) := c.span isBlank
      match c.lineEnd? with
      | none => more blanks c
      | some (b, c) =>
        let (bs, c) ← quotedBreaks (c.rest.length + 1) c
        more (foldedBreaks b bs) c
    else more [x] c.next

/-- A text between quotes, which stands here. -/
def quoted (c : Cursor) : Except Refusal (String × Cursor) := do
  let q ← need (c.look 0)
  let (cs, c) ← quotedFrom q (c.rest.length + 1) c.next
  return (String.ofList cs, c)

/-! ## Blocks -/

/-- What is kept of the line ends behind the last line of a block. -/
inductive Chomp where
  | one
  | none
  | all
deriving DecidableEq, Repr

/-- The mark that says what is kept. -/
def chomp? (c : Cursor) : Option Chomp :=
  match c.look 0 with
  | some '+' => some .all
  | some '-' => some .none
  | _ => Option.none

/-- The digit that says how far a block is indented. -/
def indentDigit? (c : Cursor) : Option Nat := (c.look 0).bind fun d =>
  if Json.isAsciiDigit d then some (d.toNat - 48) else Option.none

/-- The header of a block: what is kept, and how far the block is indented, in either order. -/
def blockHeader (c : Cursor) : Chomp × Option Nat × Cursor :=
  match chomp? c with
  | some chomp => match indentDigit? c.next with
    | some n => (chomp, some n, c.skip 2)
    | none => (chomp, none, c.next)
  | none => match indentDigit? c with
    | some n => match chomp? c.next with
      | some chomp => (chomp, some n, c.skip 2)
      | none => (.one, some n, c.next)
    | none => (.one, none, c)

/-- Passes over spaces up to a column. -/
def skipTo (column : Nat) (c : Cursor) : Cursor :=
  c.skip ((c.rest.take (column - c.column)).takeWhile (· == ' ')).length

/-- Line ends, each followed by spaces up to a column. -/
def blockBreaks (column : Nat) : Nat → Cursor → List Char × Cursor
  | 0, c => ([], c)
  | fuel + 1, c =>
    let c := skipTo column c
    match c.lineEnd? with
    | none => ([], c)
    | some (b, c) =>
      let (bs, c) := blockBreaks column fuel c
      (b :: bs, c)

/-- The line ends in front of a block, and the widest indentation among its first lines. -/
def blockIndent : Nat → Nat → Cursor → List Char × Nat × Cursor
  | 0, widest, c => ([], widest, c)
  | fuel + 1, widest, c =>
    if c.at? ' ' then blockIndent fuel (max widest c.next.column) c.next
    else match c.lineEnd? with
      | none => ([], widest, c)
      | some (b, c) =>
        let (bs, widest, c) := blockIndent fuel widest c
        (b :: bs, widest, c)

/-- What has been read of a block: its text, the end of its last line, the empty lines behind. -/
structure Block where
  text : List Char
  lastBreak : List Char
  breaks : List Char
  cursor : Cursor

/-- The lines of a block behind some line ends, in at most `fuel` lines. -/
def blockLines (folded : Bool) (column : Nat) : Nat → List Char → Cursor → Block
  | 0, breaks, c => ⟨[], [], breaks, c⟩
  | fuel + 1, breaks, c =>
    let blankStart := (c.look 0).any isBlank
    let (line, d) := c.span (!isBreak ·)
    let (lineBreak, d) := match d.lineEnd? with
      | some (b, d) => ([b], d)
      | none => ([], d)
    let (more, e) := blockBreaks column d.rest.length d
    if e.column = column && (e.look 0).isSome then
      let folds := folded && lineBreak == ['\n'] && !blankStart && !(e.look 0).any isBlank
      let joint := if folds then if more.isEmpty then [' '] else [] else lineBreak
      let b := blockLines folded column fuel more e
      { b with text := breaks ++ line ++ joint ++ b.text }
    else ⟨breaks ++ line, lineBreak, more, e⟩

/-- The text of a block, whose mark stands here, inside of what is indented by `indent`. -/
def block (folded : Bool) (indent : Int) (c : Cursor) : Except Refusal (String × Cursor) := do
  let (chomp, increment, c) := blockHeader c.next
  if increment = some 0 || !c.ends isPause 0 then refuse
  else
    let c ← need c.restOfLine?
    let least := max (indent + 1).toNat 1
    let (column, breaks, c) := match increment with
      | some n =>
        let column := least + n - 1
        (column, blockBreaks column c.rest.length c)
      | none =>
        let (breaks, widest, c) := blockIndent (c.rest.length + 1) 0 c
        (max least widest, breaks, c)
    let b :=
      if c.column = column && (c.look 0).isSome then blockLines folded column c.rest.length breaks c
      else ⟨[], [], breaks, c⟩
    let tail := match chomp with
      | .none => []
      | .one => b.lastBreak
      | .all => b.lastBreak ++ b.breaks
    return (String.ofList (b.text ++ tail), b.cursor)

end LedSketch.Yaml
