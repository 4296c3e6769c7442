import LedSketch.Document.Refusal

/-!
# Places in a YAML text

A cursor stands somewhere in a text and knows its line and column. A byte order mark takes no
column. A carriage return before a line feed does not end a line by itself.

* `Cursor.lineEnd?` — passes over a line end and says how it is kept: the separators U+2028 and
  U+2029 stay, all others become line feeds.
-/

namespace LedSketch.Yaml

/-! ## Characters -/

/-- A character that ends a line. -/
def isBreak (c : Char) : Bool :=
  c == '\n' || c == '\r' || c.toNat == 0x85 || c.toNat == 0x2028 || c.toNat == 0x2029

/-- A space or a tab. -/
def isBlank (c : Char) : Bool := c == ' ' || c == '\t'

/-- A blank or a line end. -/
def isGap (c : Char) : Bool := isBlank c || isBreak c

/-- A space or a line end, but not a tab. -/
def isPause (c : Char) : Bool := c == ' ' || isBreak c

/-- A character of a name. -/
def isNameChar (c : Char) : Bool := Text.isAsciiAlnum c || c == '-' || c == '_'

/-- A comma or a bracket, which ends a plain text inside brackets. -/
def isFlowMark (c : Char) : Bool := [',', '[', ']', '{', '}'].contains c

/-- A character that a document may hold. -/
def isAllowed (c : Char) : Bool :=
  let n := c.toNat
  n == 9 || n == 10 || n == 13 || n == 0x85 || (0x20 ≤ n && n ≤ 0x7E) || (0xA0 ≤ n && n ≤ 0xD7FF)
    || (0xE000 ≤ n && n ≤ 0xFFFD) || 0x10000 ≤ n

/-! ## Cursors -/

/-- A place in a text. -/
structure Cursor where
  rest : List Char
  index : Nat := 0
  line : Nat := 0
  column : Nat := 0

namespace Cursor

/-- The character that stands `k` places on. -/
def look (c : Cursor) (k : Nat) : Option Char := c.rest[k]?

/-- The next place. -/
def next (c : Cursor) : Cursor :=
  match c.rest with
  | [] => c
  | x :: rest =>
    if isBreak x && !(x == '\r' && rest.head? == some '\n') then ⟨rest, c.index + 1, c.line + 1, 0⟩
    else if x == '\uFEFF' then { c with rest, index := c.index + 1 }
    else { c with rest, index := c.index + 1, column := c.column + 1 }

/-- The place some characters on. -/
def skip : Nat → Cursor → Cursor
  | 0, c => c
  | n + 1, c => skip n c.next

/-- The characters of a class in front, and the place behind them. -/
def span (p : Char → Bool) (c : Cursor) : List Char × Cursor :=
  let taken := c.rest.takeWhile p
  (taken, c.skip taken.length)

/-- The place behind the characters of a class. -/
def skipWhile (p : Char → Bool) (c : Cursor) : Cursor := (c.span p).2

/-- Whether a character of a class or the end of the text stands `k` places on. -/
def ends (c : Cursor) (p : Char → Bool) (k : Nat) : Bool := (c.look k).all p

/-- Whether a certain character stands here. -/
def at? (c : Cursor) (x : Char) : Bool := c.look 0 == some x

/-- Whether a separator of documents stands here: three equal marks and a gap. -/
def atMarks (c : Cursor) (x : Char) : Bool := c.rest.take 3 == [x, x, x] && c.ends isGap 3

/-- Whether a mark stands here that starts or ends a document. -/
def atSeparator (c : Cursor) : Bool := c.atMarks '-' || c.atMarks '.'

/-- Passes over a line end. -/
def lineEnd? (c : Cursor) : Option (Char × Cursor) :=
  match c.rest with
  | '\r' :: '\n' :: _ => some ('\n', c.skip 2)
  | x :: _ =>
    if !isBreak x then none
    else if x.toNat == 0x2028 || x.toNat == 0x2029 then some (x, c.next)
    else some ('\n', c.next)
  | [] => none

/-- Passes over a comment, if one stands here, up to its line end. -/
def skipComment (c : Cursor) : Cursor := if c.at? '#' then c.skipWhile (!isBreak ·) else c

/-- Passes over spaces and a comment up to the end of the line, which must follow. -/
def restOfLine? (c : Cursor) : Option Cursor :=
  let c := (c.skipWhile (· == ' ')).skipComment
  if !c.ends isBreak 0 then none
  else match c.lineEnd? with
    | some (_, c) => some c
    | none => some c

end Cursor
end LedSketch.Yaml
