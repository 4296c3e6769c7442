/-!
# Lines of a text

`splitLines` cuts a text wherever a reader of excerpts sees a line end: at line feeds, carriage
returns (a pair counts once), vertical tabs, form feeds, the separators U+001C to U+001E, U+0085,
U+2028 and U+2029. A line end at the very end opens no further line. `unifyNewlines` turns carriage
returns into line feeds, as text files are read.

The excerpts are those of reports (`SPEC_FULL.md:270-273`).
-/

namespace LedSketch.Text

/-- Whether a character ends a line by itself. -/
def isLineEnd (c : Char) : Bool :=
  let n := c.toNat
  (10 ≤ n && n ≤ 13) || (0x1C ≤ n && n ≤ 0x1E) || n == 0x85 || n == 0x2028 || n == 0x2029

/-- The lines of a list of characters, without their ends. -/
def splitLinesFrom : List Char → List Char → List (List Char)
  | [], [] => []
  | line, [] => [line.reverse]
  | line, '\r' :: '\n' :: cs => line.reverse :: splitLinesFrom [] cs
  | line, c :: cs =>
    if isLineEnd c then line.reverse :: splitLinesFrom [] cs else splitLinesFrom (c :: line) cs

/-- The lines of a text, without their ends. -/
def splitLines (s : String) : List String := (splitLinesFrom [] s.toList).map String.ofList

/-- Carriage returns, alone or before a line feed, become line feeds. -/
def unifyNewlines : List Char → List Char
  | [] => []
  | '\r' :: '\n' :: cs => '\n' :: unifyNewlines cs
  | c :: cs => (if c = '\r' then '\n' else c) :: unifyNewlines cs

end LedSketch.Text
