import LedSketch.Text.Classes

/-!
# Quoted text

How a message shows a text between quotes: single quotes unless the text holds a single quote and no
double one, a backslash before the delimiter and before backslashes, the short escapes for line
feed, carriage return and tab, and hexadecimal escapes for what has no printed form.
-/

namespace LedSketch.Text

private def hexDigitsAux : Nat → Nat → List Char
  | 0, _ => []
  | k + 1, n => hexDigitsAux k (n / 16) ++ [Nat.digitChar (n % 16)]

/-- The last `width` hexadecimal digits of `n`, in lower case. -/
def hexFixed (width n : Nat) : List Char := hexDigitsAux width n

/-- One character between quotes of the kind `q`. -/
def quoteChar (q c : Char) : List Char :=
  if c = q || c = '\\' then ['\\', c]
  else if c = '\n' then ['\\', 'n']
  else if c = '\r' then ['\\', 'r']
  else if c = '\t' then ['\\', 't']
  else if isPrintable c then [c]
  else if c.toNat < 0x100 then '\\' :: 'x' :: hexFixed 2 c.toNat
  else if c.toNat < 0x10000 then '\\' :: 'u' :: hexFixed 4 c.toNat
  else '\\' :: 'U' :: hexFixed 8 c.toNat

/-- The quote that encloses a text: the single one unless only the double one stays unescaped. -/
def quoteFor (cs : List Char) : Char :=
  if cs.contains '\'' && !cs.contains '"' then '"' else '\''

/-- A text between quotes, as messages and stack lines show it. -/
def quoted (s : String) : String :=
  let cs := s.toList
  let q := quoteFor cs
  String.ofList (q :: cs.flatMap (quoteChar q) ++ [q])

end LedSketch.Text
