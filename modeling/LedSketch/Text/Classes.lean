import LedSketch.Text.Unicode

/-!
# Character classes and case

The classes that sketches, numbers and messages are read by. Sketch sources know two notions of a
blank: the rewriting passes skip `isSpace`, the grammar skips `isWhiteSpace`, and the four
information separators tell them apart.

* `isSpace_of_isWhiteSpace` — every blank of the grammar is a blank of the rewriting passes;
* `isNameChar_of_isNameStart` — a character that starts a name also continues one.
-/

namespace LedSketch.Text

/-! ## Blanks -/

/-- The White_Space property of the Unicode standard. -/
def isWhiteSpace (c : Char) : Bool :=
  let n := c.toNat
  (9 ≤ n && n ≤ 13) || n == 0x20 || n == 0x85 || n == 0xA0 || n == 0x1680
    || (0x2000 ≤ n && n ≤ 0x200A) || n == 0x2028 || n == 0x2029 || n == 0x202F || n == 0x205F
    || n == 0x3000

/-- White space, or one of the four information separators U+001C to U+001F. -/
def isSpace (c : Char) : Bool :=
  isWhiteSpace c || (0x1C ≤ c.toNat && c.toNat ≤ 0x1F)

theorem isSpace_of_isWhiteSpace {c : Char} (h : isWhiteSpace c = true) : isSpace c = true := by
  simp [isSpace, h]

/-- A space or a tab. -/
def isHorizontal (c : Char) : Bool := c == ' ' || c == '\t'

/-! ## Words and names -/

/-- A letter or digit of ASCII. -/
def isAsciiAlnum (c : Char) : Bool :=
  ('a' ≤ c && c ≤ 'z') || ('A' ≤ c && c ≤ 'Z') || ('0' ≤ c && c ≤ '9')

/-- A letter, a number or an underscore, in any script. -/
def isWordChar (c : Char) : Bool :=
  isAsciiAlnum c || c == '_' || Unicode.oddBelow Unicode.letterOrNumber c.toNat

/-- What a name starts with: an ASCII letter, an underscore or a dollar sign. -/
def isNameStart (c : Char) : Bool :=
  ('a' ≤ c && c ≤ 'z') || ('A' ≤ c && c ≤ 'Z') || c == '_' || c == '$'

/-- What a name goes on with. -/
def isNameChar (c : Char) : Bool := isWordChar c || c == '$'

theorem isNameChar_of_isNameStart {c : Char} (h : isNameStart c = true) : isNameChar c = true := by
  simp only [isNameStart, isNameChar, isWordChar, isAsciiAlnum, Bool.or_eq_true] at h ⊢
  grind

/-! ## Digits -/

/-- The value of a decimal digit, in any script. -/
def decimalDigit? (c : Char) : Option Nat :=
  if '0' ≤ c && c ≤ '9' then some (c.toNat - 48)
  else if c.toNat < 128 then none
  else (Unicode.decimalZeros.find? fun z => z ≤ c.toNat && c.toNat < z + 10).map (c.toNat - ·)

/-- A decimal digit, in any script. -/
def isDecimalDigit (c : Char) : Bool := (decimalDigit? c).isSome

/-- A decimal digit or a digit of another kind, such as a superscript. -/
def isDigit (c : Char) : Bool :=
  isDecimalDigit c || Unicode.oddBelow Unicode.otherDigits c.toNat

/-- The value of an ASCII digit of a base up to 36, in either case. -/
def letterDigit? (c : Char) : Option Nat :=
  if 'a' ≤ c && c ≤ 'z' then some (c.toNat - 87)
  else if 'A' ≤ c && c ≤ 'Z' then some (c.toNat - 55)
  else decimalDigit? c

/-! ## Printed form -/

/-- Whether a character is shown as itself inside quotes. -/
def isPrintable (c : Char) : Bool :=
  let n := c.toNat
  if n < 127 then 32 ≤ n else n ≠ 127 && !Unicode.oddBelow Unicode.unprintable n

/-! ## Case -/

private def runShift (runs : List Unicode.CaseRun) (c : Char) : Char :=
  match runs.findSome? (·.image? c.toNat) with
  | some n => Char.ofNat n
  | none => c

/-- The upper case of a character; a few characters become several. -/
def upperChar (c : Char) : List Char :=
  if c.toNat < 128 then [c.toUpper]
  else match Unicode.longUpper.lookup c.toNat with
    | some ns => ns.map Char.ofNat
    | none => [runShift Unicode.upperRuns c]

/-- The lower case of a character, whatever its neighbours. -/
def lowerChar (c : Char) : List Char :=
  if c.toNat < 128 then [c.toLower]
  else if c.toNat = 0x130 then ['i', Char.ofNat 0x307]
  else [runShift Unicode.lowerRuns c]

/-- Whether the nearest character that counts has a case. -/
def reachesCased : List Char → Bool
  | [] => false
  | c :: cs =>
    if Unicode.oddBelow Unicode.caseIgnorable c.toNat then reachesCased cs
    else Unicode.oddBelow Unicode.cased c.toNat

private def lowerFrom : List Char → List Char → List Char
  | _, [] => []
  | before, c :: cs =>
    let low :=
      if c.toNat = 0x3A3 && reachesCased before && !reachesCased cs then [Char.ofNat 0x3C2]
      else lowerChar c
    low ++ lowerFrom (c :: before) cs

/-- The upper case of a text. -/
def upper (s : String) : String := String.ofList (s.toList.flatMap upperChar)

/-- The lower case of a text; a capital sigma at the end of a word takes its final form. -/
def lower (s : String) : String := String.ofList (lowerFrom [] s.toList)

/-! ## Trimming -/

/-- The list without the blanks at its start. -/
def skipSpace (cs : List Char) : List Char := cs.dropWhile isSpace

/-- The list without the blanks at either end. -/
def trim (cs : List Char) : List Char := (skipSpace (skipSpace cs).reverse).reverse

end LedSketch.Text
