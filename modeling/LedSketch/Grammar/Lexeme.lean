import LedSketch.Text.Classes

/-!
# Lexemes of the host form

A `Lexeme` looks at what is left of a source and says how many characters it takes, or refuses. The
lexemes of the host form are defined here one by one: blanks and comments, the end of a statement,
words, operators, and the literals.

They embed the patterns of `grammar/lumalab_grammar.yaml`: `gap` that of rule `_` (line 28),
`endOfStatement?` of `eos` (line 33), `numeral?` of `number` (line 592), `string?` of `string` (line
596), `chunk?` of `template_chunk` (line 613), `identifier?` of `identifier` (line 638), and
`property?` of `property_name` (line 532).

* `Lexeme.word` takes a word only where no longer name starts;
* `endOfStatement?` reads on over blanks and comments of the same line;
* `numeral?` is the one lexeme that gives a character back: a point after whole digits belongs to a
  member access if the numeral cannot go on behind it.
-/

namespace LedSketch.Grammar

open Text

/-- How many characters of what is left belong to the lexeme. -/
abbrev Lexeme := List Char → Option Nat

/-- Whether the list starts with a character that satisfies `p`. -/
def startsWith (p : Char → Bool) : List Char → Bool
  | [] => false
  | c :: _ => p c

/-- The number of characters at the start that satisfy `p`. -/
def runLength (p : Char → Bool) (cs : List Char) : Nat := (cs.takeWhile p).length

/-! ## Fixed texts -/

namespace Lexeme

/-- Exactly this text. -/
def literal (s : String) : Lexeme := fun cs =>
  if s.toList.isPrefixOf cs then some s.toList.length else none

/-- This text, unless a character of `stop` follows. -/
def notBefore (stop : String) (s : String) : Lexeme := fun cs =>
  match literal s cs with
  | some n => if startsWith stop.toList.contains (cs.drop n) then none else some n
  | none => none

/-- This word, where no longer name starts. -/
def word (s : String) : Lexeme := fun cs =>
  match literal s cs with
  | some n => if startsWith isNameChar (cs.drop n) then none else some n
  | none => none

/-- The first of the lexemes that fits. -/
def firstOf (ms : List Lexeme) : Lexeme := fun cs => ms.findSome? fun m => m cs

/-- Spaces and tabs before the lexeme. -/
def indented (m : Lexeme) : Lexeme := fun cs =>
  let n := runLength isHorizontal cs
  (m (cs.drop n)).map (n + ·)

end Lexeme

/-! ## Blanks and comments -/

/-- The number of characters up to and with the next comment end. -/
def commentEnd? : List Char → Option Nat
  | [] => none
  | '*' :: '/' :: _ => some 2
  | _ :: cs => (commentEnd? cs).map (· + 1)

/-- The number of characters of the white space and comments at the start. An open block comment is
no comment. -/
def gapLength : List Char → Nat
  | [] => 0
  | '/' :: '/' :: cs =>
    let n := runLength (· ≠ '\n') cs
    2 + n + gapLength (cs.drop n)
  | '/' :: '*' :: cs =>
    match commentEnd? cs with
    | some n => 2 + n + gapLength (cs.drop n)
    | none => 0
  | c :: cs => if isWhiteSpace c then 1 + gapLength cs else 0
termination_by cs => cs.length
decreasing_by all_goals simp [List.length_drop]; try omega

/-- White space and comments, possibly none. -/
def gap : Lexeme := fun cs => some (gapLength cs)

mutual

/-- The end of a statement: a semicolon, a line break, or the place before a line comment, a closing
brace or the end of the source. Blanks and comments of the same line come before it. -/
def endOfStatement? : List Char → Option Nat
  | [] => some 0
  | c :: cs =>
    if isHorizontal c then (endOfStatement? cs).map (· + 1)
    else if c = ';' || c = '\n' then some 1
    else if c = '}' then some 0
    else match c, cs with
      | '\r', '\n' :: _ => some 2
      | '/', '/' :: _ => some 0
      | '/', '*' :: cs => (endBehindComment? cs).map (· + 2)
      | _, _ => none
termination_by cs => cs.length

/-- The end of a statement behind a comment that ends on the same line, at the first comment end
that has one behind it. -/
def endBehindComment? : List Char → Option Nat
  | [] => none
  | '*' :: '/' :: cs =>
    match endOfStatement? cs with
    | some n => some (n + 2)
    | none => (endBehindComment? ('/' :: cs)).map (· + 1)
  | c :: cs => if c = '\n' then none else (endBehindComment? cs).map (· + 1)
termination_by cs => cs.length

end

/-- The white space before a trailing comma, and the comma. -/
def trailingComma? : Lexeme := fun cs =>
  let n := runLength isWhiteSpace cs
  if startsWith (· == ',') (cs.drop n) then some (n + 1) else none

/-- Spaces and tabs before a value that starts on the same line. -/
def sameLine? : Lexeme := fun cs =>
  let n := runLength isHorizontal cs
  if startsWith (fun c => !isWhiteSpace c && c ≠ ';' && c ≠ '}') (cs.drop n) then some n else none

/-! ## Names -/

/-- The words that cannot be names. -/
def reservedWords : List String :=
  ["let", "const", "var", "function", "async", "await", "if", "else", "for", "while", "do",
    "return", "break", "continue", "typeof", "true", "false", "null", "undefined", "new"]

/-- A name, reserved or not. -/
def property? : Lexeme := fun cs =>
  match cs with
  | [] => none
  | c :: rest => if isNameStart c then some (runLength isNameChar rest + 1) else none

/-- A name that is not reserved. -/
def identifier? : Lexeme := fun cs =>
  match property? cs with
  | some n => if reservedWords.contains (String.ofList (cs.take n)) then none else some n
  | none => none

/-! ## Literals -/

/-- A hexadecimal digit of ASCII. -/
def isHexDigit (c : Char) : Bool :=
  ('0' ≤ c && c ≤ '9') || ('a' ≤ c && c ≤ 'f') || ('A' ≤ c && c ≤ 'F')

/-- An exponent mark with a sign or none and its digits; nothing if it has no digits. -/
def exponentLength (cs : List Char) : Nat :=
  match cs with
  | e :: rest =>
    if e = 'e' || e = 'E' then
      let sign := if startsWith (fun c => c == '+' || c == '-') rest then 1 else 0
      let digits := runLength isDecimalDigit (rest.drop sign)
      if digits = 0 then 0 else 1 + sign + digits
    else 0
  | [] => 0

/-- A numeral with the mark of its base. -/
def markedNumeral? (cs : List Char) : Option Nat :=
  match cs with
  | '0' :: m :: rest =>
    let n :=
      if m = 'x' || m = 'X' then runLength isHexDigit rest
      else if m = 'b' || m = 'B' then runLength (fun c => c == '0' || c == '1') rest
      else 0
    if n = 0 then none else some (n + 2)
  | _ => none

/-- A decimal numeral without regard to what follows, and the digits before its point, if it has
both. -/
def decimalNumeral? (cs : List Char) : Option (Nat × Option Nat) :=
  let whole := runLength isDecimalDigit cs
  if whole = 0 then
    match cs with
    | '.' :: rest =>
      let n := runLength isDecimalDigit rest
      if n = 0 then none else some (1 + n + exponentLength (rest.drop n), none)
    | _ => none
  else
    match cs.drop whole with
    | '.' :: rest =>
      let n := runLength isDecimalDigit rest
      some (whole + 1 + n + exponentLength (rest.drop n), some whole)
    | rest => some (whole + exponentLength rest, none)

/-- A numeral that no name goes on from. If one does behind the point, the numeral ends before the
point. -/
def numeral? : Lexeme := fun cs =>
  let free (n : Nat) : Bool := !startsWith isNameChar (cs.drop n)
  match (markedNumeral? cs).filter free with
  | some n => some n
  | none =>
    match decimalNumeral? cs with
    | some (n, whole) => if free n then some n else whole
    | none => none

/-- The number of characters of a string behind its opening quote, with the closing one. -/
def stringTail? (q : Char) : List Char → Option Nat
  | [] => none
  | '\\' :: _ :: cs => (stringTail? q cs).map (· + 2)
  | c :: cs =>
    if c = q then some 1
    else if c = '\n' || c = '\\' then none
    else (stringTail? q cs).map (· + 1)

/-- A string in single or double quotes, on one line unless escaped. -/
def string? : Lexeme := fun cs =>
  match cs with
  | c :: rest => if c = '"' || c = '\'' then (stringTail? c rest).map (· + 1) else none
  | [] => none

/-- The number of characters of template text at the start: escapes are units, and an interpolation
or the end of the template stops it. -/
def chunkLength : List Char → Nat
  | [] => 0
  | '\\' :: _ :: cs => 2 + chunkLength cs
  | '$' :: '{' :: _ => 0
  | c :: cs => if c = '\x60' || c = '\\' then 0 else 1 + chunkLength cs

/-- Template text, at least one character. -/
def chunk? : Lexeme := fun cs =>
  let n := chunkLength cs
  if n = 0 then none else some n

end LedSketch.Grammar
