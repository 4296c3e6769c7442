import LedSketch.Document.Refusal

/-!
# JSON documents

A JSON text is read from left to right; the first defect is reported with its place. Besides
standard JSON the names `NaN`, `Infinity` and `-Infinity` are numbers. Of two members of one name
the last one counts, at the place of the first.

* `read` — the datum of a text, or its first defect.
-/

namespace LedSketch.Json

/-- What is wrong with a text. -/
inductive Defect where
  | byteOrderMark
  | noValue
  | noName
  | noColon
  | noComma
  | extraData
  | openText
  | controlCharacter
  | badEscape
  | badCode
deriving DecidableEq, Repr

/-- The words for a defect. -/
def Defect.words : Defect → String
  | byteOrderMark => "Unexpected UTF-8 BOM (decode using utf-8-sig)"
  | noValue => "Expecting value"
  | noName => "Expecting property name enclosed in double quotes"
  | noColon => "Expecting ':' delimiter"
  | noComma => "Expecting ',' delimiter"
  | extraData => "Extra data"
  | openText => "Unterminated string starting at"
  | controlCharacter => "Invalid control character at"
  | badEscape => "Invalid \\escape"
  | badCode => "Invalid \\uXXXX escape"

/-- Why reading stops: a defect, found where so many characters were left, or a mishap. -/
inductive Stop where
  | defect (d : Defect) (left : Nat)
  | mishap (m : Mishap)

/-- A defect in front of what is left. -/
def stopAt {α : Type} (d : Defect) (rest : List Char) : Except Stop α :=
  .error (.defect d rest.length)

/-- A blank between tokens. -/
def isBlank (c : Char) : Bool := c == ' ' || c == '\t' || c == '\n' || c == '\r'

/-- What is left behind blanks. -/
def skipBlanks (cs : List Char) : List Char := cs.dropWhile isBlank

/-! ## Texts -/

/-- The character that a one-letter escape stands for. -/
def shortEscape? : Char → Option Char
  | '"' => some '"'
  | '\\' => some '\\'
  | '/' => some '/'
  | 'b' => some '\x08'
  | 'f' => some '\x0c'
  | 'n' => some '\n'
  | 'r' => some '\r'
  | 't' => some '\t'
  | _ => none

/-- The value of a hexadecimal digit. -/
def hexDigit? (c : Char) : Option Nat :=
  if c.toNat < 128 then (Text.letterDigit? c).filter (· < 16) else none

/-- The value of four hexadecimal digits in front, and what is left; something must be left. -/
def hexCode? (cs : List Char) : Option (Nat × List Char) :=
  if cs.length ≤ 4 then none
  else do
    let ds ← (cs.take 4).mapM hexDigit?
    return (Reading.ofDigits 16 ds, cs.drop 4)

/-- Reads what follows `\u`: one code, or two that together stand for one character. -/
def codeEscape (cs : List Char) : Except Stop (Char × List Char) :=
  match hexCode? cs with
  | none => .error (.defect .badCode (cs.length + 1))
  | some (high, rest) =>
    match rest with
    | '\\' :: 'u' :: more =>
      if 0xD800 ≤ high && high < 0xDC00 && 4 < more.length then
        match hexCode? more with
        | none => .error (.defect .badCode (more.length + 1))
        | some (low, beyond) =>
          if 0xDC00 ≤ low && low < 0xE000 then
            .ok (Char.ofNat (0x10000 + (high - 0xD800) * 0x400 + (low - 0xDC00)), beyond)
          else .ok (Char.ofNat high, rest)
      else .ok (Char.ofNat high, rest)
    | _ => .ok (Char.ofNat high, rest)

/-- The rest of a text behind its opening quote, in front of which `opened` characters were left; in
at most `fuel` characters. -/
def textFrom (opened : Nat) : Nat → List Char → Except Stop (List Char × List Char)
  | fuel + 1, c :: rest =>
    if c = '"' then .ok ([], rest)
    else if c = '\\' then
      match rest with
      | [] => .error (.defect .openText opened)
      | 'u' :: rest => do
        let (d, rest) ← codeEscape rest
        let (ds, rest) ← textFrom opened fuel rest
        return (d :: ds, rest)
      | e :: rest =>
        match shortEscape? e with
        | none => .error (.defect .badEscape (rest.length + 2))
        | some d => do
          let (ds, rest) ← textFrom opened fuel rest
          return (d :: ds, rest)
    else if c.toNat ≤ 0x1F then .error (.defect .controlCharacter (rest.length + 1))
    else do
      let (ds, rest) ← textFrom opened fuel rest
      return (c :: ds, rest)
  | _, _ => .error (.defect .openText opened)

/-- The text behind an opening quote. -/
def text (rest : List Char) : Except Stop (String × List Char) := do
  let (cs, rest) ← textFrom (rest.length + 1) (rest.length + 1) rest
  return (String.ofList cs, rest)

/-! ## Numbers -/

/-- An ASCII digit. -/
def isAsciiDigit (c : Char) : Bool := '0' ≤ c && c ≤ '9'

/-- Digits in front, and what is left. -/
def digits (cs : List Char) : List Nat × List Char :=
  ((cs.takeWhile isAsciiDigit).map fun c => c.toNat - 48, cs.dropWhile isAsciiDigit)

/-- A minus sign in front, and what is left. -/
def minus : List Char → Bool × List Char
  | '-' :: cs => (true, cs)
  | cs => (false, cs)

/-- The whole part of a number: one zero, or digits that start with another. -/
def whole : List Char → List Nat × List Char
  | '0' :: cs => ([0], cs)
  | cs => digits cs

/-- The fraction of a number, if one stands in front. -/
def fraction (cs : List Char) : Option (List Nat) × List Char :=
  match cs with
  | '.' :: rest =>
    let (ds, beyond) := digits rest
    if ds.isEmpty then (none, cs) else (some ds, beyond)
  | _ => (none, cs)

/-- The exponent of a number, if one stands in front. -/
def exponent (cs : List Char) : Option Int × List Char :=
  match cs with
  | e :: rest =>
    if e = 'e' || e = 'E' then
      let (negative, rest) := Reading.takeSign rest
      let (ds, beyond) := digits rest
      if ds.isEmpty then (none, cs)
      else
        let n : Int := Reading.ofDigits 10 ds
        (some (if negative then -n else n), beyond)
    else (none, cs)
  | [] => (none, cs)

/-- The number in front. -/
def number (cs : List Char) : Except Stop (Number × List Char) :=
  let (negative, rest) := minus cs
  let (whole, rest) := whole rest
  if whole.isEmpty then stopAt .noValue cs
  else
    let (fraction, rest) := fraction rest
    let (exponent, rest) := exponent rest
    if fraction.isNone && exponent.isNone then
      if Reading.digitLimit < whole.length then .error (.mishap (.numeralTooLong whole.length))
      else
        let n : Int := Reading.ofDigits 10 whole
        .ok (.int (if negative then -n else n), rest)
    else
      let ds := fraction.getD []
      .ok (.float (Reading.ofDecimal negative (whole ++ ds) (exponent.getD 0 - ds.length)), rest)

/-! ## Values -/

/-- The words that are values. -/
def words : List (List Char × Datum) :=
  [("null".toList, .null), ("true".toList, .bool true), ("false".toList, .bool false),
    ("NaN".toList, .num .nan), ("Infinity".toList, .num (.float (Binary64.signedInfinity false))),
    ("-Infinity".toList, .num (.float (Binary64.signedInfinity true)))]

/-- A word or a number in front. -/
def scalar (cs : List Char) : Except Stop (Datum × List Char) :=
  match words.find? fun w => w.1.isPrefixOf cs with
  | some w => .ok (w.2, cs.drop w.1.length)
  | none => do
    let (n, rest) ← number cs
    return (.num n, rest)

mutual

/-- The value in front; every step takes a character, of which there are less than `fuel`. -/
def value : Nat → List Char → Except Stop (Datum × List Char)
  | _ + 1, '"' :: rest => do
    let (s, rest) ← text rest
    return (.str s, rest)
  | fuel + 1, '{' :: rest =>
    match skipBlanks rest with
    | '}' :: rest => .ok (.map [], rest)
    | rest => members fuel [] rest
  | fuel + 1, '[' :: rest =>
    match skipBlanks rest with
    | ']' :: rest => .ok (.list [], rest)
    | rest => elements fuel [] rest
  | _, cs => scalar cs

/-- Members up to the closing brace, behind those already read. -/
def members : Nat → List (Datum × Datum) → List Char → Except Stop (Datum × List Char)
  | fuel + 1, entries, '"' :: rest => do
    let (name, rest) ← text rest
    match skipBlanks rest with
    | ':' :: rest =>
      let (v, rest) ← value fuel (skipBlanks rest)
      let entries := Datum.put entries (.str name) v
      match skipBlanks rest with
      | '}' :: rest => .ok (.map entries, rest)
      | ',' :: rest => members fuel entries (skipBlanks rest)
      | rest => stopAt .noComma rest
    | rest => stopAt .noColon rest
  | _, _, rest => stopAt .noName rest

/-- Elements up to the closing bracket, behind those already read, the last first. -/
def elements : Nat → List Datum → List Char → Except Stop (Datum × List Char)
  | fuel + 1, items, rest => do
    let (v, rest) ← value fuel rest
    match skipBlanks rest with
    | ']' :: rest => .ok (.list (v :: items).reverse, rest)
    | ',' :: rest => elements fuel (v :: items) (skipBlanks rest)
    | rest => stopAt .noComma rest
  | 0, _, rest => stopAt .noValue rest

end

/-- The datum of a whole text. -/
def document (cs : List Char) : Except Stop Datum :=
  if cs.head? = some '\uFEFF' then stopAt .byteOrderMark cs
  else do
    let (d, rest) ← value (cs.length + 1) (skipBlanks cs)
    match skipBlanks rest with
    | [] => .ok d
    | rest => stopAt .extraData rest

/-! ## Places -/

/-- The line and column behind some characters. -/
def lineAndColumn (before : List Char) : Nat × Nat :=
  ((before.filter (· == '\n')).length + 1, (before.reverse.takeWhile (· != '\n')).length + 1)

/-- The words for a defect with its place in the text. -/
def Defect.report (d : Defect) (cs : List Char) (left : Nat) : String :=
  let offset := cs.length - left
  let (line, column) := lineAndColumn (cs.take offset)
  s!"{d.words}: line {line} column {column} (char {offset})"

/-- Reads a document; a defect is reported with its place. -/
def read (s : String) : Except Refusal Datum :=
  match document s.toList with
  | .ok d => .ok d
  | .error (.defect d left) => .error (.badJson (d.report s.toList left))
  | .error (.mishap m) => .error (.mishap m)

end LedSketch.Json
