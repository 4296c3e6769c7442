import LedSketch.Document.Json
import LedSketch.Document.Moment
import LedSketch.Document.Refusal

/-!
# TOML documents

A TOML text is a sequence of statements, one a line: headers that open tables, and pairs of a key
and a value that go into the table last opened. Keys may be dotted; what a statement has opened or
fixed, later statements may not open or change, which is kept as marks on paths.

* `read` — the table of a text.
-/

namespace LedSketch.Toml

/-- The members of a table. -/
abbrev Table := List (Datum × Datum)

/-- A dotted key. -/
abbrev Path := List String

/-- Refuses the text. -/
def refuse {α : Type} : Except Refusal α := .error .badToml

/-- What is found, or a refusal. -/
def need {α : Type} : Option α → Except Refusal α
  | some a => .ok a
  | none => refuse

/-! ## Characters -/

/-- A space or a tab. -/
def isBlank (c : Char) : Bool := c == ' ' || c == '\t'

/-- A blank or a line feed. -/
def isGap (c : Char) : Bool := isBlank c || c == '\n'

/-- A character of a key without quotes. -/
def isKeyChar (c : Char) : Bool := Text.isAsciiAlnum c || c == '-' || c == '_'

/-- A control character other than a tab, which no text may hold. -/
def isControl (c : Char) : Bool := (c.toNat < 32 && c != '\t') || c.toNat == 127

/-- What is left behind blanks. -/
def skipBlanks (cs : List Char) : List Char := cs.dropWhile isBlank

/-- What is left behind a comment, if one stands in front. -/
def skipComment (cs : List Char) : Except Refusal (List Char) :=
  match cs with
  | '#' :: rest =>
    if (rest.takeWhile (· != '\n')).any isControl then refuse else .ok (rest.dropWhile (· != '\n'))
  | _ => .ok cs

/-- What is left behind gaps and comments, at most `fuel` of them. -/
def skipGaps : Nat → List Char → Except Refusal (List Char)
  | 0, cs => .ok cs
  | fuel + 1, cs => do
    let rest ← skipComment (cs.dropWhile isGap)
    if rest.length = cs.length then return rest else skipGaps fuel rest

/-! ## Texts -/

/-- The character of a code of `count` hexadecimal digits. -/
def code (count : Nat) (cs : List Char) : Except Refusal (Char × List Char) := do
  let ds ← need ((cs.take count).mapM Json.hexDigit?)
  let n := Reading.ofDigits 16 ds
  if ds.length = count && n.isValidChar then return (Char.ofNat n, cs.drop count) else refuse

/-- The character that a one-letter escape stands for. -/
def shortEscape? : Char → Option Char
  | '/' => none
  | c => Json.shortEscape? c

/-- What is left behind an escaped line end: the gaps that follow it. Between the backslash and the
line end there may be blanks. -/
def joinLines (cs : List Char) : Except Refusal (List Char) :=
  match skipBlanks cs with
  | [] => .ok []
  | '\n' :: rest => .ok (rest.dropWhile isGap)
  | _ => refuse

/-- The rest of a text with escapes, in at most `fuel` steps. -/
def basicFrom (manyLines : Bool) : Nat → List Char → Except Refusal (List Char × List Char)
  | 0, _ => refuse
  | _, [] => refuse
  | fuel + 1, c :: rest =>
    if c = '"' then
      if !manyLines then .ok ([], rest)
      else if ['"', '"'].isPrefixOf rest then .ok ([], rest.drop 2)
      else do
        let (ds, rest) ← basicFrom manyLines fuel rest
        return (c :: ds, rest)
    else if c = '\\' then
      match rest with
      | [] => refuse
      | e :: beyond =>
        if manyLines && isGap e then do
          let rest ← joinLines rest
          basicFrom manyLines fuel rest
        else do
          let (d, rest) ←
            if e = 'u' then code 4 beyond
            else if e = 'U' then code 8 beyond
            else (need (shortEscape? e)).map fun d => (d, beyond)
          let (ds, rest) ← basicFrom manyLines fuel rest
          return (d :: ds, rest)
    else if isControl c && !(manyLines && c == '\n') then refuse
    else do
      let (ds, rest) ← basicFrom manyLines fuel rest
      return (c :: ds, rest)

/-- The rest of a text without escapes, up to its closing quotes. -/
def literalFrom (manyLines : Bool) : List Char → Except Refusal (List Char × List Char)
  | [] => refuse
  | c :: rest =>
    if c = '\'' && !manyLines then .ok ([], rest)
    else if c = '\'' && ['\'', '\''].isPrefixOf rest then .ok ([], rest.drop 2)
    else if isControl c && !(manyLines && c == '\n') then refuse
    else do
      let (ds, rest) ← literalFrom manyLines rest
      return (c :: ds, rest)

/-- Up to two quotes that stand in front of the closing ones belong to the text. -/
def extraQuotes (q : Char) (cs : List Char) (rest : List Char) : String × List Char :=
  let extra := (rest.take 2).takeWhile (· == q)
  (String.ofList (cs ++ extra), rest.drop extra.length)

/-- The text in front, of one line. -/
def lineText (cs : List Char) : Except Refusal (String × List Char) := do
  let (cs, rest) ← match cs with
    | '"' :: rest => basicFrom false (rest.length + 1) rest
    | '\'' :: rest => literalFrom false rest
    | _ => refuse
  return (String.ofList cs, rest)

/-- The text behind three quotes `q`; a line feed right behind them does not count. -/
def longText (q : Char) (cs : List Char) : Except Refusal (String × List Char) := do
  let cs := match cs with
    | '\n' :: rest => rest
    | cs => cs
  let (cs, rest) ← if q = '"' then basicFrom true (cs.length + 1) cs else literalFrom true cs
  return extraQuotes q cs rest

/-- The text in front. -/
def text (cs : List Char) : Except Refusal (String × List Char) :=
  match cs with
  | '"' :: '"' :: '"' :: rest => longText '"' rest
  | '\'' :: '\'' :: '\'' :: rest => longText '\'' rest
  | cs => lineText cs

/-! ## Keys -/

/-- One part of a key. -/
def keyPart (cs : List Char) : Except Refusal (String × List Char) :=
  match cs with
  | c :: _ =>
    if isKeyChar c then .ok (String.ofList (cs.takeWhile isKeyChar), cs.dropWhile isKeyChar)
    else lineText cs
  | [] => refuse

/-- A dotted key of at most `fuel` parts, and the blanks behind it. -/
def keyFrom : Nat → List Char → Except Refusal (Path × List Char)
  | 0, _ => refuse
  | fuel + 1, cs => do
    let (part, rest) ← keyPart cs
    match skipBlanks rest with
    | '.' :: rest =>
      let (parts, rest) ← keyFrom fuel (skipBlanks rest)
      return (part :: parts, rest)
    | rest => return ([part], rest)

/-- The key in front. -/
def key (cs : List Char) : Except Refusal (Path × List Char) := keyFrom (cs.length + 1) cs

/-! ## Numbers -/

/-- A digit of a base. -/
def digitOf (base : Nat) (c : Char) : Option Nat := (Json.hexDigit? c).filter (· < base)

/-- Digits with single underscores between them, and what is left. -/
def digitRun (base : Nat) : List Char → List Nat × List Char
  | [] => ([], [])
  | c :: rest => match digitOf base c with
    | none => ([], c :: rest)
    | some d =>
      match rest with
      | '_' :: e :: beyond =>
        if (digitOf base e).isSome then
          let (ds, rest) := digitRun base (e :: beyond)
          (d :: ds, rest)
        else ([d], rest)
      | rest =>
        let (ds, rest) := digitRun base rest
        (d :: ds, rest)

/-- The base that a letter behind a zero stands for. -/
def baseOf? : Char → Option Nat
  | 'x' => some 16
  | 'o' => some 8
  | 'b' => some 2
  | _ => none

/-- A number with the mark of its base in front. -/
def basedNumber? (cs : List Char) : Option (Number × List Char) :=
  match cs with
  | '0' :: m :: rest => do
    let base ← baseOf? m
    let (ds, rest) := digitRun base rest
    if ds.isEmpty then none else return (.int (Reading.ofDigits base ds), rest)
  | _ => none

/-- A fraction, if one stands in front. -/
def fraction (cs : List Char) : Option (List Nat) × List Char :=
  match cs with
  | '.' :: rest =>
    let (ds, beyond) := digitRun 10 rest
    if ds.isEmpty then (none, cs) else (some ds, beyond)
  | _ => (none, cs)

/-- An exponent, if one stands in front. -/
def exponent (cs : List Char) : Option Int × List Char :=
  match cs with
  | e :: rest =>
    if e = 'e' || e = 'E' then
      let (negative, rest) := Reading.takeSign rest
      let (ds, beyond) := digitRun 10 rest
      if ds.isEmpty then (none, cs)
      else
        let n : Int := Reading.ofDigits 10 ds
        (some (if negative then -n else n), beyond)
    else (none, cs)
  | [] => (none, cs)

/-- The whole part of a decimal number: one zero, or digits that start with another. -/
def whole : List Char → List Nat × List Char
  | '0' :: cs => ([0], cs)
  | cs => digitRun 10 cs

/-- A decimal number. -/
def decimalNumber (cs : List Char) : Except Refusal (Number × List Char) :=
  let (negative, rest) := Reading.takeSign cs
  let (whole, rest) := whole rest
  if whole.isEmpty then refuse
  else
    let (fraction, rest) := fraction rest
    let (exponent, rest) := exponent rest
    if fraction.isNone && exponent.isNone then
      if Reading.digitLimit < whole.length then .error (.mishap (.numeralTooLong whole.length))
      else
        let n : Int := Reading.ofDigits 10 whole
        .ok (.int (if negative then -n else n), rest)
    else
      let ds := fraction.getD []
      .ok (.float (Reading.ofDecimal negative (whole ++ ds) (exponent.getD 0 - ds.length)), rest)

/-- The names of numbers. -/
def numberNames : List (List Char × Number) :=
  let inf (negative : Bool) : Number := .float (Binary64.signedInfinity negative)
  [("inf".toList, inf false), ("+inf".toList, inf false), ("-inf".toList, inf true),
    ("nan".toList, .nan), ("+nan".toList, .nan), ("-nan".toList, .nan)]

/-- A number in front. -/
def number (cs : List Char) : Except Refusal (Number × List Char) :=
  match basedNumber? cs with
  | some r => .ok r
  | none => match numberNames.find? fun w => w.1.isPrefixOf cs with
    | some w => .ok (w.2, cs.drop w.1.length)
    | none => decimalNumber cs

/-! ## Dates and times -/

/-- A number of two digits up to a bound. -/
def pair? (most : Nat) (cs : List Char) : Option (Nat × List Char) := do
  let (n, rest) ← Moment.fixedDigits? 2 cs
  if n ≤ most then return (n, rest) else none

/-- Millionths of a second, of as many digits as there are. -/
def micro (cs : List Char) : Nat × List Char :=
  match fraction cs with
  | (some _, _) =>
    let ds := (cs.drop 1).takeWhile Json.isAsciiDigit
    (Moment.millionths ds, cs.drop (ds.length + 1))
  | (none, rest) => (0, rest)

/-- A time in front. -/
def time? (cs : List Char) : Option (ClockTime × List Char) := do
  let (hour, rest) ← pair? 23 cs
  let (minute, rest) ← pair? 59 (← Moment.mark? ':' rest)
  let (second, rest) ← pair? 59 (← Moment.mark? ':' rest)
  let (micro, rest) := micro rest
  return (⟨hour, minute, second, micro⟩, rest)

/-- How far a clock is ahead, in minutes, if that stands in front. -/
def zone (cs : List Char) : Option Int × List Char :=
  match cs with
  | s :: rest =>
    if s = 'Z' || s = 'z' then (some 0, rest)
    else if s = '+' || s = '-' then
      let offset? : Option (Nat × List Char) := do
        let (hours, rest) ← pair? 23 rest
        let (minutes, rest) ← pair? 59 (← Moment.mark? ':' rest)
        return (hours * 60 + minutes, rest)
      match offset? with
      | some (n, rest) => (some (if s = '-' then -(n : Int) else n), rest)
      | none => (none, cs)
    else (none, cs)
  | [] => (none, cs)

/-- A date in front, whose month and day are possible ones. -/
def date? (cs : List Char) : Option (Date × List Char) := do
  let (year, rest) ← Moment.fixedDigits? 4 cs
  let (month, rest) ← pair? 12 (← Moment.mark? '-' rest)
  let (day, rest) ← pair? 31 (← Moment.mark? '-' rest)
  if month = 0 || day = 0 then none else return (⟨year, month, day⟩, rest)

/-- The time behind a date, if there is one. -/
def timeBehind? (cs : List Char) : Option (ClockTime × List Char) :=
  match cs with
  | c :: rest => if c = 'T' || c = 't' || c = ' ' then time? rest else none
  | [] => none

/-- A date or a time in front; a date that is not in the calendar is refused. -/
def moment? (cs : List Char) : Option (Except Refusal (Datum × List Char)) :=
  match date? cs with
  | some (d, rest) => some (
      if d.problem?.isSome then refuse
      else match timeBehind? rest with
        | none => .ok (d.datum, rest)
        | some (t, rest) =>
          let (zone, rest) := zone rest
          .ok (d.withTime t zone, rest))
  | none => (time? cs).map fun (t, rest) => .ok (t.datum, rest)

/-! ## Tables -/

/-- Changes the table at a path, which is opened where it is missing. A list stands for its last
table, if `throughLists`. -/
def Table.modifyAt? (throughLists : Bool) (f : Table → Option Table) : Path → Table → Option Table
  | [], t => f t
  | k :: ks, t => do
    let put (d : Datum) : Table := Datum.put t (.str k) d
    match Datum.lookup? k t with
    | none => return put (.map (← Table.modifyAt? throughLists f ks []))
    | some (.map inner) => return put (.map (← Table.modifyAt? throughLists f ks inner))
    | some (.list items) =>
      match throughLists, items.getLast? with
      | true, some (.map inner) =>
        let last ← Table.modifyAt? throughLists f ks inner
        return put (.list (items.dropLast ++ [.map last]))
      | _, _ => none
    | some _ => none

/-- Adds a member to a table that has none of that name. -/
def Table.add? (name : String) (d : Datum) (t : Table) : Option Table :=
  if (Datum.lookup? name t).isSome then none else some (Datum.put t (.str name) d)

/-- Adds an empty table to a list of tables, which is opened where it is missing. -/
def Table.addToList? (name : String) (t : Table) : Option Table :=
  match Datum.lookup? name t with
  | none => some (Datum.put t (.str name) (.list [.map []]))
  | some (.list items) => some (Datum.put t (.str name) (.list (items ++ [.map []])))
  | some _ => none

/-- What is known of a path. -/
inductive Mark where
  /-- Nothing at or under it may be changed. -/
  | frozen
  /-- It may not be opened again. -/
  | opened
deriving DecidableEq

/-- The marks of all paths. -/
abbrev Marks := List (Path × Mark)

/-- Whether a path carries a mark. -/
def Marks.has (ms : Marks) (p : Path) (m : Mark) : Bool :=
  !p.isEmpty && ms.any fun (q, n) =>
    n == m && (match m with
      | .frozen => q.isPrefixOf p
      | .opened => q == p)

/-- Whether a value keeps others. -/
def isContainer : Datum → Bool
  | .map _ | .list _ => true
  | _ => false

/-- The words that are values. -/
def words : List (List Char × Datum) := [("true".toList, .bool true), ("false".toList, .bool false)]

/-- The last name of a path, and the names in front of it. -/
def splitLast (p : Path) : Path × String := (p.dropLast, p.getLastD "")

/-- A value that is neither list nor table. -/
def scalar (cs : List Char) : Except Refusal (Datum × List Char) :=
  match cs with
  | [] => refuse
  | c :: _ =>
    if c = '"' || c = '\'' then (text cs).map fun (s, rest) => (.str s, rest)
    else match words.find? fun w => w.1.isPrefixOf cs with
      | some w => .ok (w.2, cs.drop w.1.length)
      | none => match moment? cs with
        | some r => r
        | none => (number cs).map fun (n, rest) => (.num n, rest)

mutual

/-- The value in front; every step takes a character, of which there are less than `fuel`. -/
def value : Nat → List Char → Except Refusal (Datum × List Char)
  | fuel + 1, '[' :: rest => do
    let rest ← skipGaps rest.length rest
    elements fuel [] rest
  | fuel + 1, '{' :: rest =>
    match skipBlanks rest with
    | '}' :: rest => .ok (.map [], rest)
    | rest => members fuel [] [] rest
  | _, cs => scalar cs

/-- Elements up to the closing bracket, behind those already read, the last first. -/
def elements : Nat → List Datum → List Char → Except Refusal (Datum × List Char)
  | _, items, ']' :: rest => .ok (.list items.reverse, rest)
  | 0, _, _ => refuse
  | fuel + 1, items, rest => do
    let (d, rest) ← value fuel rest
    match ← skipGaps rest.length rest with
    | ']' :: rest => return (.list (d :: items).reverse, rest)
    | ',' :: rest => elements fuel (d :: items) (← skipGaps rest.length rest)
    | _ => refuse

/-- Members up to the closing brace, behind those already read. -/
def members : Nat → Table → Marks → List Char → Except Refusal (Datum × List Char)
  | 0, _, _, _ => refuse
  | fuel + 1, t, marks, rest => do
    let (path, d, rest) ← pair fuel rest
    let (parent, name) := splitLast path
    if marks.has path .frozen then refuse
    else
      let t ← need (t.modifyAt? false (Table.add? name d) parent)
      match skipBlanks rest with
      | '}' :: rest => return (.map t, rest)
      | ',' :: rest =>
        let marks := if isContainer d then (path, .frozen) :: marks else marks
        members fuel t marks (skipBlanks rest)
      | _ => refuse

/-- A key with its value. -/
def pair : Nat → List Char → Except Refusal (Path × Datum × List Char)
  | 0, _ => refuse
  | fuel + 1, cs => do
    let (path, rest) ← key cs
    match rest with
    | '=' :: rest =>
      let (d, rest) ← value fuel (skipBlanks rest)
      return (path, d, rest)
    | _ => refuse

end

/-! ## Statements -/

/-- What has been read of a document. -/
structure Draft where
  table : Table := []
  marks : Marks := []
  /-- Paths to be marked as opened at the next header. -/
  pending : List Path := []
  header : Path := []

/-- Opens a table by its header. -/
def Draft.openTable (d : Draft) (p : Path) : Except Refusal Draft :=
  if d.marks.has p .opened || d.marks.has p .frozen then refuse
  else do
    let table ← need (d.table.modifyAt? true some p)
    return { d with table, marks := (p, .opened) :: d.marks, header := p }

/-- Adds a table to a list of tables by its header. -/
def Draft.openItem (d : Draft) (p : Path) : Except Refusal Draft :=
  if d.marks.has p .frozen then refuse
  else do
    let (parent, name) := splitLast p
    let table ← need (d.table.modifyAt? true (Table.addToList? name) parent)
    let marks := d.marks.filter fun m => !p.isPrefixOf m.1
    return { d with table, marks := (p, .opened) :: marks, header := p }

/-- Adds a member to the table last opened. -/
def Draft.add (d : Draft) (p : Path) (v : Datum) : Except Refusal Draft :=
  let (parent, name) := splitLast p
  let inner := (List.range p.length).drop 1 |>.map fun n => d.header ++ p.take n
  if inner.any fun q => d.marks.has q .opened then refuse
  else if d.marks.has (d.header ++ parent) .frozen then refuse
  else do
    let table ← need (d.table.modifyAt? true (Table.add? name v) (d.header ++ parent))
    let marks := if isContainer v then (d.header ++ p, .frozen) :: d.marks else d.marks
    return { d with table, marks, pending := d.pending ++ inner }

/-- Marks what is pending. -/
def Draft.settle (d : Draft) : Draft :=
  { d with marks := d.pending.map (·, Mark.opened) ++ d.marks, pending := [] }

/-- Reads a header. -/
def header (d : Draft) (cs : List Char) : Except Refusal (Draft × List Char) := do
  let d := d.settle
  match cs with
  | '[' :: rest =>
    let (p, rest) ← key (skipBlanks rest)
    let d ← d.openItem p
    match rest with
    | ']' :: ']' :: rest => return (d, rest)
    | _ => refuse
  | rest =>
    let (p, rest) ← key (skipBlanks rest)
    let d ← d.openTable p
    match rest with
    | ']' :: rest => return (d, rest)
    | _ => refuse

/-- Reads a statement. -/
def statement (d : Draft) (cs : List Char) : Except Refusal (Draft × List Char) :=
  match cs with
  | [] => .ok (d, [])
  | c :: rest =>
    if isKeyChar c || c = '"' || c = '\'' then do
      let (p, v, rest) ← pair (cs.length + 1) cs
      return (← d.add p v, rest)
    else if c = '[' then header d rest
    else if c = '#' || c = '\n' then .ok (d, cs)
    else refuse

/-- Reads statements, at most one for each character. -/
def statements : Nat → Draft → List Char → Except Refusal Draft
  | 0, d, _ => .ok d
  | fuel + 1, d, cs => do
    let (d, rest) ← statement d (skipBlanks cs)
    match ← skipComment (skipBlanks rest) with
    | [] => return d
    | '\n' :: rest => statements fuel d rest
    | _ => refuse

/-- A carriage return before a line feed does not count. -/
def unifyLineEnds : List Char → List Char
  | '\r' :: '\n' :: cs => '\n' :: unifyLineEnds cs
  | c :: cs => c :: unifyLineEnds cs
  | [] => []

/-- Reads a document. -/
def read (s : String) : Except Refusal Datum := do
  let cs := unifyLineEnds s.toList
  let d ← statements (cs.length + 1) {} cs
  return .map d.table

end LedSketch.Toml
