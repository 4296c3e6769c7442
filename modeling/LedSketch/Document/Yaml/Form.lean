import LedSketch.Document.Json
import LedSketch.Document.Moment
import LedSketch.Document.Yaml.Cursor

/-!
# Forms of plain texts

A plain text without a tag stands for the datum that its form suggests: null, a truth value, an
integer in one of several bases, a decimal fraction, a date, or the text itself.

* `Form.tagOf` — the tag of a plain text.
-/

namespace LedSketch.Yaml

/-- What kind of datum a node stands for. -/
inductive Tag where
  | str
  | null
  | bool
  | int
  | float
  | timestamp
  | binary
  | seq
  | map
  | set
  | orderedMap
  | pairs
  /-- The key that merges other maps into a map. -/
  | merge
  /-- The key `=`. -/
  | default
  | unknown
deriving DecidableEq, Repr

/-- The names of tags. -/
def Tag.names : List (String × Tag) :=
  [("str", .str), ("null", .null), ("bool", .bool), ("int", .int), ("float", .float),
    ("timestamp", .timestamp), ("binary", .binary), ("seq", .seq), ("map", .map), ("set", .set),
    ("omap", .orderedMap), ("pairs", .pairs), ("merge", .merge), ("value", .default)]

/-- What all names of tags start with. -/
def Tag.stem : String := "tag:yaml.org,2002:"

/-- The tag of a full name. -/
def Tag.ofName (name : String) : Tag :=
  ((Tag.names.find? fun n => Tag.stem ++ n.1 == name).map (·.2)).getD .unknown

namespace Form

/-- Whether a text is one of a few words. -/
def isWord (words : List String) (cs : List Char) : Bool := words.contains (String.ofList cs)

/-- The words for truth values in lower case. -/
def truths : List (String × Bool) :=
  [("yes", true), ("no", false), ("true", true), ("false", false), ("on", true), ("off", false)]

/-- A truth value: a word in lower case, in upper case, or with one capital. -/
def isBool (cs : List Char) : Bool :=
  let capital (w : String) : List Char := match w.toList with
    | c :: rest => c.toUpper :: rest
    | [] => []
  truths.any fun w =>
    cs == w.1.toList || cs == w.1.toList.map Char.toUpper || cs == capital w.1

/-- A digit or an underscore. -/
def isDigitOrLine (c : Char) : Bool := Json.isAsciiDigit c || c == '_'

/-- Without a sign. -/
def unsigned (cs : List Char) : List Char := (Reading.takeSign cs).2

/-- A part of a number that counts sixty of the next one: one digit or two, below sixty. -/
def isSixtieth (cs : List Char) : Bool :=
  match cs with
  | [a] => Json.isAsciiDigit a
  | [a, b] => '0' ≤ a && a ≤ '5' && Json.isAsciiDigit b
  | _ => false

/-- The parts of a text between colons. -/
def colonParts (cs : List Char) : List (List Char) := cs.splitOn ':'

/-- An integer in one of its forms. -/
def isInt (source : List Char) : Bool :=
  let cs := unsigned source
  let some_ (p : Char → Bool) (cs : List Char) : Bool := !cs.isEmpty && cs.all p
  match cs with
  | ['0'] => true
  | '0' :: 'b' :: rest => some_ (fun c => c == '0' || c == '1' || c == '_') rest
  | '0' :: 'x' :: rest => some_ (fun c => (Json.hexDigit? c).isSome || c == '_') rest
  | '0' :: rest => some_ (fun c => ('0' ≤ c && c ≤ '7') || c == '_') rest
  | c :: rest =>
    Json.isAsciiDigit c && match colonParts rest with
      | [whole] => whole.all isDigitOrLine
      | whole :: parts => whole.all isDigitOrLine && parts.all isSixtieth
      | [] => false
  | [] => false

/-- An exponent with its sign, or nothing. -/
def isExponent (cs : List Char) : Bool :=
  match cs with
  | [] => true
  | e :: s :: rest =>
    (e == 'e' || e == 'E') && (s == '+' || s == '-') && !rest.isEmpty && rest.all Json.isAsciiDigit
  | _ => false

/-- Whether digits stand in front, the first of which is no underscore. -/
def startsWithDigit (cs : List Char) : Bool := cs.head?.any Json.isAsciiDigit

/-- A decimal fraction in one of its forms. -/
def isFloat (source : List Char) : Bool :=
  let cs := unsigned source
  let whole := cs.takeWhile (· != '.')
  match cs.drop whole.length with
  | [] => false
  | _ :: fraction =>
    let places := fraction.takeWhile isDigitOrLine
    let tail := fraction.drop places.length
    if whole.isEmpty then
      isWord ["inf", "Inf", "INF"] fraction
        || (cs.length == source.length
          && (isWord ["nan", "NaN", "NAN"] fraction || (startsWithDigit places && isExponent tail)))
    else startsWithDigit whole && match colonParts whole with
      | [whole] => whole.all isDigitOrLine && isExponent tail
      | whole :: parts => whole.all isDigitOrLine && parts.all isSixtieth && tail.isEmpty
      | [] => false

/-! ## Dates and times -/

/-- A date, and the time and the zone behind it, as they are written. -/
structure Stamp where
  date : Date
  time : Option (ClockTime × Option Int)
  /-- Whether month and day have two digits. -/
  isFull : Bool

/-- A number of one digit or two, and how many there are. -/
def digitPair? (cs : List Char) : Option (Nat × Nat × List Char) :=
  let ds := (cs.take 2).takeWhile Json.isAsciiDigit
  if ds.isEmpty then none
  else some (Reading.ofDigits 10 (ds.map fun d => d.toNat - 48), ds.length, cs.drop ds.length)

/-- A fraction of a second, in millionths. -/
def micro (cs : List Char) : Nat × List Char :=
  match cs with
  | '.' :: rest =>
    let ds := rest.takeWhile Json.isAsciiDigit
    (Moment.millionths ds, rest.drop ds.length)
  | _ => (0, cs)

/-- The zone at the end of a time, in minutes. -/
def zone? (cs : List Char) : Option (Option Int) :=
  match cs.dropWhile isBlank with
  | [] => if cs.isEmpty then some none else none
  | ['Z'] => some (some 0)
  | s :: rest =>
    if s = '+' || s = '-' then do
      let (hours, _, rest) ← digitPair? rest
      let minutes ← match rest with
        | [] => some 0
        | ':' :: rest => do
          let (n, rest) ← Moment.fixedDigits? 2 rest
          if rest.isEmpty then some n else none
        | _ => none
      let n : Int := hours * 60 + minutes
      return some (if s = '-' then -n else n)
    else none

/-- The time behind a date, up to the end. -/
def timeBehind? (cs : List Char) : Option (ClockTime × Option Int) := do
  let rest ← match cs with
    | c :: rest =>
      if c = 'T' || c = 't' then some rest
      else if isBlank c then some (rest.dropWhile isBlank)
      else none
    | [] => none
  let (hour, _, rest) ← digitPair? rest
  let (minute, rest) ← Moment.fixedDigits? 2 (← Moment.mark? ':' rest)
  let (second, rest) ← Moment.fixedDigits? 2 (← Moment.mark? ':' rest)
  let (micro, rest) := micro rest
  return (⟨hour, minute, second, micro⟩, ← zone? rest)

/-- A date with or without a time. -/
def stamp? (cs : List Char) : Option Stamp := do
  let (year, rest) ← Moment.fixedDigits? 4 cs
  let (month, m, rest) ← digitPair? (← Moment.mark? '-' rest)
  let (day, d, rest) ← digitPair? (← Moment.mark? '-' rest)
  let time ← if rest.isEmpty then some none else (timeBehind? rest).map some
  return ⟨⟨year, month, day⟩, time, m == 2 && d == 2⟩

/-- A date in full, or a date with a time. -/
def isTimestamp (cs : List Char) : Bool := (stamp? cs).any fun s => s.time.isSome || s.isFull

/-- The tag of a plain text. -/
def tagOf (s : String) : Tag :=
  let cs := s.toList
  if isBool cs then .bool
  else if isFloat cs then .float
  else if isInt cs then .int
  else if s = "<<" then .merge
  else if isWord ["~", "null", "Null", "NULL", ""] cs then .null
  else if isTimestamp cs then .timestamp
  else if s = "=" then .default
  else .str

end Form

end LedSketch.Yaml
