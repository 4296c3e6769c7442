import LedSketch.Fault.Mishap
import LedSketch.Number.Decimal
import LedSketch.Text.Quoted

/-!
# Reading numbers

* `readInt` — an integer of a base, with blanks around it, a sign, the mark of its base and single
  underscores between digits; decimal digits of any script count;
* `readFloat?` — a decimal fraction with an optional exponent, or a name of infinity or NaN.

Both are strict: what does not fit as a whole is refused.
-/

namespace LedSketch.Reading

open Text Binary64

/-- More decimal digits than this are refused when an integer is read or written. -/
def digitLimit : Nat := 4300

/-- A numeral without the white space around it. -/
def stripped (cs : List Char) : List Char :=
  ((cs.dropWhile isWhiteSpace).reverse.dropWhile isWhiteSpace).reverse

/-- A sign in front, and the rest. -/
def takeSign : List Char → Bool × List Char
  | '-' :: cs => (true, cs)
  | '+' :: cs => (false, cs)
  | cs => (false, cs)

/-- The values of digits with single underscores between them. -/
def digitRun? (digit? : Char → Option Nat) : List Char → Option (List Nat)
  | [] => none
  | [c] => (digit? c).map ([·])
  | c :: '_' :: cs => do return (← digit? c) :: (← digitRun? digit? cs)
  | c :: cs => do return (← digit? c) :: (← digitRun? digit? cs)

/-- The number that a list of digits stands for. -/
def ofDigits (base : Nat) (ds : List Nat) : Nat := ds.foldl (fun n d => n * base + d) 0

/-- Whether a numeral of the base may carry this mark behind its zero. -/
def isBaseMark (base : Nat) (c : Char) : Bool :=
  (base == 16 && (c == 'x' || c == 'X')) || (base == 8 && (c == 'o' || c == 'O'))
    || (base == 2 && (c == 'b' || c == 'B'))

/-- Without the mark of the base, and without one underscore behind the mark. -/
def dropBaseMark (base : Nat) (cs : List Char) : List Char :=
  match cs with
  | '0' :: m :: rest =>
    if isBaseMark base m then
      match rest with
      | '_' :: rest => rest
      | rest => rest
    else cs
  | cs => cs

/-- Reads an integer of a base. -/
def readInt (base : Nat) (source : List Char) : Except Mishap Int :=
  let (negative, cs) := takeSign (stripped source)
  let digit? (c : Char) : Option Nat :=
    (letterDigit? c).bind fun d => if d < base then some d else none
  match digitRun? digit? (dropBaseMark base cs) with
  | none =>
    let shown := quoted (String.ofList source)
    .error (.badInteger base (String.ofList (shown.toList.take 200)))
  | some ds =>
    if base = 10 && digitLimit < ds.length then .error (.numeralTooLong ds.length)
    else
      let n := ofDigits base ds
      .ok (if negative then -n else n)

/-- The double nearest to `digits * 10 ^ exponent`, infinity beyond the range. -/
def ofDecimal (negative : Bool) (digits : List Nat) (exponent : Int) : Float :=
  let digits := digits.dropWhile (· == 0)
  let reach := (digits.length : Int) + exponent
  let n := ofDigits 10 digits
  if n = 0 || reach < -400 then if negative then -0.0 else 0.0
  else if 400 < reach then signedInfinity negative
  else
    let (num, den) := Decimal.scale n 1 exponent
    (ofRatio? negative num den).getD (signedInfinity negative)

/-- Splits at the first character that satisfies `p`. -/
def splitAt? (p : Char → Bool) (cs : List Char) : List Char × Option (List Char) :=
  match cs.dropWhile (fun c => !p c) with
  | [] => (cs, none)
  | _ :: rest => (cs.takeWhile (fun c => !p c), some rest)

/-- Digits that may be missing. -/
def optionalRun? (cs : List Char) : Option (List Nat) :=
  if cs.isEmpty then some [] else digitRun? decimalDigit? cs

/-- Reads an exponent. -/
def exponent? : Option (List Char) → Option Int
  | none => some 0
  | some cs => do
    let (negative, cs) := takeSign cs
    let n := ofDigits 10 (← digitRun? decimalDigit? cs)
    return if negative then -n else n

/-- Reads a decimal fraction. -/
def readFloat? (source : List Char) : Option Float :=
  let (negative, cs) := takeSign (stripped source)
  let word := String.ofList (cs.map Char.toLower)
  if word = "inf" || word = "infinity" then some (signedInfinity negative)
  else if word = "nan" then some nan
  else do
    let (mantissa, tail) := splitAt? (fun c => c == 'e' || c == 'E') cs
    let (whole, fraction) := splitAt? (· == '.') mantissa
    let whole ← optionalRun? whole
    let fraction ← optionalRun? (fraction.getD [])
    if whole.isEmpty && fraction.isEmpty then none
    else return ofDecimal negative (whole ++ fraction) ((← exponent? tail) - fraction.length)

/-- Reads a decimal fraction, or reports the text. -/
def readFloat (source : List Char) : Except Mishap Float :=
  match readFloat? source with
  | some x => .ok x
  | none => .error (.badFloat (quoted (String.ofList source)))

end LedSketch.Reading
