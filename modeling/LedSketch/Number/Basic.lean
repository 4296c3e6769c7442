import LedSketch.Number.Reading

/-!
# Numbers

A number is an integer of any size or a double. Integers stay exact as long as both operands are
integers; a double takes part in an operation by turning the other operand into the nearest double,
and comparisons across the two kinds are exact.

* `Number.compare?_int` — integers are ordered as integers.
-/

namespace LedSketch

open Binary64

-- Powers are those of the core library, also where other ones are in scope; there the type of an
-- exponent has to be known.
attribute [local instance (high)] instPowNat

/-- An integer of any size, or a double. -/
inductive Number where
  | int (n : Int)
  | float (x : Float)
deriving DecidableEq

namespace Number

instance : Inhabited Number := ⟨.int 0⟩

/-- The number that is none. -/
def nan : Number := .float Binary64.nan

/-- Whether the number is NaN. -/
def isNaN : Number → Bool
  | int _ => false
  | float x => x.isNaN

/-- Whether the number equals zero. -/
def isZero : Number → Bool
  | int n => n == 0
  | float x => x == 0.0

/-- Whether the number is below zero. -/
def isNegative : Number → Bool
  | int n => n < 0
  | float x => x < 0.0

/-- The nearest double. -/
def toFloat : Number → Except Mishap Float
  | int n => match ofInt? n with
    | some x => .ok x
    | none => .error .integerTooLarge
  | float x => .ok x

/-- An operation that is exact on integers. -/
def lift₂ (onInts : Int → Int → Int) (onFloats : Float → Float → Float) :
    Number → Number → Except Mishap Number
  | int a, int b => .ok (int (onInts a b))
  | a, b => do return float (onFloats (← a.toFloat) (← b.toFloat))

def add : Number → Number → Except Mishap Number := lift₂ (· + ·) (· + ·)

def sub : Number → Number → Except Mishap Number := lift₂ (· - ·) (· - ·)

def mul : Number → Number → Except Mishap Number := lift₂ (· * ·) (· * ·)

def neg : Number → Number
  | int n => int (-n)
  | float x => float (-x)

def abs : Number → Number
  | int n => int n.natAbs
  | float x => float x.abs

/-- The quotient of integers as the nearest double. -/
def intQuotient (a b : Int) : Except Mishap Float :=
  if b = 0 then .error (.divisionByZero false)
  else match ofRatio? ((a < 0) != (b < 0)) a.natAbs b.natAbs with
    | some x => .ok x
    | none => .error .quotientTooLarge

/-- The quotient as a double; a zero divisor is refused. -/
def quotient : Number → Number → Except Mishap Float
  | int a, int b => intQuotient a b
  | a, b => do
    let x ← a.toFloat
    let y ← b.toFloat
    if y == 0.0 then throw (.divisionByZero true)
    return x / y

/-- A double that is an integer, as that integer. -/
def ofIntegral (x : Float) : Number :=
  match (decode? x).bind Exact.toInt? with
  | some n => int n
  | none => float x

/-- Division: by zero it gives an infinity or NaN, and integers divide to an integer where the
double quotient is one. -/
def div (a b : Number) : Except Mishap Number :=
  if b.isZero then
    if a.isZero || a.isNaN then .ok nan
    else do
      let x ← a.toFloat
      let flipped := match b with
        | int _ => false
        | float y => signBit y
      return float (signedInfinity (signBit x != flipped))
  else match a, b with
    | int m, int n => do return ofIntegral (← intQuotient m n)
    | a, b => do return float (← quotient a b)

/-- The remainder with the sign of the dividend; NaN for a zero divisor. -/
def mod (a b : Number) : Except Mishap Number :=
  if b.isZero then .ok nan
  else do
    let r ← match a, b with
      | int m, int n => pure (int (m.natAbs % n.natAbs : Nat))
      | a, b => do pure (float (absRemainder (← a.toFloat) (← b.toFloat)))
    return if a.isNegative then r.neg else r

/-! ## Comparison -/

/-- How two numbers compare, exactly; NaN compares with nothing. -/
def compare? : Number → Number → Option Ordering
  | int a, int b => some (compare a b)
  | int a, float y => compareInt? a y
  | float x, int b => (compareInt? b x).map Ordering.swap
  | float x, float y => if x < y then some .lt else if y < x then some .gt
    else if x == y then some .eq else none

theorem compare?_int (a b : Int) : compare? (int a) (int b) = some (compare a b) := rfl

def eq (a b : Number) : Bool := a.compare? b == some .eq

def lt (a b : Number) : Bool := a.compare? b == some .lt

def le (a b : Number) : Bool := a.lt b || a.eq b

/-- The first of the least numbers of a list. -/
def least (first : Number) (rest : List Number) : Number :=
  rest.foldl (fun m x => if x.lt m then x else m) first

/-- The first of the greatest numbers of a list. -/
def greatest (first : Number) (rest : List Number) : Number :=
  rest.foldl (fun m x => if m.lt x then x else m) first

/-! ## Integers from numbers -/

/-- Whether the number is finite; an integer beyond the range of doubles is a mishap. -/
def isFinite (a : Number) : Except Mishap Bool := do return (← a.toFloat).isFinite

/-- The integer part of a finite number. -/
def truncate : Number → Except Mishap Int
  | int n => .ok n
  | float x => match decode? x with
    | some d => .ok d.truncate
    | none => .error (if x.isNaN then .nanToInteger else .infinityToInteger)

/-- Rounds a number to an integer by a rule, leaving infinities and NaN alone. -/
def roundBy (rule : Exact → Int) (a : Number) : Except Mishap Number := do
  if ← a.isFinite then
    match a with
    | int n => return int n
    | float x => return ((decode? x).map fun d => int (rule d)).getD a
  else return a

def floor : Number → Except Mishap Number := roundBy Exact.floor

def ceiling : Number → Except Mishap Number := roundBy Exact.ceiling

def integerPart : Number → Except Mishap Number := roundBy Exact.truncate

/-- The nearest integer, halves going up, as the floor of the double that is one half more. -/
def round (a : Number) : Except Mishap Number := do
  if ← a.isFinite then (float ((← a.toFloat) + 0.5)).floor else return a

/-- The number as a signed word of 32 bits; what is not finite counts as zero. -/
def toInt32 (a : Number) : Int := (a.truncate.toOption.getD 0).bmod (2 ^ (32 : Nat))

/-! ## Powers -/

/-- A power: a number, or a complex number for a fractional power of a negative base. -/
inductive Power where
  | real (a : Number)
  | complex (re im : Float)

/-- Whether a double is an odd integer. -/
def isOdd (x : Float) : Bool :=
  match (decode? x).bind Exact.toInt? with
  | some n => n % 2 == 1
  | none => false

/-- The angle of the negative real axis. -/
def halfTurn : Float := Float.ofBits 0x400921FB54442D18

/-- A fractional power of a negative double. -/
def complexPower (x y : Float) : Except Mishap Power :=
  let r := x.abs.pow y
  let t := halfTurn * y
  let re := r * t.cos
  let im := r * t.sin
  if re.isInf || im.isInf then .error .complexTooLarge else .ok (.complex re im)

/-- A power of doubles. -/
def floatPower (x y : Float) : Except Mishap Power :=
  let real (z : Float) : Except Mishap Power := .ok (.real (float z))
  if y == 0.0 then real 1.0
  else if x.isNaN then real x
  else if y.isNaN then real (if x == 1.0 then 1.0 else y)
  else if y.isInf then
    let m := x.abs
    if m == 1.0 then real 1.0
    else if (0.0 < y) == (1.0 < m) then real y.abs
    else real 0.0
  else if x.isInf then
    let odd := isOdd y
    if 0.0 < y then real (if odd then x else x.abs)
    else real (if odd && signBit x then -0.0 else 0.0)
  else if x == 0.0 then
    if y < 0.0 then .error .zeroToNegativePower
    else real (if isOdd y then x else 0.0)
  else if x < 0.0 && !isInteger y then complexPower x y
  else
    let flip := x < 0.0 && isOdd y
    let m := x.abs
    let z := if m == 1.0 then 1.0 else m.pow y
    if z.isInf then .error .powerTooLarge else real (if flip then -z else z)

/-- A power; integers to an integer that is not negative stay exact. -/
def pow : Number → Number → Except Mishap Power
  | int a, int b =>
    if 0 ≤ b then .ok (.real (int (a ^ b.toNat)))
    else do floatPower (← (int a).toFloat) (← (int b).toFloat)
  | a, b => do floatPower (← a.toFloat) (← b.toFloat)

/-! ## Texts -/

/-- The text of an integer, unless it has too many digits. -/
def intText (n : Int) : Except Mishap String :=
  if Decimal.exceedsDigits Reading.digitLimit n.natAbs then .error .integerTooLong
  else .ok (Decimal.intText n)

/-- How a sketch shows a number: integral doubles below `1e21` like integers. -/
def display : Number → Except Mishap String
  | int n => intText n
  | float x =>
    if x.isNaN then .ok "NaN"
    else if x.isInf then .ok (if signBit x then "-Infinity" else "Infinity")
    else match (decode? x).bind Exact.toInt? with
      | some n =>
        .ok (if n.natAbs < 10 ^ (21 : Nat) then Decimal.intText n else Decimal.floatText x)
      | none => .ok (Decimal.floatText x)

/-- A number with a fixed number of places. The places are written out first, so they may be an
integer too long to be written. -/
def fixed (a : Number) (places : Int) : Except Mishap String := do
  let _ ← intText places
  if places < 0 then throw .noPrecision
  if 2 ^ (63 : Nat) ≤ places then throw .precisionTooLong
  let x ← a.toFloat
  if 2 ^ (31 : Nat) ≤ places then throw .precisionTooLarge
  return Decimal.fixed x places.toNat

/-- Reads the number that a text stands for: blank text is zero, other text is an integer, a marked
integer or a decimal fraction, and everything else is NaN. -/
def ofText (s : String) : Number :=
  let cs := Text.trim s.toList
  if cs.isEmpty then int 0
  else
    let base := match cs with
      | '0' :: m :: _ => if m == 'x' || m == 'X' then 16 else if m == 'b' || m == 'B' then 2 else 10
      | _ => 10
    match Reading.readInt base cs with
    | .ok n => int n
    | .error _ => float ((Reading.readFloat? cs).getD Binary64.nan)

/-- The value of a numeral of the host form. -/
def ofNumeral (s : String) : Except Mishap Number :=
  let cs := s.toList
  let marked (p : Char → Bool) : Bool := match cs with
    | '0' :: m :: _ => p m
    | _ => false
  if marked fun m => m == 'x' || m == 'X' then return int (← Reading.readInt 16 cs)
  else if marked fun m => m == 'b' || m == 'B' then return int (← Reading.readInt 2 (cs.drop 2))
  else if !cs.isEmpty && cs.all Text.isDigit then return int (← Reading.readInt 10 cs)
  else return float (← Reading.readFloat cs)

end Number
end LedSketch
