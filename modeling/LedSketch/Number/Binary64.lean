/-!
# Double precision numbers as exact fractions

A finite double is a signed integer times a power of two (`Exact`). Everything that has to be exact
about doubles goes through that form: rounding a fraction to the nearest double (`ofRatio?`),
comparing with integers of any size, and taking integer parts. Only the arithmetic of doubles
themselves is left to `Float`.
-/

namespace LedSketch.Binary64

-- Powers are those of the core library, also where other ones are in scope; there the type of an
-- exponent has to be known.
attribute [local instance (high)] instPowNat

/-- The value `± mantissa * 2 ^ exponent`. -/
structure Exact where
  negative : Bool
  mantissa : Nat
  exponent : Int
deriving DecidableEq, Repr

/-- The exact value of a finite double. -/
def decode? (x : Float) : Option Exact :=
  let bits := x.toBits.toNat
  let fraction : Nat := bits % 2 ^ (52 : Nat)
  let field : Nat := bits / 2 ^ (52 : Nat) % 2048
  let negative : Bool := 2 ^ (63 : Nat) ≤ bits
  if field = 2047 then none
  else if field = 0 then some ⟨negative, fraction, -1074⟩
  else some ⟨negative, 2 ^ (52 : Nat) + fraction, (field : Int) - 1075⟩

/-- Whether the sign bit is set, also of a zero or a NaN. -/
def signBit (x : Float) : Bool := 2 ^ (63 : Nat) ≤ x.toBits.toNat

/-- The magnitude as a fraction with a positive denominator. -/
def Exact.ratio (d : Exact) : Nat × Nat :=
  if 0 ≤ d.exponent then (d.mantissa * 2 ^ d.exponent.toNat, 1)
  else (d.mantissa, 2 ^ (-d.exponent).toNat)

/-- The nearest integer to a fraction; a half goes to the even neighbour. -/
def roundHalfEven (num den : Nat) : Nat :=
  let q := num / den
  let r := num % den
  if 2 * r < den then q
  else if den < 2 * r then q + 1
  else if q % 2 = 0 then q else q + 1

/-- The exponent of the last place of the double nearest to a positive fraction. -/
def lastPlace (num den : Nat) : Int :=
  let e := (num.log2 : Int) - den.log2 - 52
  let reached (e : Int) : Bool :=
    if 0 ≤ e then den * 2 ^ (e.toNat + 52) ≤ num
    else den * 2 ^ (52 : Nat) ≤ num * 2 ^ (-e).toNat
  max (-1074) (if reached e then e else e - 1)

/-- The double nearest to a fraction, a half going to the even neighbour; `none` if the fraction is
too large to have one. -/
def ofRatio? (negative : Bool) (num den : Nat) : Option Float :=
  let sign : Nat := if negative then 2 ^ (63 : Nat) else 0
  if num = 0 || den = 0 then some (Float.ofBits (UInt64.ofNat sign))
  else
    let e := lastPlace num den
    let q := if 0 ≤ e then roundHalfEven num (den * 2 ^ e.toNat)
      else roundHalfEven (num * 2 ^ (-e).toNat) den
    let bits := if q < 2 ^ (52 : Nat) then q
      else (e + 1075).toNat * 2 ^ (52 : Nat) + (q - 2 ^ (52 : Nat))
    if bits < 2047 * 2 ^ (52 : Nat) then some (Float.ofBits (UInt64.ofNat (sign + bits))) else none

/-- Positive infinity. -/
def infinity : Float := Float.ofBits 0x7FF0000000000000

/-- The value that is no number. -/
def nan : Float := 0.0 / 0.0

/-- Infinity with the given sign. -/
def signedInfinity (negative : Bool) : Float := if negative then -infinity else infinity

/-- The double nearest to an integer, if there is one. -/
def ofInt? (n : Int) : Option Float := ofRatio? (n < 0) n.natAbs 1

/-- The integer that an exact value is, if it is one. -/
def Exact.toInt? (d : Exact) : Option Int :=
  let (num, den) := d.ratio
  let size : Nat := num / den
  if num % den = 0 then some (if d.negative then -size else size) else none

/-- The integer part, toward zero. -/
def Exact.truncate (d : Exact) : Int :=
  let (num, den) := d.ratio
  if d.negative then -(num / den : Nat) else (num / den : Nat)

/-- The greatest integer at or below. -/
def Exact.floor (d : Exact) : Int :=
  let (num, den) := d.ratio
  Int.fdiv (if d.negative then -(num : Int) else num) den

/-- The least integer at or above. -/
def Exact.ceiling (d : Exact) : Int :=
  -{ d with negative := !d.negative }.floor

/-- Whether a double is an integer. -/
def isInteger (x : Float) : Bool := ((decode? x).bind Exact.toInt?).isSome

/-- How an integer compares with an exact value. -/
def compareInt (n : Int) (d : Exact) : Ordering :=
  let (num, den) := d.ratio
  compare (n * den) (if d.negative then -(num : Int) else num)

/-- How an integer compares with a double; `none` if the double is no number. -/
def compareInt? (n : Int) (x : Float) : Option Ordering :=
  match decode? x with
  | some d => some (compareInt n d)
  | none => if x.isNaN then none else some (if signBit x then .gt else .lt)

/-- The remainder of two finite magnitudes, exactly. -/
def remainder (a b : Exact) : Option Float :=
  let (n₁, d₁) := a.ratio
  let (n₂, d₂) := b.ratio
  ofRatio? false (n₁ * d₂ % (n₂ * d₁)) (d₁ * d₂)

/-- The remainder of `|x|` by `|y|`, for a `y` that is not zero. -/
def absRemainder (x y : Float) : Float :=
  match decode? x, decode? y with
  | some a, some b => (remainder a b).getD nan
  | some _, none => if y.isNaN then nan else x.abs
  | none, _ => nan

end LedSketch.Binary64
