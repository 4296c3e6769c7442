import LedSketch.Number.Binary64

/-!
# Decimal texts of numbers

* `digits` — the decimal digits of a natural number;
* `shortest` — the fewest significant digits that read back as the same double, and of those the
  nearest;
* `floatText` — the text of a double: positional between `1e-4` and `1e16`, else with an exponent of
  at least two digits and a sign;
* `fixed` — a double with a fixed number of places, a half going to the even neighbour.
-/

namespace LedSketch.Decimal

open Binary64

-- Powers are those of the core library, also where other ones are in scope; there the type of an
-- exponent has to be known.
attribute [local instance (high)] instPowNat

/-- The decimal digits of a natural number. -/
def digits (n : Nat) : List Char := Nat.toDigits 10 n

/-- The decimal text of an integer. -/
def intText (n : Int) : String :=
  String.ofList (if n < 0 then '-' :: digits n.natAbs else digits n.natAbs)

/-- Whether an integer of this magnitude has more decimal digits than the limit allows. -/
def exceedsDigits (limit n : Nat) : Bool :=
  -- Below three bits a digit the power of ten need not be built.
  limit * 3 ≤ n.log2 && 10 ^ limit ≤ n

/-- Significant decimal digits: the value is `0.digits * 10 ^ point`. -/
structure Significant where
  digits : List Char
  point : Int

/-- Without the zeros at the end of the digits. -/
def Significant.trimmed (s : Significant) : Significant :=
  { s with digits := (s.digits.reverse.dropWhile (· == '0')).reverse }

/-- Scales a fraction by a power of ten. -/
def scale (num den : Nat) (p : Int) : Nat × Nat :=
  if 0 ≤ p then (num * 10 ^ p.toNat, den) else (num, den * 10 ^ (-p).toNat)

/-- The least `k` from a start on with the fraction below `10 ^ k`. -/
def pointFrom : Nat → Nat → Nat → Int → Int
  | 0, _, _, k => k
  | fuel + 1, num, den, k =>
    let (n, d) := scale num den (-k)
    if n < d then k else pointFrom fuel num den (k + 1)

/-- The `k` with a positive fraction in `[10 ^ (k - 1), 10 ^ k)`. -/
def decimalPoint (num den : Nat) : Int :=
  let twos := (num.log2 : Int) - den.log2
  pointFrom 4 num den (Int.fdiv (twos * 30103) 100000 - 1)

/-- The interval of fractions that round to a double, in units of a quarter of its last place. -/
structure Interval where
  low : Nat
  value : Nat
  high : Nat
  closed : Bool

/-- The interval around a mantissa; below a power of two the gap is half as wide. -/
def Interval.around (d : Exact) : Interval :=
  let m := 4 * d.mantissa
  let low := if d.mantissa = 2 ^ (52 : Nat) && d.exponent ≠ -1074 then m - 1 else m - 2
  ⟨low, m, m + 2, d.mantissa % 2 = 0⟩

/-- Whether `c * 10 ^ p` lies in the interval whose unit is the fraction `num / den`. -/
def Interval.holds (i : Interval) (num den c : Nat) (p : Int) : Bool :=
  let (n, d) := scale c 1 p
  -- c * 10^p = n / d against bound * num / den
  let left := n * den
  if i.closed then i.low * num * d ≤ left && left ≤ i.high * num * d
  else i.low * num * d < left && left < i.high * num * d

/-- The nearest of the two neighbours on the grid of `count` digits that lie in the interval. -/
def onGrid? (i : Interval) (num den : Nat) (point : Int) (count : Nat) : Option Nat :=
  let p := point - count
  let (n, d) := scale (i.value * num) den (-p)
  let low := n / d
  let lowIn := i.holds num den low p && low ≠ 0
  let highIn := i.holds num den (low + 1) p
  if lowIn && highIn then some (roundHalfEven n d)
  else if lowIn then some low
  else if highIn then some (low + 1)
  else none

/-- The first grid from `count` digits on with a hit, at most seventeen digits. -/
def shortestFrom : Nat → Nat → Interval → Nat → Nat → Int → Significant
  | 0, count, i, num, den, point =>
    let (n, d) := scale (i.value * num) den (count - point)
    ⟨digits (roundHalfEven n d), point⟩
  | fuel + 1, count, i, num, den, point =>
    match onGrid? i num den point count with
    | some c =>
      let ds := digits c
      ⟨ds, point + ((ds.length : Int) - count)⟩
    | none => shortestFrom fuel (count + 1) i num den point

/-- The fewest significant digits that read back as a positive exact value, and of those the
nearest. -/
def shortest (d : Exact) : Significant :=
  let unit := (Exact.mk false 1 (d.exponent - 2)).ratio
  let (num, den) := d.ratio
  (shortestFrom 16 1 (Interval.around d) unit.1 unit.2 (decimalPoint num den)).trimmed

/-- The exponents of ten that are written positionally start here. -/
def positionalFrom : Int := -4

/-- The exponents of ten from here on are written with an exponent. -/
def positionalBelow : Int := 16

/-- The digits with a point at its place, with at least one digit on either side. -/
def positional (s : Significant) : List Char :=
  if s.point ≤ 0 then '0' :: '.' :: (List.replicate (-s.point).toNat '0' ++ s.digits)
  else
    let k := s.point.toNat
    let whole := s.digits.take k ++ List.replicate (k - s.digits.length) '0'
    let rest := s.digits.drop k
    whole ++ '.' :: (if rest.isEmpty then ['0'] else rest)

/-- The digits with an exponent of at least two digits and a sign. -/
def exponential (s : Significant) : List Char :=
  let e := s.point - 1
  let mag := digits e.natAbs
  let mantissa := match s.digits with
    | [] => ['0']
    | [c] => [c]
    | c :: cs => c :: '.' :: cs
  mantissa ++ 'e' :: (if e < 0 then '-' else '+') :: (if mag.length < 2 then '0' :: mag else mag)

/-- The text of a double. -/
def floatText (x : Float) : String :=
  match decode? x with
  | none => if x.isNaN then "nan" else if signBit x then "-inf" else "inf"
  | some d =>
    let body :=
      if d.mantissa = 0 then ['0', '.', '0']
      else
        let s := shortest d
        if positionalFrom ≤ s.point - 1 && s.point - 1 < positionalBelow then positional s
        else exponential s
    String.ofList (if d.negative then '-' :: body else body)

/-- A double with a fixed number of places, a half going to the even neighbour. -/
def fixed (x : Float) (places : Nat) : String :=
  match decode? x with
  | none => if x.isNaN then "nan" else if signBit x then "-inf" else "inf"
  | some d =>
    let (num, den) := d.ratio
    let ds := digits (roundHalfEven (num * 10 ^ places) den)
    let ds := List.replicate (places + 1 - ds.length) '0' ++ ds
    let k := ds.length - places
    let body := if places = 0 then ds else ds.take k ++ '.' :: ds.drop k
    String.ofList (if d.negative then '-' :: body else body)

end LedSketch.Decimal
