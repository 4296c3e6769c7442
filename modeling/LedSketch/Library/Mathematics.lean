import LedSketch.Library.Arity

/-!
# The mathematical library

Functions of numbers. Rounding functions leave infinities and NaN alone; the least and the greatest
of no numbers are infinities; a fractional power of a negative number is a complex number.

These are `min`, `max`, `abs` and the members of `Math` in section 6 of the specification
(`SPEC_FULL.md:259`).
-/

namespace LedSketch.Mathematics

open Number

/-- The ratio of a circle to its diameter. -/
def pi : Float := Float.ofBits 0x400921FB54442D18

/-- The base of the natural logarithm. -/
def e : Float := Float.ofBits 0x4005BF0A8B145769

/-- The square root; of a negative number and of NaN it is NaN. -/
def squareRoot (a : Number) : Except Mishap Number :=
  if (Number.int 0).le a then return .float (← a.toFloat).sqrt else .ok nan

/-- A function of an angle, which has to be finite or NaN. -/
def angular (f : Float → Float) (a : Number) : Except Mishap Number := do
  let x ← a.toFloat
  if x.isInf then throw .outsideDomain
  return .float (f x)

/-- The first of the least numbers, infinity if there are none. -/
def leastOf : List Number → Number
  | [] => .float Binary64.infinity
  | a :: as => least a as

/-- The first of the greatest numbers, negative infinity if there are none. -/
def greatestOf : List Number → Number
  | [] => .float (-Binary64.infinity)
  | a :: as => greatest a as

/-- Applies a function to as many numbers as it takes. -/
def apply (f : MathFunction) (args : List Number) : Except Mishap Power := do
  let x := args.headD (.int 0)
  match f with
  | .floor => return .real (← x.floor)
  | .ceil => return .real (← x.ceiling)
  | .round => return .real (← x.round)
  | .trunc => return .real (← x.integerPart)
  | .abs => return .real x.abs
  | .sqrt => return .real (← squareRoot x)
  | .pow => x.pow (args.getD 1 (.int 0))
  | .sin => return .real (← angular Float.sin x)
  | .cos => return .real (← angular Float.cos x)
  | .tan => return .real (← angular Float.tan x)
  | .min => return .real (leastOf args)
  | .max => return .real (greatestOf args)
  | .random => return .real (.float 0.0)

/-- Refuses a wrong number of arguments. -/
def checkArity (f : MathFunction) (given : Nat) : Except Mishap Unit :=
  match f with
  | .random => if given = 0 then .ok () else .error (.unwantedArguments "Random.random" given)
  | f => f.arity.check given

/-- Applies a function to values. -/
def call (f : MathFunction) (args : List Value) : Except Mishap Power := do
  checkArity f args.length
  apply f (args.map Value.toNumber)

end LedSketch.Mathematics
