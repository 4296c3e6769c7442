import LedSketch.Library.Members
import LedSketch.Running.Wait

/-!
# The board functions

What a sketch can do to the strip, the console and the time. Whatever changes something first looks
whether the sketch is live, and `delay` looks again after every rest.

These are the builtins of section 6 of the specification (`SPEC_FULL.md:249-259`).

* `BoardFunctions.globals` — the names that every sketch starts with.
-/

namespace LedSketch.BoardFunctions

open Eval

/-- The longest rest without looking whether the sketch is live, in seconds. -/
def tick : Float := 0.016

/-- Gives a command to the strip. -/
def command (c : Strip.Command) : Eval Value := do
  let reply : Except Denial Unit ← ask (.command c)
  granted reply
  return .null

/-- The level of a pin. -/
def level (pin : Value) : Eval Nat := do
  let reply : Except Strip.Refusal Nat ← ask (.read pin)
  match reply with
  | .ok l => return l
  | .error r => do complain (← ofMishap (r.complaint (← store)))

/-! ## Waiting -/

/-- The seconds that a duration in milliseconds stands for, if it is finite and positive. -/
def seconds? (ms : Number) : Except Mishap (Option Float) := do
  if !(← ms.isFinite) || ms.isNegative || ms.isZero then return none
  return some (← ms.quotient (.int 1000))

/-- Runs a wait to its end, in at most `fuel` steps. -/
def waiting (b : Binding) : Nat → Wait.State Float → Eval Unit
  | 0, _ => throw .spent
  | fuel + 1, s => do
    let live : Bool ← ask .isLive
    let now : Float ← ask .now
    match Wait.step tick b.yieldsOnZeroDelay s live now with
    | .unwound => throw .unwind
    | .over => return
    | .yield next => rest .moment; waiting b fuel next
    | .sleep d next => rest (.seconds d); waiting b fuel next

/-- Waits for a duration in milliseconds. -/
def delay (b : Binding) (fuel : Nat) (ms : Number) : Eval Unit := do
  waiting b fuel (.entering (← ofMishap (seconds? ms)))

/-- The whole milliseconds since the sketch was bound to its board. -/
def millis (b : Binding) : Eval Value := do
  let now : Float ← ask .now
  return .int (← ofMishap (Number.float ((now - b.startedAt) * 1000.0)).truncate)

/-! ## Numbers -/

/-- The greatest integer below the product of a drawn number and a width, moved by an offset. -/
def drawn (width offset : Number) : Eval Value := do
  let share : Float ← ask .draw
  let x ← ofMishap do ((← (Number.float share).mul width).add offset)
  match x with
  | .int n => return .int n
  | .float y => match Binary64.decode? y with
    | some d => return .int d.floor
    | none => do return .int (← ofMishap (Number.float y).truncate)

/-- Whether a number is finite. -/
def finite (n : Number) : Eval Bool := ofMishap n.isFinite

/-- An integer drawn from a range that ends before its upper bound. -/
def random (low : Value) (high : Value) : Eval Value := do
  match high with
  | .null =>
    let upper := low.toNumber
    if !(← finite upper) || upper.le (.int 0) then complain .randomNeedsPositive
    drawn upper (.int 0)
  | high =>
    let lo := low.toNumber
    let hi := high.toNumber
    if !(← finite lo) then complain .randomNeedsRange
    if !(← finite hi) || hi.le lo then complain .randomNeedsRange
    drawn (← ofMishap (hi.sub lo)) lo

/-- Maps a number from one range to another; integers stay integers, truncated toward zero. -/
def mapRange (x inMin inMax outMin outMax : Number) : Except Mishap Number := do
  let span ← (← x.sub inMin).mul (← outMax.sub outMin)
  let width ← inMax.sub inMin
  match x, inMin, inMax, outMin, outMax with
  | .int _, .int _, .int _, .int _, .int _ =>
    (Number.int (← (Number.float (← span.quotient width)).truncate)).add outMin
  | _, _, _, _, _ => (Number.float (← span.quotient width)).add outMin

/-! ## Calls -/

/-- Calls a board function. -/
def call (b : Binding) (fuel : Nat) (f : BoardFunction) (args : List Value) : Eval Value := do
  ofMishap (f.arity.check args.length)
  let arg (i : Nat) : Value := args.getD i .null
  let num (i : Nat) : Number := (arg i).toNumber
  match f with
  | .pinMode => command (.configure (arg 0) (arg 1))
  | .digitalWrite => command (.writeDigital (arg 0) (arg 1))
  | .analogWrite => command (.writeLevel (arg 0) (.num (num 1)))
  | .digitalRead => return .int (if 0 < (← level (arg 0)) then 1 else 0)
  | .analogRead => return .int (← level (arg 0))
  | .toggle => command (.toggle (arg 0))
  | .setAll =>
    let v := arg 0
    command (.setAll (if Strip.isHigh v || Strip.isLow v then v else .num v.toNumber))
  | .shiftLeft => command .shiftLeft
  | .shiftRight => command .shiftRight
  | .delay => do
    delay b fuel (args.headD (.int 0)).toNumber
    return .null
  | .millis => millis b
  | .random => random (arg 0) (arg 1)
  | .constrain => return .num (((num 0).greatest [num 1]).least [num 2])
  | .map =>
    if (num 2).eq (num 1) then complain .emptyInputRange
    return .num (← ofMishap (mapRange (num 0) (num 1) (num 2) (num 3) (num 4)))
  | .print => do
    checkLive
    let texts ← args.mapM display
    let reply : Except Denial Unit ← ask (.print (" ".intercalate texts))
    granted reply
    return .null

/-! ## Names -/

/-- The names that every sketch starts with, in order. -/
def globals : List (String × Value) :=
  [("HIGH", .int 1), ("LOW", .int 0), ("OUTPUT", .str PinMode.output.name),
    ("INPUT", .str PinMode.input.name), ("Math", .bag .math), ("pinMode", .board .pinMode),
    ("digitalWrite", .board .digitalWrite), ("analogWrite", .board .analogWrite),
    ("digitalRead", .board .digitalRead), ("analogRead", .board .analogRead),
    ("toggle", .board .toggle), ("setAll", .board .setAll), ("shiftLeft", .board .shiftLeft),
    ("shiftRight", .board .shiftRight), ("delay", .board .delay), ("millis", .board .millis),
    ("random", .board .random), ("constrain", .board .constrain), ("map", .board .map),
    ("min", .math .min), ("max", .math .max), ("abs", .math .abs), ("print", .board .print)]

/-- The place of the global scope. -/
def globalScope : ScopeRef := 0

/-- A store whose only scope holds the given names. -/
def storeWith (names : List (String × Value)) : Store :=
  names.foldl (fun st p => st.put globalScope p.1 p.2) (({} : Store).newScope none).2

end LedSketch.BoardFunctions
