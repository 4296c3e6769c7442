import LedSketch.Value.Basic

/-!
# Arguments of library functions

Every library function says which arguments it needs, how many more it takes, and under which name
reports call it. Methods count their receiver when too many arguments are reported.

The functions are the builtins of section 6 of the specification (`SPEC_FULL.md:255-259`) and the
members of lists, texts and numbers.

* `Arity.check_ok` — a number of arguments is accepted exactly if it lies between the bounds.
-/

namespace LedSketch

/-- How many arguments a function takes. -/
structure Arity where
  callee : String
  required : List String
  optional : Nat := 0
  /-- Whether any number of arguments is taken. -/
  unbounded : Bool := false
  receivers : Nat := 0

namespace Arity

/-- Refuses a wrong number of arguments. -/
def check (a : Arity) (given : Nat) : Except Mishap Unit :=
  let least := a.required.length
  let most := least + a.optional
  if a.unbounded then .ok ()
  else if given < least then .error (.missingArguments a.callee (a.required.drop given))
  else if most < given then
    let k := a.receivers
    .error (.extraArguments a.callee (least + k) (most + k) (given + k))
  else .ok ()

theorem check_ok {a : Arity} (h : a.unbounded = false) (given : Nat) :
    a.check given = .ok () ↔
      a.required.length ≤ given ∧ given ≤ a.required.length + a.optional := by
  simp only [check, h]
  grind

end Arity

/-- The arguments of a board function. -/
def BoardFunction.arity (f : BoardFunction) : Arity :=
  let of (name : String) (required : List String) (optional : Nat) : Arity :=
    { callee := "SketchRuntime." ++ name, required, optional, receivers := 1 }
  match f with
  | pinMode => of "pin_mode" ["pin", "mode"] 0
  | digitalWrite => of "digital_write" ["pin", "value"] 0
  | analogWrite => of "analog_write" ["pin", "value"] 0
  | digitalRead => of "digital_read" ["pin"] 0
  | analogRead => of "analog_read" ["pin"] 0
  | toggle => of "toggle" ["pin"] 0
  | setAll => of "set_all" ["value"] 0
  | shiftLeft => of "shift_left" [] 0
  | shiftRight => of "shift_right" [] 0
  | delay => of "delay" [] 1
  | millis => of "millis" [] 0
  | random => of "random" ["low"] 1
  | constrain => of "constrain" ["x", "low", "high"] 0
  | map => of "map_range" ["x", "in_min", "in_max", "out_min", "out_max"] 0
  | print => { of "print" [] 0 with unbounded := true }

/-- The arguments of a mathematical function; the source of random numbers reports its own way. -/
def MathFunction.arity : MathFunction → Arity
  | round => { callee := "_js_round", required := ["x"] }
  | sqrt => { callee := "_sqrt", required := ["x"] }
  | pow => { callee := "<lambda>", required := ["x", "y"] }
  | min | max => { callee := "<lambda>", required := [], unbounded := true }
  | random => { callee := "Random.random", required := [] }
  | _ => { callee := "<lambda>", required := ["x"] }

/-- The arguments of a member of a list. -/
def ListMember.arity (m : ListMember) : Arity :=
  let callee := "_list_member.<locals>.<lambda>"
  match m with
  | push => { callee := "_list_member.<locals>.push", required := [], unbounded := true }
  | pop => { callee, required := [] }
  | includes | indexOf => { callee, required := ["item"] }
  | join => { callee, required := [], optional := 1 }

/-- The arguments of a member of a text. -/
def TextMember.arity (m : TextMember) : Arity :=
  let callee := "_str_member.<locals>.<lambda>"
  match m with
  | toUpperCase | toLowerCase => { callee, required := [] }
  | includes | indexOf => { callee, required := ["sub"] }
  | charAt => { callee, required := [], optional := 1 }

/-- The arguments of a number's `toFixed`. -/
def toFixedArity : Arity :=
  { callee := "Evaluator._member.<locals>.<lambda>", required := [], optional := 1 }

end LedSketch
