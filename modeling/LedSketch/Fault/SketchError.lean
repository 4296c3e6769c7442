import LedSketch.Fault.Mishap
import LedSketch.Syntax.Node

/-!
# Errors of sketches

A `Complaint` is one cause for which a sketch is refused, stopped or reported; its kind and its
words follow from the cause. A `SketchError` adds where it happened and which calls were active
then, as far as that is known yet.

The kinds are the classes of section 7 of the specification (`SPEC_FULL.md:265-268`).

* `SketchError.locate` never moves an error that already has a place, and never replaces a stack.
-/

namespace LedSketch

/-- The kinds of errors that reports tell apart. -/
inductive ErrorKind where
  | sketch
  | pinRange
  | compile
  | runtimeGuard
  | runtime
deriving DecidableEq, Repr

/-- The name of a kind in reports. -/
def ErrorKind.label : ErrorKind → String
  | sketch => "SketchError"
  | pinRange => "PinRangeError"
  | compile => "CompileError"
  | runtimeGuard => "RuntimeGuardError"
  | runtime => "RuntimeError"

/-- Why a sketch is refused, stopped or reported. -/
inductive Complaint where
  -- the static rules
  | invalidTarget (what : String)
  | missingInitializer
  | illegalReturn
  | illegalJump (word : String)
  | awaitOutsideAsync
  -- compiling
  | syntaxProblem (text : String)
  | entryPointsUndeclared
  | entryPointsUndefined
  | entryPointTakesParameters (name : String)
  | entryPointNotVoid (name : String)
  -- scopes
  | notDefined (name : String)
  | alreadyDeclared (name : String)
  | constantAssigned (name : String)
  -- running
  | notAFunction (shown : String)
  | cannotPauseHere (name : String)
  | readOfNull (member : String)
  | indexedAssignment (type : String)
  | badArrayIndex (i : Int)
  | memberAssignment (name : String)
  | badAssignmentTarget
  | unknownStatement (kind : String)
  | cannotEvaluate (kind : String)
  | unsupportedOperator (op : String)
  | stackExceeded
  | entryPointReassigned (name : String)
  /-- A mishap in a call of the given name. -/
  | mishapInCall (name : String) (mishap : Mishap)
  /-- A mishap elsewhere in a statement. -/
  | mishapInStatement (mishap : Mishap)
  -- the strip
  | invalidPin (shown : String) (last : Int)
  | pinNotOutput (pin : Nat)
  | unknownPinMode (shown : String)
  -- the library
  | randomNeedsPositive
  | randomNeedsRange
  | emptyInputRange
  -- sessions
  | guardTripped (limit : String)
  /-- An error in given words. -/
  | stated (kind : ErrorKind) (text : String)
deriving DecidableEq, Repr

namespace Complaint

/-- The kind of a complaint. -/
def kind : Complaint → ErrorKind
  | invalidTarget _ | missingInitializer | illegalReturn | illegalJump _ | awaitOutsideAsync
  | syntaxProblem _ | entryPointsUndeclared | entryPointsUndefined | entryPointTakesParameters _
  | entryPointNotVoid _ => .compile
  | invalidPin .. | pinNotOutput _ | unknownPinMode _ => .pinRange
  | guardTripped _ => .runtimeGuard
  | stated kind _ => kind
  | _ => .runtime

/-- The words of a complaint. -/
def text : Complaint → String
  | invalidTarget what => s!"Invalid {what} target"
  | missingInitializer => "Missing initializer in const declaration"
  | illegalReturn => "Illegal return statement"
  | illegalJump word => s!"Illegal {word} statement"
  | awaitOutsideAsync => "await is only valid in async functions"
  | syntaxProblem text => s!"ParseError: {text}"
  | entryPointsUndeclared => "Sketch must contain both void setup() and void loop()."
  | entryPointsUndefined => "Define setup() and loop()."
  | entryPointTakesParameters name => s!"{name}() must not take parameters."
  | entryPointNotVoid name => s!"{name}() must be declared as \x60void {name}()\x60."
  | notDefined name => s!"{name} is not defined"
  | alreadyDeclared name => s!"Identifier '{name}' has already been declared"
  | constantAssigned name => s!"Assignment to constant variable '{name}'"
  | notAFunction shown => s!"{shown} is not a function"
  | cannotPauseHere name =>
    s!"{name}() can only pause inside setup(), loop() or an async function body"
  | readOfNull member => s!"Cannot read properties of null (reading '{member}')"
  | indexedAssignment type => s!"Cannot assign by index into {type}"
  | badArrayIndex i => "Invalid array index " ++ Decimal.intText i
  | memberAssignment name => s!"Cannot assign to property '{name}'"
  | badAssignmentTarget => "Invalid assignment target"
  | unknownStatement kind => s!"Unknown statement {kind}"
  | cannotEvaluate kind => s!"Cannot evaluate {kind}"
  | unsupportedOperator op => s!"Unsupported operator {op}"
  | stackExceeded => "Maximum call stack size exceeded"
  | entryPointReassigned name => s!"{name} was reassigned and is no longer a function"
  | mishapInCall name mishap => name ++ ": " ++ mishap.text
  | mishapInStatement mishap => mishap.kind.label ++ ": " ++ mishap.text
  | invalidPin shown last => s!"Invalid pin {shown}. Use 0-" ++ Decimal.intText last ++ "."
  | pinNotOutput pin => s!"Pin {pin} is not OUTPUT."
  | unknownPinMode shown => s!"Unknown pin mode {shown}. Use OUTPUT or INPUT."
  | randomNeedsPositive => "random(max) requires max > 0."
  | randomNeedsRange => "random(min, max) requires finite numbers with max > min."
  | emptyInputRange => "map() requires in_min != in_max."
  | guardTripped limit =>
    s!"Runtime guard tripped after {limit}ms. Increase max runtime if intentional."
  | stated _ text => text

end Complaint

/-- Where an error is, as far as it is known. -/
structure Place where
  line : Option Int
  col : Option Int
deriving DecidableEq, Repr

/-- The place of a node. -/
def Loc.place (l : Loc) : Place := ⟨some l.line, some l.col⟩

/-- A call that was active when an error arose: its name and its arguments. -/
structure Frame where
  name : String
  args : List Value
deriving DecidableEq

/-- A complaint, where it arose, and the calls that were active then, the outermost first. -/
structure SketchError where
  complaint : Complaint
  place : Option Place := none
  stack : Option (List Frame) := none
deriving DecidableEq

namespace SketchError

/-- The innermost node that reports an error gives it its place and its stack. -/
def locate (e : SketchError) (loc : Option Loc) (calls : List Frame) : SketchError :=
  { e with
    place := match e.place with
      | some p => some p
      | none => loc.map Loc.place
    stack := match e.stack with
      | some s => some s
      | none => some calls }

theorem locate_complaint (e : SketchError) (loc : Option Loc) (calls : List Frame) :
    (e.locate loc calls).complaint = e.complaint := rfl

theorem locate_place {e : SketchError} {p : Place} (h : e.place = some p) (loc : Option Loc)
    (calls : List Frame) : (e.locate loc calls).place = some p := by
  simp [locate, h]

theorem locate_stack {e : SketchError} {s : List Frame} (h : e.stack = some s) (loc : Option Loc)
    (calls : List Frame) : (e.locate loc calls).stack = some s := by
  simp [locate, h]

end SketchError

/-- What can go wrong before a sketch runs. -/
inductive Fault where
  | sketch (e : SketchError)
  | mishap (m : Mishap)
deriving DecidableEq

end LedSketch
