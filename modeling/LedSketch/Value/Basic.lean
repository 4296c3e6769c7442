import LedSketch.Number.Basic

/-!
# Values of sketches

A value is a plain datum or a reference. Lists live in a store and are named by their place there; a
function of a sketch is named by the scope that declares it and its name in that scope, since a
scope declares a name as a function at most once. So equality of values is the identity of what they
refer to.

Members taken from lists, texts and numbers are values of their own; each taking makes a new one.

These are the values of the evaluator of section 2 of the specification (`SPEC_FULL.md:67-69`).
-/

namespace LedSketch

/-- The place of a list in the store. -/
abbrev ListRef := Nat

/-- The place of a scope in the store. -/
abbrev ScopeRef := Nat

/-- The functions that a list offers as members. -/
inductive ListMember where
  | push
  | pop
  | includes
  | indexOf
  | join
deriving DecidableEq, Repr

/-- The functions that a text offers as members. -/
inductive TextMember where
  | toUpperCase
  | toLowerCase
  | includes
  | indexOf
  | charAt
deriving DecidableEq, Repr

/-- The functions of the mathematical library. -/
inductive MathFunction where
  | floor
  | ceil
  | round
  | trunc
  | abs
  | sqrt
  | pow
  | sin
  | cos
  | tan
  | min
  | max
  | random
deriving DecidableEq, Repr

/-- The functions that act on the board. -/
inductive BoardFunction where
  | pinMode
  | digitalWrite
  | analogWrite
  | digitalRead
  | analogRead
  | toggle
  | setAll
  | shiftLeft
  | shiftRight
  | delay
  | millis
  | random
  | constrain
  | map
  | print
deriving DecidableEq, Repr

/-- A named bag of members: the mathematical library, or an empty one. -/
inductive Bag where
  | math
  | empty (name : String) (token : Nat)
deriving DecidableEq, Repr

/-- The name of a bag. -/
def Bag.name : Bag → String
  | math => "Math"
  | empty name _ => name

/-- A value of a sketch. The `token` of a member tells apart what was taken at different times. -/
inductive Value where
  | null
  | bool (b : Bool)
  | num (n : Number)
  | str (s : String)
  | list (ref : ListRef)
  /-- A list that cannot change; sketches cannot make one. -/
  | row (ref : ListRef)
  | function (scope : ScopeRef) (name : String)
  | board (f : BoardFunction)
  | math (f : MathFunction)
  | listMember (list : ListRef) (m : ListMember) (token : Nat)
  | textMember (s : String) (m : TextMember) (token : Nat)
  | toFixed (n : Number) (token : Nat)
  | bag (b : Bag)
  | complex (re im : Float) (token : Nat)
deriving DecidableEq

namespace Value

instance : Inhabited Value := ⟨null⟩

/-- An integer. -/
abbrev int (n : Int) : Value := num (.int n)

/-- A double. -/
abbrev float (x : Float) : Value := num (.float x)

/-- Whether the value is a number or a truth value. -/
def isNumeric : Value → Bool
  | num _ | bool _ => true
  | _ => false

/-- Whether the value is a text. -/
def isText : Value → Bool
  | str _ => true
  | _ => false

/-- Whether the value is a list that can change. -/
def isList : Value → Bool
  | list _ => true
  | _ => false

/-- Whether a condition holds. -/
def truthy : Value → Bool
  | null => false
  | bool b => b
  | num n => !n.isZero && !n.isNaN
  | str s => !s.isEmpty
  | _ => true

/-- The number that a value stands for. -/
def toNumber : Value → Number
  | null => .int 0
  | bool b => .int (if b then 1 else 0)
  | num n => n
  | str s => .ofText s
  | _ => .nan

/-- The value as a signed word of 32 bits. -/
def toInt32 (v : Value) : Int := v.toNumber.toInt32

/-- The type that a sketch is told. -/
def typeOf : Value → String
  | null => "undefined"
  | bool _ => "boolean"
  | num _ => "number"
  | str _ => "string"
  | function .. | board _ | math _ | listMember .. | textMember .. | toFixed .. => "function"
  | list _ | row _ | bag _ | complex .. => "object"

/-- The name of the type in messages. -/
def typeName : Value → String
  | null => "NoneType"
  | bool _ => "bool"
  | num (.int _) => "int"
  | num (.float _) => "float"
  | str _ => "str"
  | list _ => "list"
  | row _ => "tuple"
  | function .. => "SketchFunction"
  | board _ => "method"
  | math .random => "builtin_function_or_method"
  | math _ | listMember .. | textMember .. | toFixed .. => "function"
  | bag _ => "Namespace"
  | complex .. => "complex"

end Value
end LedSketch
