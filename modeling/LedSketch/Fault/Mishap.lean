import LedSketch.Text.Quoted

/-!
# Mishaps of operations and builtins

A mishap is what goes wrong inside an operator, a conversion or a builtin, before anybody knows
where in a sketch it happened. Each constructor is one cause; `Mishap.kind` and `Mishap.text` say
how a report names it.
-/

namespace LedSketch

/-- The classes of mishaps that reports tell apart. -/
inductive MishapKind where
  | typeMismatch
  | badValue
  | overflow
  | zeroDivision
  | missingKey
  | missingAttribute
  | badIndex
  | recursion
deriving DecidableEq, Repr

/-- The name of a class in reports. -/
def MishapKind.label : MishapKind → String
  | typeMismatch => "TypeError"
  | badValue => "ValueError"
  | overflow => "OverflowError"
  | zeroDivision => "ZeroDivisionError"
  | missingKey => "KeyError"
  | missingAttribute => "AttributeError"
  | badIndex => "IndexError"
  | recursion => "RecursionError"

/-- What went wrong inside an operator, a conversion or a builtin. -/
inductive Mishap where
  /-- An integer beyond the range of doubles. -/
  | integerTooLarge
  /-- A quotient of integers beyond the range of doubles. -/
  | quotientTooLarge
  | infinityToInteger
  | nanToInteger
  | powerTooLarge
  | complexTooLarge
  | divisionByZero (ofFloats : Bool)
  | zeroToNegativePower
  /-- An argument outside the domain of a function. -/
  | outsideDomain
  /-- An integer with too many digits to be written. -/
  | integerTooLong
  /-- A numeral with too many digits to be read. -/
  | numeralTooLong (digits : Nat)
  | badInteger (base : Nat) (shown : String)
  | badFloat (shown : String)
  /-- A value of a type that has no integer. -/
  | noInteger (type : String)
  | noPrecision
  | precisionTooLarge
  /-- A precision whose numeral is no machine integer. -/
  | precisionTooLong
  | noMember (type member : String)
  | missingArguments (callee : String) (names : List String)
  | extraArguments (callee : String) (least most given : Nat)
  | unwantedArguments (callee : String) (given : Nat)
  /-- Nesting without an end. -/
  | tooDeep
  | missingField (name : String)
  | noSuchElement
  /-- A datum where a tree was expected. -/
  | notATree (shown : String)
  | unknownTag (shown : String)
  | tooFew (expected : String) (got : Nat)
  | tooMany (expected : Nat)
  | notIterable (type : String)
  | notIndexed (type : String)
  /-- A text that is asked for a part by name. -/
  | namedPart
  /-- Something else where a text was expected. -/
  | noText (type : String)
  | emptyPop
  /-- A character of an empty text. -/
  | noSuchCharacter
  /-- A code far beyond all characters. -/
  | codeTooLarge
  /-- A gap in a list of more places than a machine integer counts. -/
  | gapTooLong
  | unhashable (type : String)
  /-- A value that is refused in given words. -/
  | refused (words : String)
deriving DecidableEq, Repr

namespace Mishap

/-- The class of a mishap. -/
def kind : Mishap → MishapKind
  | integerTooLarge | quotientTooLarge | infinityToInteger | powerTooLarge | complexTooLarge
  | codeTooLarge | gapTooLong =>
    .overflow
  | divisionByZero _ | zeroToNegativePower => .zeroDivision
  | nanToInteger | outsideDomain | integerTooLong | numeralTooLong _ | badInteger .. | badFloat _
  | noPrecision | precisionTooLarge | precisionTooLong | unknownTag _ | tooFew .. | tooMany _
  | refused _ =>
    .badValue
  | noMember .. => .missingAttribute
  | missingField _ => .missingKey
  | noSuchElement | noSuchCharacter | emptyPop => .badIndex
  | tooDeep => .recursion
  | noInteger _ | missingArguments .. | extraArguments .. | unwantedArguments .. | notATree _
  | notIterable _ | notIndexed _ | namedPart | noText _ | unhashable _ => .typeMismatch

private def digitLimitText (detail : String) : String :=
  s!"Exceeds the limit (4300 digits) for integer string conversion{detail}; "
    ++ "use sys.set_int_max_str_digits() to increase the limit"

private def plural (n : Nat) (word : String) : String := if n = 1 then word else word ++ "s"

/-- Names in quotes, as a list in prose. -/
def listed (names : List String) : String :=
  let quoted := names.map fun n => s!"'{n}'"
  match quoted with
  | [] => ""
  | [a] => a
  | [a, b] => s!"{a} and {b}"
  | _ => ", ".intercalate quoted.dropLast ++ ", and " ++ quoted.getLastD ""

/-- The words that report a mishap. -/
def text : Mishap → String
  | integerTooLarge => "int too large to convert to float"
  | quotientTooLarge => "integer division result too large for a float"
  | infinityToInteger => "cannot convert float infinity to integer"
  | nanToInteger => "cannot convert float NaN to integer"
  | powerTooLarge => "(34, 'Numerical result out of range')"
  | complexTooLarge => "complex exponentiation"
  | divisionByZero ofFloats => if ofFloats then "float division by zero" else "division by zero"
  | zeroToNegativePower => "0.0 cannot be raised to a negative power"
  | outsideDomain => "math domain error"
  | integerTooLong => digitLimitText ""
  | numeralTooLong n => digitLimitText s!": value has {n} digits"
  | badInteger base shown => s!"invalid literal for int() with base {base}: {shown}"
  | badFloat shown => s!"could not convert string to float: {shown}"
  | noInteger type =>
    "int() argument must be a string, a bytes-like object or a real number, not " ++ s!"'{type}'"
  | noPrecision => "Format specifier missing precision"
  | precisionTooLarge => "precision too big"
  | precisionTooLong => "Too many decimal digits in format string"
  | noMember type member => s!"'{type}' object has no attribute '{member}'"
  | missingArguments callee names =>
    let noun := plural names.length "argument"
    s!"{callee}() missing {names.length} required positional {noun}: " ++ listed names
  | extraArguments callee least most given =>
    let takes := if least = most then toString most else s!"from {least} to {most}"
    let noun := if least = most then plural most "argument" else "arguments"
    s!"{callee}() takes {takes} positional {noun} but {given} "
      ++ (if given = 1 then "was given" else "were given")
  | unwantedArguments callee given => s!"{callee}() takes no arguments ({given} given)"
  | tooDeep => "maximum recursion depth exceeded"
  | missingField name => Text.quoted name
  | noSuchElement => "list index out of range"
  | notATree shown => s!"Unexpected raw node: {shown}"
  | unknownTag shown => s!"Unknown node tag: {shown}"
  | tooFew expected got => s!"not enough values to unpack (expected {expected}, got {got})"
  | tooMany expected => s!"too many values to unpack (expected {expected})"
  | notIterable type => s!"'{type}' object is not iterable"
  | notIndexed type => s!"'{type}' object is not subscriptable"
  | namedPart => "string indices must be integers, not 'str'"
  | noText type => s!"expected string or bytes-like object, got '{type}'"
  | emptyPop => "pop from empty list"
  | noSuchCharacter => "string index out of range"
  | codeTooLarge => "Python int too large to convert to C int"
  | gapTooLong => "cannot fit 'int' into an index-sized integer"
  | unhashable type => s!"unhashable type: '{type}'"
  | refused words => words

end Mishap

end LedSketch
