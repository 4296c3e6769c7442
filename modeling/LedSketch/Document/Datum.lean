import LedSketch.Number.Basic

/-!
# Data of documents

What configuration files and other structured texts hold: a `Datum` is null, a truth value, a
number, a text, a list or a mapping whose entries keep their order.
-/

namespace LedSketch

/-- A value of a structured document. -/
inductive Datum where
  | null
  | bool (b : Bool)
  | num (n : Number)
  | str (s : String)
  | list (items : List Datum)
  | row (items : List Datum)
  | map (entries : List (Datum × Datum))
  /-- A value of a type that settings and sketches do not use, with its type and its text. -/
  | other (type shown : String)

namespace Datum

instance : Inhabited Datum := ⟨.null⟩

/-- The name of the type of a datum in messages. -/
def typeName : Datum → String
  | null => "NoneType"
  | bool _ => "bool"
  | num (.int _) => "int"
  | num (.float _) => "float"
  | str _ => "str"
  | list _ => "list"
  | row _ => "tuple"
  | map _ => "dict"
  | other type _ => type

/-- The text of a number inside a message. -/
def numberText : Number → String
  | .int n => Decimal.intText n
  | .float x => Decimal.floatText x

mutual

/-- How a datum is shown inside another one: texts are quoted. -/
def shown : Datum → String
  | null => "None"
  | bool b => if b then "True" else "False"
  | num n => numberText n
  | str s => Text.quoted s
  | list items => "[" ++ ", ".intercalate (shownAll items) ++ "]"
  | row [item] => "(" ++ shown item ++ ",)"
  | row items => "(" ++ ", ".intercalate (shownAll items) ++ ")"
  | map entries => "\x7b" ++ ", ".intercalate (shownEntries entries) ++ "\x7d"
  | other _ text => text

/-- The shown forms of a list. -/
def shownAll : List Datum → List String
  | [] => []
  | d :: ds => shown d :: shownAll ds

/-- The shown forms of entries. -/
def shownEntries : List (Datum × Datum) → List String
  | [] => []
  | (k, v) :: rest => (shown k ++ ": " ++ shown v) :: shownEntries rest

end

/-- The plain text of a datum: a text stands for itself. -/
def plain : Datum → String
  | str s => s
  | d => d.shown

/-- Whether two data are equal as keys. -/
def sameKey : Datum → Datum → Bool
  | str a, str b => a == b
  | null, null => true
  | bool a, bool b => a == b
  | num a, num b => a.eq b
  | bool a, num b => (Number.int (if a then 1 else 0)).eq b
  | num a, bool b => a.eq (.int (if b then 1 else 0))
  | _, _ => false

/-- The value under a text key. -/
def lookup? (key : String) (entries : List (Datum × Datum)) : Option Datum :=
  (entries.find? fun e => match e.1 with
    | str s => s == key
    | _ => false).map (·.2)

/-- Puts a value under a key: in place if the key is there, else at the end. -/
def put (entries : List (Datum × Datum)) (key value : Datum) : List (Datum × Datum) :=
  if entries.any fun e => e.1.sameKey key then
    entries.map fun e => if e.1.sameKey key then (e.1, value) else e
  else entries ++ [(key, value)]

end Datum
end LedSketch
