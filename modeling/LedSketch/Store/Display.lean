import LedSketch.Store.Basic

/-!
# Texts of values

This is the printer of section 2 of the specification (`SPEC_FULL.md:80-81`).

* `Store.display` — how a sketch shows a value: lists are their items between commas, null items
  leaving nothing;
* `Store.shown` — how messages show a value inside another one: texts are quoted, and a list inside
  itself is cut short.

A list that holds itself has no end to display, which is a mishap; integers with too many digits
have no text either.
-/

namespace LedSketch

/-- The name of a board function in its text. -/
def BoardFunction.hostName : BoardFunction → String
  | pinMode => "pin_mode"
  | digitalWrite => "digital_write"
  | analogWrite => "analog_write"
  | digitalRead => "digital_read"
  | analogRead => "analog_read"
  | toggle => "toggle"
  | setAll => "set_all"
  | shiftLeft => "shift_left"
  | shiftRight => "shift_right"
  | delay => "delay"
  | millis => "millis"
  | random => "random"
  | constrain => "constrain"
  | map => "map_range"
  | print => "print"

/-- The name of a function without one. -/
def nameless : String := "<lambda>"

/-- The name of a mathematical function in its text. -/
def MathFunction.hostName : MathFunction → String
  | round => "_js_round"
  | sqrt => "_sqrt"
  | random => "random"
  | _ => nameless

/-- The name of a list member in its text. -/
def ListMember.hostName : ListMember → String
  | push => "push"
  | _ => nameless

/-- The name of a function that is no function of a sketch. -/
def Value.hostName? : Value → Option String
  | board f => some f.hostName
  | math f => some f.hostName
  | listMember _ m _ => some m.hostName
  | textMember .. | toFixed .. => some nameless
  | _ => none

/-- A double in a complex number: without a fraction if it has none. -/
def complexPart (x : Float) : String :=
  let s := Decimal.floatText x
  if s.endsWith ".0" then (s.dropEnd 2).toString else s

/-- The text of a complex number. -/
def complexText (re im : Float) : String :=
  let imPart := complexPart im ++ "j"
  if re == 0.0 && !Binary64.signBit re then imPart
  else
    let sign := if Binary64.signBit im then "" else "+"
    "(" ++ complexPart re ++ sign ++ imPart ++ ")"

namespace Store

/-- The heading of a function of a sketch. -/
def heading (st : Store) (scope : ScopeRef) (name : String) : String :=
  match st.closure? scope name with
  | some c =>
    let word := if c.isAsync then "async function" else "function"
    let params := ", ".intercalate c.params
    s!"{word} {name}({params})"
  | none => s!"function {name}()"

/-- The text of a value that is no list. -/
def displayPlain (st : Store) : Value → Except Mishap String
  | .null => .ok "null"
  | .bool b => .ok (if b then "true" else "false")
  | .num n => n.display
  | .str s => .ok s
  | .function scope name => .ok (st.heading scope name ++ " \x7b [code] \x7d")
  | .bag b => .ok s!"[object {b.name}]"
  | .complex re im _ => .ok (complexText re im)
  | v => .ok ("function " ++ v.hostName?.getD "anonymous" ++ "() \x7b [native code] \x7d")

/-- The text of a value whose lists are nested at most `depth` deep. -/
def displayWithin (st : Store) : Nat → Value → Except Mishap String
  | depth, .list ref => displayItems depth ref
  | depth, .row ref => displayItems depth ref
  | _, v => st.displayPlain v
termination_by depth => 2 * depth + 1
where
  displayItems : Nat → ListRef → Except Mishap String
    | 0, _ => .error .tooDeep
    | depth + 1, ref => do
      let texts ← (st.items ref).mapM fun v => match v with
        | .null => .ok ""
        | v => displayWithin st depth v
      return ",".intercalate texts
  termination_by depth => 2 * depth

/-- How a sketch shows a value. -/
def display (st : Store) (v : Value) : Except Mishap String :=
  st.displayWithin (st.lists.size + 1) v

/-- How messages show a value that is no list. -/
def shownPlain (st : Store) : Value → Except Mishap String
  | .null => .ok "None"
  | .bool b => .ok (if b then "True" else "False")
  | .num (.int n) => Number.intText n
  | .num (.float x) => .ok (Decimal.floatText x)
  | .str s => .ok (Text.quoted s)
  | .function scope name => .ok (st.heading scope name)
  | .bag b => .ok s!"<Namespace {b.name}>"
  | .complex re im _ => .ok (complexText re im)
  | v => .ok ("<function " ++ v.hostName?.getD "anonymous" ++ ">")

/-- How messages show a value; `path` holds the lists around it. -/
def shownWithin (st : Store) : Nat → List ListRef → Value → Except Mishap String
  | depth, path, .list ref =>
    if path.contains ref then .ok "[...]"
    else do return "[" ++ ", ".intercalate (← shownItems depth path ref) ++ "]"
  | depth, path, .row ref =>
    if path.contains ref then .ok "(...)"
    else do
      let items ← shownItems depth path ref
      return "(" ++ ", ".intercalate items ++ (if items.length = 1 then ",)" else ")")
  | _, _, v => st.shownPlain v
where
  shownItems : Nat → List ListRef → ListRef → Except Mishap (List String)
    | 0, _, _ => .error .tooDeep
    | depth + 1, path, ref => (st.items ref).mapM (shownWithin st depth (ref :: path))

/-- How messages show a value inside another one. -/
def shown (st : Store) (v : Value) : Except Mishap String :=
  st.shownWithin (st.lists.size + 1) [] v

/-- How messages show a value by itself: a text stands for itself. -/
def plain (st : Store) : Value → Except Mishap String
  | .str s => .ok s
  | v => st.shown v

end Store
end LedSketch
