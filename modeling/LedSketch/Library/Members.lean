import LedSketch.Library.Mathematics
import LedSketch.Running.Eval

/-!
# Members of values

What a sketch finds behind a dot or between brackets: the length and the functions of lists and
texts, `toFixed` of numbers, and the members of bags. Reading from null is an error, and whatever
else is not there reads as null.

Members are part of the value semantics of the evaluator (`SPEC_FULL.md:67-69`), which the
specification does not list one by one.

* `Members.position?` — the place that a key names;
* `Members.element` — reading by a key;
* `Members.storeAt` — writing by a key, which fills the gap with nulls.
-/

namespace LedSketch.Members

/-! ## Behind a dot -/

/-- The functions of a list by name. -/
def ofList? : String → Option ListMember
  | "push" => some .push
  | "pop" => some .pop
  | "includes" => some .includes
  | "indexOf" => some .indexOf
  | "join" => some .join
  | _ => none

/-- The functions of a text by name. -/
def ofText? : String → Option TextMember
  | "toUpperCase" => some .toUpperCase
  | "toLowerCase" => some .toLowerCase
  | "includes" => some .includes
  | "indexOf" => some .indexOf
  | "charAt" => some .charAt
  | _ => none

/-- The members of the mathematical library. -/
def ofMath : String → Value
  | "PI" => .float Mathematics.pi
  | "E" => .float Mathematics.e
  | "floor" => .math .floor
  | "ceil" => .math .ceil
  | "round" => .math .round
  | "trunc" => .math .trunc
  | "abs" => .math .abs
  | "sqrt" => .math .sqrt
  | "pow" => .math .pow
  | "sin" => .math .sin
  | "cos" => .math .cos
  | "tan" => .math .tan
  | "min" => .math .min
  | "max" => .math .max
  | "random" => .math .random
  | _ => .null

/-- The members of a bag. -/
def ofBag : Bag → String → Value
  | .math, name => ofMath name
  | .empty .., _ => .null

/-- The number of a numeric value. -/
def numeric? : Value → Option Number
  | .bool b => some (.int (if b then 1 else 0))
  | .num n => some n
  | _ => none

/-- The member of a value. -/
def get (object : Value) (name : String) : Eval Value := do
  match object with
  | .null => Eval.complain (.readOfNull name)
  | .bag b => return ofBag b name
  | .list ref =>
    if name = "length" then return .int ((← Eval.store).items ref).length
    match ofList? name with
    | some m => return .listMember ref m (← Eval.freshToken)
    | none => return .null
  | .str s =>
    if name = "length" then return .int s.length
    match ofText? name with
    | some m => return .textMember s m (← Eval.freshToken)
    | none => return .null
  | v => match numeric? v with
    | some n => if name = "toFixed" then return .toFixed n (← Eval.freshToken) else return .null
    | none => return .null

/-! ## Between brackets -/

/-- The place that a key names for reading; fractions and what is not finite name none. -/
def position? (key : Value) : Option Int :=
  match key.toNumber with
  | .int n => some n
  | .float x => (Binary64.decode? x).bind Binary64.Exact.toInt?

/-- The element at a place. -/
def elementAt {α : Type} (as : List α) (i : Int) : Option α := if 0 ≤ i then as[i.toNat]? else none

/-- What a key reads from a container. -/
def element (container key : Value) : Eval Value := do
  match container with
  | .list ref =>
    let items := (← Eval.store).items ref
    return ((position? key).bind (elementAt items)).getD .null
  | .str s =>
    let c? := (position? key).bind (elementAt s.toList)
    return (c?.map fun c => .str (String.ofList [c])).getD .null
  | .bag b => return ofBag b (← Eval.display key)
  | .null => Eval.complain (.readOfNull (← Eval.display key))
  | _ => return .null

/-- A list with one place written; a gap in front of the place is filled with nulls. -/
def written (items : List Value) (i : Nat) (v : Value) : List Value :=
  (items ++ List.replicate (i + 1 - items.length) Value.null).set i v

theorem length_written (items : List Value) (i : Nat) (v : Value) :
    (written items i v).length = max items.length (i + 1) := by
  simp only [written, List.length_set, List.length_append, List.length_replicate]
  omega

theorem getElem?_written_self (items : List Value) (i : Nat) (v : Value) :
    (written items i v)[i]? = some v := by
  have h : i < (items ++ List.replicate (i + 1 - items.length) Value.null).length := by
    simp only [List.length_append, List.length_replicate]
    omega
  simp [written, List.getElem?_set_self h]

/-- The first number of places that no machine integer counts. -/
def gapLimit : Nat := 0x8000000000000000

/-- Writes into a list at a place. -/
def writeAt (ref : ListRef) (i : Nat) (v : Value) : Eval Unit := do
  let st ← Eval.store
  if gapLimit ≤ i + 1 - (st.items ref).length then
    throw (.mishap .gapTooLong)
  else
    Eval.setStore (st.setItems ref (written (st.items ref) i v))

/-- Writes into a list by a key, whose fraction is dropped. -/
def storeAt (ref : ListRef) (key v : Value) : Eval Unit := do
  let i ← Eval.ofMishap key.toNumber.truncate
  if i < 0 then
    let _ ← Eval.ofMishap (Number.intText i)
    Eval.complain (.badArrayIndex i)
  writeAt ref i.toNat v

/-! ## Functions of lists, texts and numbers -/

/-- The integer that a value is taken for where a function needs one. -/
def integer : Value → Except Mishap Int
  | .num n => n.truncate
  | .bool b => .ok (if b then 1 else 0)
  | .str s => Reading.readInt 10 s.toList
  | v => .error (.noInteger v.typeName)

/-- The place of an item in a list. -/
def placeOf? (st : Store) (items : List Value) (item : Value) : Option Nat :=
  items.findIdx? fun x => st.strictEquals x item

/-- Whether a text begins with another one. -/
def beginsWith : List Char → List Char → Bool
  | [], _ => true
  | _ :: _, [] => false
  | c :: cs, d :: ds => c == d && beginsWith cs ds

/-- The place of a text in another one. -/
def textPlace? (part : List Char) : List Char → Nat → Option Nat
  | [], i => if part.isEmpty then some i else none
  | c :: cs, i => if beginsWith part (c :: cs) then some i else textPlace? part cs (i + 1)

/-- The value of a place, or one below the first. -/
def placeValue (place : Option Nat) : Value := .int ((place.map Int.ofNat).getD (-1))

/-- Calls a function of a list. -/
def callList (ref : ListRef) (m : ListMember) (args : List Value) : Eval Value := do
  Eval.ofMishap (m.arity.check args.length)
  let st ← Eval.store
  let items := st.items ref
  let item := args.headD .null
  match m with
  | .push =>
    Eval.setStore (st.setItems ref (items ++ args))
    return .int (items.length + args.length)
  | .pop =>
    Eval.setStore (st.setItems ref items.dropLast)
    return items.getLastD .null
  | .includes => return .bool (placeOf? st items item).isSome
  | .indexOf => return placeValue (placeOf? st items item)
  | .join => match args.headD (.str ",") with
    | .str separator =>
      let texts ← items.mapM fun v => match v with
        | .null => pure ""
        | v => Eval.display v
      return .str (separator.intercalate texts)
    | v => throw (.mishap (.noMember v.typeName "join"))

/-- Calls a function of a text. -/
def callText (s : String) (m : TextMember) (args : List Value) : Eval Value := do
  Eval.ofMishap (m.arity.check args.length)
  let part : Eval (List Char) := return (← Eval.display (args.headD .null)).toList
  match m with
  | .toUpperCase => return .str (Text.upper s)
  | .toLowerCase => return .str (Text.lower s)
  | .includes => return .bool (textPlace? (← part) s.toList 0).isSome
  | .indexOf => return placeValue (textPlace? (← part) s.toList 0)
  | .charAt =>
    let i ← Eval.ofMishap (integer (args.headD (.int 0)))
    return .str (String.ofList (elementAt s.toList i).toList)

/-- Writes a number with a fixed number of places. -/
def callToFixed (n : Number) (args : List Value) : Eval Value := do
  Eval.ofMishap (toFixedArity.check args.length)
  let places ← Eval.ofMishap (integer (args.headD (.int 0)))
  return .str (← Eval.ofMishap (n.fixed places))

/-- Calls a function of the mathematical library. -/
def callMath (f : MathFunction) (args : List Value) : Eval Value := do
  match ← Eval.ofMishap (Mathematics.call f args) with
  | .complex re im => return .complex re im (← Eval.freshToken)
  | .real n => match f with
    | .random => return .float (← Eval.ask .chance)
    | _ => return .num n

end LedSketch.Members
