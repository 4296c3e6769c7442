import LedSketch.Store.Display

/-!
# Operators

The binary operators of the host form. Numbers add as numbers; a text or a list on either side makes
`+` join texts. Comparison of two texts is by code points, all else compares as numbers. The bitwise
operators work on signed words of 32 bits.

The operators are those of the rules from `logical_or` to `multiplicative`
(`grammar/lumalab_grammar.yaml:317-455`), but for the two that decide whether an operand is
evaluated.
-/

namespace LedSketch

/-! ## Words of 32 bits -/

namespace Word

-- Powers are those of the core library, also where other ones are in scope; there the type of an
-- exponent has to be known.
attribute [local instance (high)] instPowNat

/-- The bits of an integer below its sign, as a number: those of the integer itself, and flipped where
it is negative. -/
def magnitude (a : Int) : Nat := (if a < 0 then -a - 1 else a).toNat

/-- An operation on all bits of two integers of any size. Two's complement goes on with the sign without
end, so the operation is one on the signs and one on the bits that are left. -/
def combine (f : Bool → Bool → Bool) (a b : Int) : Int :=
  let s := decide (a < 0)
  let t := decide (b < 0)
  let bits : Nat := Nat.bitwise (fun x y => f (x ^^ s) (y ^^ t) ^^ f s t) (magnitude a) (magnitude b)
  if f s t then -bits - 1 else bits

/-- A bitwise operation on two integers, of which a word is left. -/
def bitwise (f : Bool → Bool → Bool) (a b : Int) : Int := (combine f a b).bmod (2 ^ (32 : Nat))

/-- Shifts left; the count is taken modulo 32 and what leaves the word is lost. -/
def shiftLeft (a b : Int) : Int := (a * 2 ^ (b % 32).toNat).bmod (2 ^ (32 : Nat))

/-- Shifts right, keeping the sign; the count is taken modulo 32. -/
def shiftRight (a b : Int) : Int := a.fdiv (2 ^ (b % 32).toNat)

/-- Flips every bit. -/
def complement (a : Int) : Int := (-a - 1).bmod (2 ^ (32 : Nat))

end Word

namespace Store

/-! ## Equality -/

/-- Whether two values that are no lists are equal as data. -/
def samePlain (a b : Value) : Bool :=
  if a.isNumeric && b.isNumeric then a.toNumber.eq b.toNumber
  else match a, b with
    | .complex re im _, .complex re' im' _ => re == re' && im == im'
    | a, b => a = b

/-- Whether two values are equal as data, their lists item by item, nested at most `depth` deep. -/
def sameWithin (st : Store) : Nat → Value → Value → Bool
  | depth, .list r, .list s => r = s || sameItems depth (st.items r) (st.items s)
  | depth, .row r, .row s => r = s || sameItems depth (st.items r) (st.items s)
  | _, a, b => samePlain a b
where
  sameItems : Nat → List Value → List Value → Bool
    | 0, _, _ => false
    | depth + 1, as, bs =>
      as.length = bs.length && (as.zip bs).all fun p => sameWithin st depth p.1 p.2

/-- Whether two values are equal without conversion. -/
def strictEquals (st : Store) (a b : Value) : Bool :=
  if a.typeOf ≠ b.typeOf then false
  else match a with
    | .list _ | .function .. | .bag _ => a = b
    | _ => st.sameWithin (st.lists.size + 1) a b

/-- Whether the value is a truth value, a number or a text. -/
def isScalar (v : Value) : Bool := v.isNumeric || v.isText

/-- Whether two values are equal, scalars of different types as numbers. -/
def looseEquals (a b : Value) : Bool :=
  match a, b with
  | .null, b => b = .null
  | _, .null => false
  | .str s, .str t => s = t
  | a, b => if isScalar a && isScalar b then a.toNumber.eq b.toNumber else a = b

/-! ## Arithmetic -/

/-- Takes over the outcome of an operation on numbers. -/
def numeric (r : Except Mishap Number) : Except Fault Value :=
  match r with
  | .ok n => .ok (.num n)
  | .error m => .error (.mishap m)

/-- Takes over a text. -/
def textual (r : Except Mishap String) : Except Fault String :=
  match r with
  | .ok s => .ok s
  | .error m => .error (.mishap m)

/-- Whether `+` joins texts. -/
def joinsTexts (a b : Value) : Bool :=
  !(a.isNumeric && b.isNumeric) && (a.isText || b.isText || a.isList || b.isList)

/-- Addition of numbers, or the joined texts. -/
def plus (st : Store) (a b : Value) : Except Fault Value :=
  if joinsTexts a b then do
    return .str ((← textual (st.display a)) ++ (← textual (st.display b)))
  else numeric (a.toNumber.add b.toNumber)

/-- Compares two texts by their code points, and all else as numbers. -/
def order? (a b : Value) : Option Ordering :=
  match a, b with
  | .str s, .str t => some (compare s t)
  | a, b => a.toNumber.compare? b.toNumber

/-- Applies a binary operator. -/
def binaryOperator (st : Store) (op : String) (a b : Value) : Except Fault Value :=
  match op with
  | "+" => st.plus a b
  | "-" => numeric (a.toNumber.sub b.toNumber)
  | "*" => numeric (a.toNumber.mul b.toNumber)
  | "/" => numeric (a.toNumber.div b.toNumber)
  | "%" => numeric (a.toNumber.mod b.toNumber)
  | "<" => .ok (.bool (order? a b == some .lt))
  | ">" => .ok (.bool (order? a b == some .gt))
  | "<=" => .ok (.bool (order? a b == some .lt || order? a b == some .eq))
  | ">=" => .ok (.bool (order? a b == some .gt || order? a b == some .eq))
  | "==" => .ok (.bool (looseEquals a b))
  | "!=" => .ok (.bool !(looseEquals a b))
  | "===" => .ok (.bool (st.strictEquals a b))
  | "!==" => .ok (.bool !(st.strictEquals a b))
  | "&" => .ok (.int (Word.bitwise (· && ·) a.toInt32 b.toInt32))
  | "|" => .ok (.int (Word.bitwise (· || ·) a.toInt32 b.toInt32))
  | "^" => .ok (.int (Word.bitwise (· ^^ ·) a.toInt32 b.toInt32))
  | "<<" => .ok (.int (Word.shiftLeft a.toInt32 b.toInt32))
  | ">>" => .ok (.int (Word.shiftRight a.toInt32 b.toInt32))
  | "," => .ok b
  | _ => .error (.sketch { complaint := .unsupportedOperator op })

end Store
end LedSketch
