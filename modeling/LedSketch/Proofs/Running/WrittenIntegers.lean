import LedSketch.Proofs.Number.Digits
import LedSketch.Proofs.Running.Modifying

/-!
# A written integer is as good as the integer

Joined to a text, an integer turns into its decimal text. All operators of arithmetic but `+` read
what they are given as numbers, so none of them can tell the text of an integer from the integer,
whatever blanks stand around it, and the two are loosely equal.

* `Value.StandsFor`: a value that arithmetic takes for an integer.
* `Value.standsFor_of_toNumber`: it is enough to be a number, a truth value or a text, and to be read
  as the integer.
* `Store.display_int`: which integers have a text.
* `integer_survives_display`: the text of an integer stands for it.
-/

namespace LedSketch

open Running

/-! ## Arithmetic -/

/-- The operators of arithmetic, on numbers and on words. -/
def arithmeticOperators : List String := ["+", "-", "*", "/", "%", "&", "|", "^", "<<", ">>"]

/-- The operators of arithmetic in front of their only operand. -/
def unaryArithmeticOperators : List String := ["+", "-", "~"]

/-- Whether a change reads the old value as a number: counting does, and so do the compound
assignments with an operator of arithmetic, but for `+=`. -/
def Running.Change.ReadsNumber : Change → Prop
  | .compound op .. => compoundOperator op ∈ arithmeticOperators ∧ compoundOperator op ≠ "+"
  | .step .. => True

/-- **A value stands for an integer** if it is loosely equal to it, and no arithmetic but `+` can tell
the two apart, whatever the other operand is. -/
structure Value.StandsFor (v : Value) (n : Int) : Prop where
  number : v.toNumber = .int n
  equal : ∀ st : Store, st.binaryOperator "==" v (.int n) = .ok (.bool true) ∧
    st.binaryOperator "==" (.int n) v = .ok (.bool true)
  left : ∀ (st : Store) (w : Value), ∀ op ∈ arithmeticOperators, op ≠ "+" →
    st.binaryOperator op v w = st.binaryOperator op (.int n) w
  right : ∀ (st : Store) (w : Value), ∀ op ∈ arithmeticOperators, op ≠ "+" →
    st.binaryOperator op w v = st.binaryOperator op w (.int n)
  unary : ∀ op ∈ unaryArithmeticOperators, unaryOperator op v = unaryOperator op (.int n)
  change : ∀ (b : Binding) (fuel : Nat) (scope : ScopeRef) (c : Change), c.ReadsNumber →
    c.compute b fuel scope v = c.compute b fuel scope (.int n)

namespace Value

variable {st : Store} {v v' w w' : Value} {n : Int} {op : String} {b : Binding} {fuel : Nat}
  {scope : ScopeRef} {c : Change}

/-- Of its operands, arithmetic asks for no more than their numbers. -/
theorem binaryOperator_congr (hv : v.toNumber = v'.toNumber) (hw : w.toNumber = w'.toNumber)
    (ho : op ∈ arithmeticOperators) (hplus : op ≠ "+") :
    st.binaryOperator op v w = st.binaryOperator op v' w' := by
  simp only [arithmeticOperators, List.mem_cons, List.not_mem_nil, or_false] at ho
  rcases ho with rfl | rfl | rfl | rfl | rfl | rfl | rfl | rfl | rfl | rfl
  · exact absurd rfl hplus
  all_goals simp only [Store.binaryOperator, toInt32, hv, hw]

theorem unaryOperator_congr (hv : v.toNumber = v'.toNumber) (ho : op ∈ unaryArithmeticOperators) :
    unaryOperator op v = unaryOperator op v' := by
  simp only [unaryArithmeticOperators, List.mem_cons, List.not_mem_nil, or_false] at ho
  rcases ho with rfl | rfl | rfl
  all_goals simp only [unaryOperator, toInt32, hv]

theorem compute_congr (hv : v.toNumber = v'.toNumber) (hc : c.ReadsNumber) :
    c.compute b fuel scope v = c.compute b fuel scope v' := by
  cases c with
  | compound op proper value =>
    simp only [Change.compute, binaryOperator_congr hv rfl hc.1 hc.2]
  | step op before => simp only [Change.compute, hv]

theorem looseEquals_of_toNumber (hs : Store.isScalar v = true) (hn : v.toNumber = .int n) :
    Store.looseEquals v (.int n) = true ∧ Store.looseEquals (.int n) v = true := by
  have heq : (Number.int n).eq (.int n) = true := by
    rw [Number.eq, Number.compare?_int, Std.compare_self]
    rfl
  cases v with
  | bool | num | str =>
    all_goals
      constructor
      · show (Value.toNumber _).eq (.int n) = true
        rw [hn, heq]
      · show (Number.int n).eq (Value.toNumber _) = true
        rw [hn, heq]
  | _ => cases hs

/-- Numbers, truth values and texts stand for the integers that they are read as. -/
theorem standsFor_of_toNumber (hs : Store.isScalar v = true) (hn : v.toNumber = .int n) :
    v.StandsFor n where
  number := hn
  equal st := by
    obtain ⟨h, h'⟩ := looseEquals_of_toNumber hs hn
    exact ⟨by rw [Store.binaryOperator, h], by rw [Store.binaryOperator, h']⟩
  left _ _ _ ho hplus := binaryOperator_congr hn rfl ho hplus
  right _ _ _ ho hplus := binaryOperator_congr rfl hn ho hplus
  unary _ ho := unaryOperator_congr hn ho
  change _ _ _ _ hc := compute_congr hn hc

end Value

/-! ## Integers as texts -/

namespace Store

/-- What is no list is displayed by itself. -/
theorem display_plain (st : Store) {v : Value} (hlist : ∀ ref, v ≠ .list ref)
    (hrow : ∀ ref, v ≠ .row ref) : st.display v = st.displayPlain v := by
  rw [display, displayWithin]
  · exact hlist
  · exact hrow

theorem display_int (st : Store) (n : Int) :
    st.display (.int n) = if (Decimal.digits n.natAbs).length ≤ Reading.digitLimit then
      .ok (Decimal.intText n) else .error .integerTooLong := by
  rw [← Number.intText_eq]
  exact display_plain st nofun nofun

/-- The empty text makes a text of what it is joined to. -/
theorem plus_empty (st : Store) (v : Value) {text : String} (h : st.display v = .ok text) :
    st.binaryOperator "+" (.str "") v = .ok (.str text) := by
  have hjoins : joinsTexts (.str "") v = true := rfl
  have hempty : st.display (.str "") = .ok "" := display_plain st nofun nofun
  rw [binaryOperator, plus, if_pos hjoins, hempty, h]
  show Except.ok (Value.str ("" ++ text)) = _
  rw [String.empty_append]

end Store

/-- **The text of an integer stands for the integer.** Every integer of no more digits than the limit
has a text, which joining it to the empty text gives, and which stands for the integer with any blanks
around it. -/
theorem integer_survives_display {n : Int}
    (h : (Decimal.digits n.natAbs).length ≤ Reading.digitLimit) :
    (∀ st : Store, st.display (.int n) = .ok (Decimal.intText n) ∧
      st.binaryOperator "+" (.str "") (.int n) = .ok (.str (Decimal.intText n))) ∧
    (Value.str (Decimal.intText n)).toNumber = .int n ∧
    ∀ before after : String, (∀ c ∈ before.toList, Text.isSpace c = true) →
      (∀ c ∈ after.toList, Text.isSpace c = true) →
      (Value.str (before ++ Decimal.intText n ++ after)).StandsFor n := by
  have stands (before after : String) (hb : ∀ c ∈ before.toList, Text.isSpace c = true)
      (ha : ∀ c ∈ after.toList, Text.isSpace c = true) :
      (Value.str (before ++ Decimal.intText n ++ after)).StandsFor n :=
    Value.standsFor_of_toNumber rfl (Number.ofText_padded h hb ha)
  have shown (st : Store) : st.display (.int n) = .ok (Decimal.intText n) := by
    rw [Store.display_int, if_pos h]
  refine ⟨fun st => ⟨shown st, st.plus_empty _ (shown st)⟩, ?_, stands⟩
  have bare := (stands "" "" nofun nofun).number
  rwa [String.empty_append, String.append_empty] at bare

/-- An integer that no double is. -/
theorem integer_survives_display_odd :
    (Decimal.digits (-9007199254740993 : Int).natAbs).length ≤ Reading.digitLimit ∧
    (Value.str "\t -9007199254740993\n").StandsFor (-9007199254740993) := by
  have h : (Decimal.digits (-9007199254740993 : Int).natAbs).length ≤ Reading.digitLimit := by
    decide +kernel
  have hb : "\t ".toList.all Text.isSpace = true := by decide
  have ha : "\n".toList.all Text.isSpace = true := by decide
  exact ⟨h, (integer_survives_display h).2.2 "\t " "\n" (List.all_eq_true.mp hb)
    (List.all_eq_true.mp ha)⟩

end LedSketch
