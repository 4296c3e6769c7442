import LedSketch.Proofs.Running.Growing
import LedSketch.Proofs.Running.Stillness

/-!
# Assignments that read what they write

`a[i] op= x`, `a[i]++` and `a[i]--` read an element, compute, and write the result. What a reader
expects is that the list and the key are evaluated once (`Change.once`). The evaluator evaluates
both again before it writes, so it does what is expected exactly if the second evaluation finds the
place that was read, and changes nothing on the way.

* `Change.once`: reading and writing a place that is evaluated once.
* `Change.evaluate_change`: when evaluating the target twice is as good.
* `Change.not_once_update`: an index that counts up is read at one place and written at the next.
-/

namespace LedSketch

namespace Act

variable {α β : Type}

/-- Two ways of going on are the same if they are so behind every run. -/
theorem bind_eq_bind_iff {x : Act α} {f g : α → Act β} :
    x.bind f = x.bind g ↔ x.Always fun a => f a = g a := by
  induction x with
  | done a => exact Iff.rfl
  | ask r k ih =>
    constructor
    · intro h
      injection h with _ h
      exact ⟨trivial, fun reply _ => (ih reply).mp (congrFun h reply)⟩
    · intro h
      exact congrArg (Act.ask r) (funext fun reply => (ih reply).mpr (h.2 reply trivial))
  | rest nap k ih =>
    constructor
    · intro h
      injection h with _ h
      exact ⟨trivial, fun wake => (ih wake).mp (congrFun h wake)⟩
    · intro h
      exact congrArg (Act.rest nap) (funext fun wake => (ih wake).mpr (h.2 wake))

/-- Results that can be told apart still can be behind an injective function. -/
theorem eq_of_bind_done {f : α → β} (hf : Function.Injective f) {x y : Act α}
    (h : x.bind (fun a => .done (f a)) = y.bind fun a => .done (f a)) : x = y := by
  induction x generalizing y with
  | done a =>
    cases y with
    | done b =>
      injection h with h
      exact congrArg _ (hf h)
    | ask | rest => cases h
  | ask r k ih =>
    cases y with
    | ask r' k' =>
      injection h with hr hk
      subst hr
      exact congrArg _ (funext fun reply => ih reply (congrFun (eq_of_heq hk) reply))
    | done | rest => cases h
  | rest nap k ih =>
    cases y with
    | rest nap' k' =>
      injection h with hn hk
      subst hn
      exact congrArg _ (funext fun wake => ih wake (congrFun hk wake))
    | done | ask => cases h

end Act

namespace Eval

variable {α β : Type} {m : Memory}

/-- The same evaluation with two ends. -/
theorem bind_eq_bind_iff {x : Eval α} {f g : α → Eval β} :
    (x >>= f).runFrom m = (x >>= g).runFrom m ↔
      (x.runFrom m).Always fun r => ∀ a, r.1 = .ok a → (f a).runFrom r.2 = (g a).runFrom r.2 := by
  rw [runFrom_bind, runFrom_bind, Act.bind_eq_bind_iff]
  refine ⟨fun h => h.mono ?_, fun h => h.mono ?_⟩
  · rintro ⟨_, m'⟩ heq a rfl
    exact heq
  · rintro ⟨i | a, m'⟩ hall
    · rfl
    · exact hall a rfl

/-- A result that is the same in any case hides nothing of what was done before. -/
theorem eq_of_return {x y : Eval Unit} (a : α)
    (h : (do x; return a : Eval α).runFrom m = (do y; return a : Eval α).runFrom m) :
    x.runFrom m = y.runFrom m := by
  have run (z : Eval Unit) : (do z; return a : Eval α).runFrom m =
      (z.runFrom m).bind fun r => .done (r.1.map fun _ => a, r.2) := by
    rw [runFrom_bind]
    congr 1
    funext ⟨r, m⟩
    cases r <;> rfl
  rw [run, run] at h
  refine Act.eq_of_bind_done ?_ h
  rintro ⟨_ | _, _⟩ ⟨_ | _, _⟩ heq <;> cases heq <;> rfl

end Eval

/-- **An expression that is constant** from a memory on: a literal, or the name of a constant. -/
inductive Node.Constant (scope : ScopeRef) (m : Memory) : Node → Prop
  | literal {l v} : Constant scope m (.literal l v)
  | identifier {l name i v} (ho : m.store.owner? scope name = some i)
    (hv : (m.store.scope i).Fixed name v) : Constant scope m (.identifier l name)

namespace Running

open Eval

variable {b : Binding} {fuel : Nat} {scope : ScopeRef} {e object key : Node} {m : Memory}

/-! ## Changing an element -/

/-- How an element is changed. -/
inductive Change where
  /-- `… op= value` -/
  | compound (op : String) (proper : op ≠ "=") (value : Node)
  /-- `…++` and `…--`, or with the operator in front. -/
  | step (op : String) (before : Bool)

namespace Change

/-- The expression that changes a target. -/
def node (c : Change) (l : Option Loc) (target : Node) : Node :=
  match c with
  | compound op _ value => .assign l op target value
  | step op before => .update l op before target

/-- What is written, and the value of the whole expression. -/
def compute (b : Binding) (fuel : Nat) (scope : ScopeRef) (old : Value) :
    Change → Eval (Value × Value)
  | compound op _ value => do
    let v ← evaluate b fuel scope value
    let new ← ofFault ((← store).binaryOperator (compoundOperator op) old v)
    return (new, new)
  | step op before => do
    let old := old.toNumber
    let one : Number := .int 1
    let new ← ofMishap (if op == "++" then old.add one else old.sub one)
    return (.num new, .num (if before then new else old))

/-- Whether what the change computes with changes nothing itself. -/
def Steady : Change → Prop
  | compound _ _ value => value.Steady
  | step .. => True

/-- The place that has been read, what is to be written there, and the value of the expression. -/
structure Prepared where
  container : Value
  key : Value
  new : Value
  result : Value

/-- Evaluates the container and the key, reads the element, and computes. -/
def prepare (b : Binding) (fuel : Nat) (scope : ScopeRef) (object key : Node) (c : Change) :
    Eval Prepared := do
  let w ← evaluate b fuel scope object
  let k ← evaluate b fuel scope key
  let old ← Members.element w k
  let (new, result) ← c.compute b (fuel + 1) scope old
  return ⟨w, k, new, result⟩

/-- Writes at a place of a container. -/
def write (container key v : Value) : Eval Unit :=
  match container with
  | .list ref => Members.storeAt ref key v
  | w => complain (.indexedAssignment w.typeOf)

/-- **Changes an element whose place is evaluated once.** -/
def once (b : Binding) (fuel : Nat) (scope : ScopeRef) (object key : Node) (c : Change) :
    Eval Value := do
  let p ← c.prepare b fuel scope object key
  write p.container p.key p.new
  return p.result

variable {c : Change} {l l' : Option Loc}

/-- The evaluator reads a target, and writes through it. -/
theorem evaluate_change_target {target : Node} :
    evaluate b (fuel + 1) scope (c.node l target) = (do
      let old ← evaluate b fuel scope target
      let (new, result) ← c.compute b fuel scope old
      assign b fuel scope target new
      return result) := by
  cases c with
  | compound op proper value =>
    have h : (op == "=") = false := beq_false_of_ne proper
    rw [node, evaluate, h]
    simp [compute]
  | step op before =>
    rw [node, evaluate]
    simp [compute]

/-- The target of an element is evaluated again when it is written. -/
theorem evaluate_node : evaluate b (fuel + 2) scope (c.node l (.index l' object key)) = (do
    let p ← c.prepare b fuel scope object key
    assign b (fuel + 1) scope (.index l' object key) p.new
    return p.result) := by
  rw [evaluate_change_target, evaluate]
  simp [prepare]

/-- **Finds the place again**: behind everything that is computed, writing through the target, which
is evaluated again, has the same outcome as writing at the place that has been read. -/
def Refinds (b : Binding) (fuel : Nat) (scope : ScopeRef) (l : Option Loc) (object key : Node)
    (c : Change) (m : Memory) : Prop :=
  ((c.prepare b fuel scope object key).runFrom m).Always fun r => ∀ p, r.1 = .ok p →
    (assign b (fuel + 1) scope (.index l object key) p.new).runFrom r.2 =
      (write p.container p.key p.new).runFrom r.2

theorem evaluate_node_eq_once_iff :
    (evaluate b (fuel + 2) scope (c.node l (.index l' object key))).runFrom m =
      (c.once b fuel scope object key).runFrom m ↔ c.Refinds b fuel scope l' object key m := by
  rw [evaluate_node, once, bind_eq_bind_iff]
  refine ⟨fun h => h.mono fun r hr p hp => ?_, fun h => h.mono fun r hr p hp => ?_⟩
  · exact eq_of_return p.result (hr p hp)
  · rw [runFrom_bind, runFrom_bind, hr p hp]

theorem still_compute (h : c.Steady) (old : Value) : Still (c.compute b fuel scope old) := by
  cases c with
  | compound op proper value =>
    exact (still_evaluate h fuel).bind fun _ => still_store.bind fun _ =>
      (still_ofFault _).bind fun _ => still_pure _
  | step op before => exact (still_ofMishap _).bind fun _ => still_pure _

/-- What changes nothing finds its place again. -/
theorem refinds_of_steady (ho : object.Steady) (hk : key.Steady) (hc : c.Steady) :
    c.Refinds b fuel scope l object key m := by
  have early (i : Interrupt) : ∀ p : Prepared, Except.error i = .ok p →
      (assign b (fuel + 1) scope (.index l object key) p.new).runFrom m =
        (write p.container p.key p.new).runFrom m := by
    rintro p ⟨⟩
  refine (still_evaluate ho fuel).always_bind early fun w hw =>
    (still_evaluate hk fuel).always_bind early fun k hk =>
    (Members.still_element w k).always_bind early fun old _ =>
    (still_compute hc old).always_bind early fun ⟨new, result⟩ _ => ?_
  rintro _ ⟨⟩
  rw [assign, runFrom_bind, hw]
  cases w with
  | list ref =>
    show (_ >>= _ : Eval Unit).runFrom m = _
    rw [runFrom_bind, hk]
    rfl
  | _ => rfl

theorem grows_compute {D : ScopeRef → Prop} {st : Store} (hD : ∀ i, st.Fresh i → D i)
    (fuel : Nat) (old : Value) : Grows D st (c.compute b fuel scope old) := by
  cases c with
  | compound op proper value =>
    exact ((growing b hD fuel).evaluate scope value).bind fun _ => upholds_store.bind fun _ =>
      (grows_ofFault _).bind fun _ => upholds_pure _
  | step op before => exact (upholds_ofMishap _).grows.bind fun _ => upholds_pure _

/-- What is constant is the same behind whatever is run. -/
theorem exists_of_constant (he : e.Constant scope m) (fuel : Nat) : ∃ v, ∀ m' : Memory,
    Store.Grown m.store.Fresh m.store m'.store →
      (evaluate b (fuel + 1) scope e).runFrom m' = .done (.ok v, m') := by
  cases he with
  | @literal _ v =>
    refine ⟨v, fun m' _ => ?_⟩
    rw [evaluate]
    rfl
  | @identifier _ name i v ho hv =>
    refine ⟨v, fun m' hg => ?_⟩
    have hget : m'.store.get scope name = .ok v := by
      rw [Store.get, Store.owner?_congr hg.keeps (Store.lt_size_of_owner? ho), ho, Option.bind_some,
        (hg.keeps.fixed hv).2]
    rw [evaluate]
    show (ofComplaint (m'.store.get scope name)).runFrom m' = _
    rw [hget]
    rfl

/-- A constant place is found again, whatever the value does. -/
theorem refinds_of_constant (ho : object.Constant scope m) (hk : key.Constant scope m) :
    c.Refinds b fuel scope l object key m := by
  cases fuel with
  | zero =>
    have spent : (c.prepare b 0 scope object key).runFrom m = .done (.error .spent, m) := by
      rw [prepare, evaluate]
      rfl
    rw [Refinds, spent]
    rintro p ⟨⟩
  | succ fuel =>
    obtain ⟨w, hw⟩ := exists_of_constant (b := b) ho fuel
    obtain ⟨k, hk⟩ := exists_of_constant (b := b) hk fuel
    have run : (c.prepare b (fuel + 1) scope object key).runFrom m = (do
        let old ← Members.element w k
        let (new, result) ← c.compute b (fuel + 2) scope old
        return (⟨w, k, new, result⟩ : Prepared) : Eval Prepared).runFrom m := by
      rw [prepare, runFrom_bind, hw m .refl]
      show (_ >>= _ : Eval Prepared).runFrom m = _
      rw [runFrom_bind, hk m .refl]
      rfl
    rw [Refinds, run]
    refine (Members.still_element w k).always_bind (fun i => ?_) fun old _ => ?_
    · rintro p ⟨⟩
    rw [runFrom_bind]
    refine (grows_compute (D := m.store.Fresh) (fun _ => id) (fuel + 2) old m .refl).bind ?_
    rintro ⟨i | ⟨new, result⟩, m'⟩ ⟨hg, -⟩
    · rintro p ⟨⟩
    · rintro _ ⟨⟩
      rw [assign, runFrom_bind, hw m' hg]
      cases w with
      | list ref =>
        show (_ >>= _ : Eval Unit).runFrom m' = _
        rw [runFrom_bind, hk m' hg]
        rfl
      | _ => rfl

/-- **Evaluating the target twice** has the outcome, the value and the effects of evaluating it once
exactly if the place is found again behind everything that is computed. It is so for every change in
which the container, the key and the value change nothing themselves, and where the container and
the key are constants, whatever the value does. -/
theorem evaluate_change (b : Binding) (fuel : Nat) (scope : ScopeRef) (l l' : Option Loc)
    (object key : Node) (c : Change) (m : Memory) :
    ((evaluate b (fuel + 2) scope (c.node l (.index l' object key))).runFrom m =
      (c.once b fuel scope object key).runFrom m ↔ c.Refinds b fuel scope l' object key m) ∧
    (object.Steady ∧ key.Steady ∧ c.Steady ∨ object.Constant scope m ∧ key.Constant scope m →
      (evaluate b (fuel + 2) scope (c.node l (.index l' object key))).runFrom m =
        (c.once b fuel scope object key).runFrom m) := by
  refine ⟨evaluate_node_eq_once_iff, fun h => evaluate_node_eq_once_iff.mpr ?_⟩
  rcases h with ⟨ho, hk, hc⟩ | ⟨ho, hk⟩
  · exact refinds_of_steady ho hk hc
  · exact refinds_of_constant ho hk

/-! ### Two elements -/

/-- A memory with a list of three numbers and an index. -/
def counting : Memory :=
  { store := { lists := #[[.int 1, .int 2, .int 3]],
               scopes := #[{ bindings := [("a", .list 0), ("i", .int 0)] }] } }

/-- The items of the first list behind a run that asks for nothing. -/
def firstItems : Act (Except Interrupt Value × Memory) → List Value
  | .done (_, m) => m.store.items 0
  | _ => []

/-- Ten more. -/
def tenMore : Change := .compound "+=" (by decide) (.literal none (.int 10))

theorem evaluate_change_element :
    Node.Steady (.identifier none "a") ∧ Node.Steady (.identifier none "i") ∧ tenMore.Steady ∧
    (evaluate {} 7 0 (tenMore.node none
        (.index none (.identifier none "a") (.identifier none "i")))).runFrom counting =
      (tenMore.once {} 5 0 (.identifier none "a") (.identifier none "i")).runFrom counting :=
  ⟨.identifier, .identifier, .literal, (evaluate_change {} 5 0 none none _ _ tenMore counting).2
    (.inl ⟨.identifier, .identifier, .literal⟩)⟩

/-- `a[i++] += 10` reads the first element and writes the second. -/
theorem not_once_update :
    (evaluate {} 7 0 (tenMore.node none (.index none (.identifier none "a")
        (.update none "++" false (.identifier none "i"))))).runFrom counting ≠
      (tenMore.once {} 5 0 (.identifier none "a")
        (.update none "++" false (.identifier none "i"))).runFrom counting := by
  intro h
  exact absurd (congrArg firstItems h) (by decide +kernel)

end Change

end Running
end LedSketch
