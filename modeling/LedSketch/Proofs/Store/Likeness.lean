import LedSketch.Proofs.Running.Changes
import LedSketch.Proofs.Syntax.Rearranged
import LedSketch.Store.Operators

/-!
# Stores that hold the same

Two stores hold the same if they have the same lists, and scopes that bind the same names to the same
values and declare the same functions, whose bodies may be rearranged. The order in which a scope has
bound its names is not seen from outside: whatever is looked up, declared, assigned or shown is the
same in both, and what comes of it holds the same again.

* `Closure.Like`, `Scope.Like`, `Store.Like`: holding the same.
* `Store.Like.declare`, `Store.Like.assign`, `Store.Like.get`: scopes behave alike.
* `Store.Like.display`, `Store.Like.binaryOperator`: values look alike.
* `Store.Like.hoisted`: so do scopes behind the declaration of the functions of a body.
-/

namespace LedSketch

/-- The same function, whose body may be rearranged. -/
structure Closure.Like (c d : Closure) : Prop where
  params : c.params = d.params
  isAsync : c.isAsync = d.isAsync
  body : Node.Rearranged c.body d.body

/-- **Scopes that hold the same**, maybe in another order. -/
structure Scope.Like (s t : Scope) : Prop where
  parent : s.parent = t.parent
  constants : s.constants = t.constants
  values : ∀ key, s.get? key = t.get? key
  functions : ∀ name, Option.Rel Closure.Like (s.functions.lookup name) (t.functions.lookup name)

/-- **Stores that hold the same.** -/
structure Store.Like (st st' : Store) : Prop where
  lists : st.lists = st'.lists
  tokens : st.tokens = st'.tokens
  size : st.scopes.size = st'.scopes.size
  scopes : ∀ i, (st.scope i).Like (st'.scope i)

/-- What an operation on two stores comes to: the same complaint, or stores that hold the same. -/
inductive Store.Agree : Except Complaint Store → Except Complaint Store → Prop
  | error (c : Complaint) : Agree (.error c) (.error c)
  | ok {st st' : Store} (h : st.Like st') : Agree (.ok st) (.ok st')

/-! ## Scopes -/

namespace Closure

theorem Like.refl (c : Closure) : c.Like c := ⟨rfl, rfl, .refl _⟩

end Closure

namespace Scope

variable {s t : Scope}

theorem Like.refl (s : Scope) : s.Like s where
  parent := rfl
  constants := rfl
  values _ := rfl
  functions name := by
    cases s.functions.lookup name with
    | none => exact .none
    | some c => exact .some (.refl c)

theorem binds_eq (s : Scope) (key : String) : s.binds key = (s.get? key).isSome := by
  unfold binds get?
  induction s.bindings with
  | nil => rfl
  | cons p ps ih =>
    rw [List.any_cons, List.lookup_cons, ih]
    by_cases h : p.1 = key
    · simp [h]
    · rw [beq_false_of_ne h, beq_false_of_ne (Ne.symm h), Bool.false_or]

theorem Like.binds (h : s.Like t) (key : String) : s.binds key = t.binds key := by
  rw [binds_eq, binds_eq, h.values]

theorem Like.isConstant (h : s.Like t) (key : String) : s.isConstant key = t.isConstant key := by
  rw [Scope.isConstant, Scope.isConstant, h.constants]

theorem Like.put (h : s.Like t) (key : String) (v : Value) : (s.put key v).Like (t.put key v) where
  parent := h.parent
  constants := h.constants
  values k := by rw [get?_put, get?_put, h.values]
  functions := h.functions

theorem Like.fix (h : s.Like t) (key : String) :
    Like { s with constants := key :: s.constants } { t with constants := key :: t.constants } :=
  { h with constants := congrArg (key :: ·) h.constants }

theorem Like.declareFunction (h : s.Like t) (name : String) {c d : Closure} (hc : c.Like d) :
    Like { s with functions := putPair name c s.functions }
      { t with functions := putPair name d t.functions } :=
  { h with
    functions := fun key => by
      rw [lookup_putPair, lookup_putPair]
      split_ifs
      · exact .some hc
      · exact h.functions key }

end Scope

namespace Store

variable {st st' : Store}

theorem Like.refl (st : Store) : st.Like st := ⟨rfl, rfl, rfl, fun _ => .refl _⟩

/-! ## Looking up and changing scopes -/

theorem Like.modifyScope (h : st.Like st') (ref : ScopeRef) {f g : Scope → Scope}
    (hf : ∀ s t, s.Like t → (f s).Like (g t)) :
    (st.modifyScope ref f).Like (st'.modifyScope ref g) where
  lists := h.lists
  tokens := h.tokens
  size := by rw [size_modifyScope, size_modifyScope, h.size]
  scopes i := by
    rw [scope_modifyScope, scope_modifyScope, h.size]
    split_ifs
    · exact hf _ _ (h.scopes i)
    · exact h.scopes i

theorem Like.put (h : st.Like st') (ref : ScopeRef) (key : String) (v : Value) :
    (st.put ref key v).Like (st'.put ref key v) :=
  h.modifyScope ref fun _ _ hs => hs.put key v

theorem Like.newScope (h : st.Like st') (parent : Option ScopeRef) :
    (st.newScope parent).2.Like (st'.newScope parent).2 where
  lists := h.lists
  tokens := h.tokens
  size := by simp [Store.newScope, h.size]
  scopes i := by
    rw [scope_newScope, scope_newScope, h.size]
    split_ifs
    · exact .refl _
    · exact h.scopes i

theorem Like.owner? (h : st.Like st') (ref : ScopeRef) (key : String) :
    st.owner? ref key = st'.owner? ref key := by
  induction ref using Nat.strongRecOn with
  | ind ref ih =>
    rw [owner?_eq, owner?_eq st', (h.scopes ref).binds, (h.scopes ref).parent]
    split
    · rfl
    · split
      · split
        · exact ih _ ‹_›
        · rfl
      · rfl

theorem Like.get (h : st.Like st') (ref : ScopeRef) (key : String) :
    st.get ref key = st'.get ref key := by
  have hscope (o : ScopeRef) : (st.scope o).get? key = (st'.scope o).get? key :=
    (h.scopes o).values key
  simp only [Store.get, h.owner?, hscope]

theorem Like.declare (h : st.Like st') (ref : ScopeRef) (key : String) (v : Value)
    (constant : Bool) : Agree (st.declare ref key v constant) (st'.declare ref key v constant) := by
  have hput := h.put ref key v
  simp only [Store.declare, (h.scopes ref).binds, (h.scopes ref).isConstant]
  split_ifs
  · exact .error _
  · exact .ok (hput.modifyScope ref fun _ _ hs => hs.fix key)
  · exact .ok hput

theorem Like.assign (h : st.Like st') (ref : ScopeRef) (key : String) (v : Value) :
    Agree (st.assign ref key v) (st'.assign ref key v) := by
  have hconstant (o : ScopeRef) : (st.scope o).isConstant key = (st'.scope o).isConstant key :=
    (h.scopes o).isConstant key
  simp only [Store.assign, h.owner?, hconstant]
  split
  · exact .error _
  · split_ifs
    · exact .error _
    · exact .ok (h.put _ key v)

theorem Like.closure? (h : st.Like st') (ref : ScopeRef) (name : String) :
    Option.Rel Closure.Like (st.closure? ref name) (st'.closure? ref name) :=
  (h.scopes ref).functions name

/-! ## Lists and tokens -/

theorem Like.items (h : st.Like st') (ref : ListRef) : st.items ref = st'.items ref := by
  rw [Store.items, Store.items, h.lists]

theorem Like.setItems (h : st.Like st') (ref : ListRef) (vs : List Value) :
    (st.setItems ref vs).Like (st'.setItems ref vs) :=
  { h with lists := by rw [Store.setItems, Store.setItems, h.lists] }

theorem Like.newList (h : st.Like st') (vs : List Value) :
    (st.newList vs).1 = (st'.newList vs).1 ∧ (st.newList vs).2.Like (st'.newList vs).2 :=
  ⟨by rw [Store.newList, Store.newList, h.lists],
    { h with lists := by rw [Store.newList, Store.newList, h.lists] }⟩

theorem Like.freshToken (h : st.Like st') :
    st.freshToken.1 = st'.freshToken.1 ∧ st.freshToken.2.Like st'.freshToken.2 :=
  ⟨h.tokens, { h with tokens := by rw [Store.freshToken, Store.freshToken, h.tokens] }⟩

/-! ## Texts -/

theorem Like.heading (h : st.Like st') (ref : ScopeRef) (name : String) :
    st.heading ref name = st'.heading ref name := by
  have hc := h.closure? ref name
  rw [Store.heading, Store.heading]
  generalize st.closure? ref name = o at hc ⊢
  generalize st'.closure? ref name = o' at hc ⊢
  cases hc with
  | none => rfl
  | some hc => simp only [hc.params, hc.isAsync]

theorem Like.displayPlain (h : st.Like st') (v : Value) :
    st.displayPlain v = st'.displayPlain v := by
  cases v <;> simp only [Store.displayPlain, h.heading]

theorem Like.shownPlain (h : st.Like st') (v : Value) : st.shownPlain v = st'.shownPlain v := by
  cases v <;> simp only [Store.shownPlain, h.heading]

/-- Values are displayed alike if the lists in them are. -/
theorem Like.displayWithin_of_items (h : st.Like st') {depth : Nat}
    (hitems : ∀ ref, displayWithin.displayItems st depth ref =
      displayWithin.displayItems st' depth ref) (v : Value) :
    st.displayWithin depth v = st'.displayWithin depth v := by
  cases v <;> simp only [Store.displayWithin, hitems, h.displayPlain]

theorem Like.displayItems (h : st.Like st') (depth : Nat) (ref : ListRef) :
    displayWithin.displayItems st depth ref = displayWithin.displayItems st' depth ref := by
  induction depth generalizing ref with
  | zero => simp only [displayWithin.displayItems]
  | succ depth ih =>
    simp only [displayWithin.displayItems, h.items, h.displayWithin_of_items ih]

theorem Like.display (h : st.Like st') (v : Value) : st.display v = st'.display v := by
  rw [Store.display, Store.display, h.lists, h.displayWithin_of_items (h.displayItems _)]

theorem Like.shownWithin_of_items (h : st.Like st') {depth : Nat}
    (hitems : ∀ path ref, shownWithin.shownItems st depth path ref =
      shownWithin.shownItems st' depth path ref) (path : List ListRef) (v : Value) :
    st.shownWithin depth path v = st'.shownWithin depth path v := by
  cases v <;> simp only [Store.shownWithin, hitems, h.shownPlain]

theorem Like.shownItems (h : st.Like st') (depth : Nat) (path : List ListRef) (ref : ListRef) :
    shownWithin.shownItems st depth path ref = shownWithin.shownItems st' depth path ref := by
  induction depth generalizing path ref with
  | zero => simp only [shownWithin.shownItems]
  | succ depth ih =>
    have hshown (path : List ListRef) : st.shownWithin depth path = st'.shownWithin depth path :=
      funext (h.shownWithin_of_items ih path)
    simp only [shownWithin.shownItems, h.items, hshown]

theorem Like.shown (h : st.Like st') (v : Value) : st.shown v = st'.shown v := by
  rw [Store.shown, Store.shown, h.lists, h.shownWithin_of_items (h.shownItems _)]

theorem Like.plain (h : st.Like st') (v : Value) : st.plain v = st'.plain v := by
  cases v <;> simp only [Store.plain, h.shown]

/-! ## Operators -/

theorem Like.sameWithin_of_items (h : st.Like st') {depth : Nat}
    (hitems : ∀ as bs, sameWithin.sameItems st depth as bs =
      sameWithin.sameItems st' depth as bs) (a b : Value) :
    st.sameWithin depth a b = st'.sameWithin depth a b := by
  cases a <;> cases b <;> simp only [Store.sameWithin, hitems, h.items]

theorem Like.sameItems (h : st.Like st') (depth : Nat) (as bs : List Value) :
    sameWithin.sameItems st depth as bs = sameWithin.sameItems st' depth as bs := by
  induction depth generalizing as bs with
  | zero => simp only [sameWithin.sameItems]
  | succ depth ih => simp only [sameWithin.sameItems, h.sameWithin_of_items ih]

theorem Like.strictEquals (h : st.Like st') (a b : Value) :
    st.strictEquals a b = st'.strictEquals a b := by
  simp only [Store.strictEquals, h.lists, h.sameWithin_of_items (h.sameItems _)]

theorem Like.binaryOperator (h : st.Like st') (op : String) (a b : Value) :
    st.binaryOperator op a b = st'.binaryOperator op a b := by
  have hplus : st.plus a b = st'.plus a b := by simp only [Store.plus, h.display]
  unfold Store.binaryOperator
  rw [hplus, h.strictEquals]

end Store

/-! ## The functions of a body -/

/-- The functions that the statements of a body declare, in order. -/
def Node.functions (body : List Node) : List (String × Closure) := body.filterMap Node.declares?

/-- The function that the last declaration of a name declares. -/
def lastOf? (name : String) : List (String × Closure) → Option Closure
  | [] => none
  | f :: fs => (lastOf? name fs).or (if f.1 = name then some f.2 else none)

namespace Scope

variable {s t : Scope} {fs gs : List (String × Closure)}

/-- Declares functions in a scope that stands at a place, whatever their names stood for. -/
def hoisted (s : Scope) (ref : ScopeRef) (fs : List (String × Closure)) : Scope :=
  fs.foldl (fun s f =>
    { s.put f.1 (.function ref f.1) with functions := putPair f.1 f.2 s.functions }) s

theorem parent_hoisted (ref : ScopeRef) : (s.hoisted ref fs).parent = s.parent := by
  induction fs generalizing s with
  | nil => rfl
  | cons f fs ih => exact ih

theorem constants_hoisted (ref : ScopeRef) : (s.hoisted ref fs).constants = s.constants := by
  induction fs generalizing s with
  | nil => rfl
  | cons f fs ih => exact ih

theorem get?_hoisted (ref : ScopeRef) (key : String) : (s.hoisted ref fs).get? key =
    if (lastOf? key fs).isSome then some (.function ref key) else s.get? key := by
  induction fs generalizing s with
  | nil => rfl
  | cons f fs ih =>
    change (hoisted { s.put f.1 (.function ref f.1) with
      functions := putPair f.1 f.2 s.functions } ref fs).get? key = _
    have hput : get? { s.put f.1 (.function ref f.1) with
        functions := putPair f.1 f.2 s.functions } key =
        if key = f.1 then some (.function ref f.1) else s.get? key := get?_put s f.1 key _
    rw [ih, hput, lastOf?]
    cases lastOf? key fs with
    | some c => rfl
    | none =>
      by_cases h : f.1 = key
      · simp [h]
      · simp [h, Ne.symm h]

theorem lookup_hoisted (ref : ScopeRef) (name : String) : (s.hoisted ref fs).functions.lookup name =
    (lastOf? name fs).or (s.functions.lookup name) := by
  induction fs generalizing s with
  | nil => rfl
  | cons f fs ih =>
    change (hoisted { s.put f.1 (.function ref f.1) with
      functions := putPair f.1 f.2 s.functions } ref fs).functions.lookup name = _
    rw [ih, lookup_putPair, lastOf?]
    cases lastOf? name fs with
    | some c => rfl
    | none =>
      by_cases h : f.1 = name
      · simp [h]
      · simp [h, Ne.symm h]

/-- What is declared last decides what a scope holds. -/
theorem Like.hoisted (h : s.Like t) (ref : ScopeRef)
    (hfs : ∀ name, Option.Rel Closure.Like (lastOf? name fs) (lastOf? name gs)) :
    (s.hoisted ref fs).Like (t.hoisted ref gs) where
  parent := by rw [parent_hoisted, parent_hoisted, h.parent]
  constants := by rw [constants_hoisted, constants_hoisted, h.constants]
  values key := by
    rw [get?_hoisted, get?_hoisted, h.values]
    have hkey := hfs key
    generalize lastOf? key fs = c at hkey
    generalize lastOf? key gs = d at hkey
    cases hkey <;> rfl
  functions name := by
    rw [lookup_hoisted, lookup_hoisted]
    have hname := hfs name
    generalize lastOf? name fs = c at hname
    generalize lastOf? name gs = d at hname
    cases hname with
    | none => exact h.functions name
    | some hc => exact .some hc

end Scope

namespace Node

variable {body body' : List Node}

theorem forall₂_functions (h : List.Forall₂ Rearranged body body') :
    List.Forall₂ (fun f g => f.1 = g.1 ∧ f.2.Like g.2) (functions body) (functions body') := by
  induction h with
  | nil => exact .nil
  | cons hs _ ih =>
    cases hs with
    | functionDecl l name params h isAsync => exact .cons ⟨rfl, rfl, rfl, h⟩ ih
    | _ => exact ih

theorem lastOf?_filter (name : String) (body : List Node) :
    lastOf? name (functions (body.filter (declares name))) = lastOf? name (functions body) := by
  induction body with
  | nil => rfl
  | cons s body ih =>
    unfold functions at ih ⊢
    rw [List.filter_cons, List.filterMap_cons]
    cases hs : s.declares? with
    | none => simpa [declares, hs] using ih
    | some f =>
      by_cases hname : f.1 = name
      · simp [declares, hs, hname, lastOf?, ih]
      · simp [declares, hs, hname, lastOf?, ih]

/-- **Behind the declarations of a body its functions stand for the same.** -/
theorem rel_lastOf? (h : Rearranges body body') (name : String) : Option.Rel Closure.Like
    (lastOf? name (functions body)) (lastOf? name (functions body')) := by
  rw [← lastOf?_filter, ← lastOf?_filter name body']
  have hfunctions := forall₂_functions (h.functions name)
  generalize functions (body.filter (declares name)) = fs at hfunctions ⊢
  generalize functions (body'.filter (declares name)) = gs at hfunctions ⊢
  induction hfunctions with
  | nil => exact .none
  | @cons f g fs gs hf _ ih =>
    rw [lastOf?, lastOf?, hf.1]
    generalize lastOf? name fs = c at ih ⊢
    generalize lastOf? name gs = d at ih ⊢
    cases ih with
    | some hc => exact .some hc
    | none =>
      split_ifs
      · exact .some hf.2
      · exact .none

end Node

/-- **Stores that hold the same hold the same behind the declarations of a body.** -/
theorem Store.Like.hoisted {st st' : Store} {body body' : List Node} (h : st.Like st')
    (hbody : Node.Rearranges body body') (ref : ScopeRef) :
    (st.modifyScope ref (·.hoisted ref (Node.functions body))).Like
      (st'.modifyScope ref (·.hoisted ref (Node.functions body'))) :=
  h.modifyScope ref fun _ _ hs => hs.hoisted ref (Node.rel_lastOf? hbody)

end LedSketch
