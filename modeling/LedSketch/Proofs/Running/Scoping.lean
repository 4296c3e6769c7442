import LedSketch.Proofs.Running.Abiding
import Mathlib.Tactic.SplitIfs

/-!
# What becomes of scopes

Most of what is done to a store leaves the functions of its scopes and the constants alone: a
function is added where one is declared, and a constant where one is declared. In a scope without
constants every name can be declared as a variable or a function.

* `Store.functions_declare`, `Store.functions_assign`: binding a name declares no function.
* `Store.mem_functions_declareFunction`: declaring one adds one.
* `Store.Open`: a scope without constants.
* `Running.hoist_of_open`, `Running.bindParams_of_open`: entering such a scope cannot fail.
-/

namespace LedSketch

namespace Store

variable {st st' : Store} {ref i : ScopeRef} {key : String} {v : Value} {constant : Bool}

theorem scope_modifyScope (st : Store) (ref i : ScopeRef) (f : Scope → Scope) :
    (st.modifyScope ref f).scope i =
      if i = ref ∧ i < st.scopes.size then f (st.scope i) else st.scope i := by
  simp only [modifyScope, scope, Array.getElem?_modify]
  by_cases hi : ref = i
  · subst hi
    by_cases hs : ref < st.scopes.size <;> simp [hs]
  · simp [hi, Ne.symm hi]

theorem scope_newScope (st : Store) (parent : Option ScopeRef) (i : ScopeRef) :
    (st.newScope parent).2.scope i = if i = st.scopes.size then { parent } else st.scope i := by
  simp only [newScope, scope, Array.getElem?_push]
  split_ifs <;> rfl

/-- Data of every scope stay what they are if a single scope is changed in other respects. -/
theorem scope_modifyScope_congr {α : Type} (data : Scope → α) (f : Scope → Scope)
    (hf : ∀ s, data (f s) = data s) (st : Store) (ref i : ScopeRef) :
    data ((st.modifyScope ref f).scope i) = data (st.scope i) := by
  rw [scope_modifyScope]
  split_ifs
  · exact hf _
  · rfl

theorem functions_put (st : Store) (ref i : ScopeRef) (key : String) (v : Value) :
    ((st.put ref key v).scope i).functions = (st.scope i).functions :=
  scope_modifyScope_congr Scope.functions (·.put key v) (fun _ => rfl) st ref i

theorem constants_put (st : Store) (ref i : ScopeRef) (key : String) (v : Value) :
    ((st.put ref key v).scope i).constants = (st.scope i).constants :=
  scope_modifyScope_congr Scope.constants (·.put key v) (fun _ => rfl) st ref i

/-! ## Functions -/

theorem functions_declare (h : st.declare ref key v constant = .ok st') (i : ScopeRef) :
    (st'.scope i).functions = (st.scope i).functions := by
  unfold declare at h
  dsimp only at h
  split_ifs at h <;> cases h
  · exact (scope_modifyScope_congr Scope.functions (fun s => { s with constants := key :: s.constants })
      (fun _ => rfl) _ ref i).trans (functions_put st ref i key v)
  · exact functions_put st ref i key v

theorem functions_assign (h : st.assign ref key v = .ok st') (i : ScopeRef) :
    (st'.scope i).functions = (st.scope i).functions := by
  unfold assign at h
  split at h
  · cases h
  · split_ifs at h
    cases h
    exact functions_put st _ i key v

theorem mem_putPair {α : Type} {a : α} {p : String × α} :
    ∀ {ps : List (String × α)}, p ∈ putPair key a ps → p = (key, a) ∨ p ∈ ps
  | [], h => Or.inl (List.mem_singleton.mp h)
  | q :: ps, h => by
    rw [putPair] at h
    split_ifs at h
    · exact (List.mem_cons.mp h).imp_right (List.mem_cons_of_mem _)
    · rcases List.mem_cons.mp h with rfl | h
      · exact Or.inr (List.mem_cons_self ..)
      · exact (mem_putPair h).imp_right (List.mem_cons_of_mem _)

theorem mem_functions_declareFunction {c : Closure} {f : String × Closure}
    (h : st.declareFunction ref key c = .ok st') (hf : f ∈ (st'.scope i).functions) :
    f = (key, c) ∨ f ∈ (st.scope i).functions := by
  unfold declareFunction at h
  cases hd : st.declare ref key (.function ref key) false with
  | error c => rw [hd] at h; cases h
  | ok st₁ =>
    rw [hd] at h
    cases h
    rw [scope_modifyScope] at hf
    rw [← functions_declare hd i]
    split_ifs at hf
    · exact mem_putPair hf
    · exact Or.inr hf

/-! ## Scopes without constants -/

/-- A scope in which every name can still be declared. -/
def Open (st : Store) (ref : ScopeRef) : Prop := (st.scope ref).constants = []

theorem open_newScope (st : Store) (parent : Option ScopeRef) :
    (st.newScope parent).2.Open st.scopes.size := by
  rw [Open, scope_newScope, if_pos rfl]

theorem Open.declare (h : st.Open ref) (key : String) (v : Value) :
    ∃ st', st.declare ref key v false = .ok st' ∧ st'.Open ref := by
  refine ⟨st.put ref key v, ?_, ?_⟩
  · have hc : (st.scope ref).constants = [] := h
    simp [Store.declare, Scope.isConstant, hc]
  · exact (constants_put st ref ref key v).trans h

theorem Open.declareFunction (h : st.Open ref) (key : String) (c : Closure) :
    ∃ st', st.declareFunction ref key c = .ok st' ∧ st'.Open ref := by
  obtain ⟨st₁, hd, ho⟩ := h.declare key (.function ref key)
  let declares (s : Scope) : Scope := { s with functions := putPair key c s.functions }
  refine ⟨st₁.modifyScope ref declares, ?_, ?_⟩
  · rw [Store.declareFunction, hd]
    rfl
  · exact (scope_modifyScope_congr Scope.constants declares (fun _ => rfl) st₁ ref ref).trans ho

end Store

namespace Running

open Eval

/-- Nothing prevents the functions of a body from being declared. -/
theorem hoist_of_open {ref : ScopeRef} (body : List Node) {m : Memory} (h : m.store.Open ref) :
    ∃ st, (hoist ref body).runFrom m = .done (.ok (), { m with store := st }) ∧ st.Open ref := by
  induction body generalizing m with
  | nil => exact ⟨_, rfl, h⟩
  | cons s rest ih =>
    cases s with
    | functionDecl l name params body isAsync =>
      obtain ⟨st₁, hd, ho⟩ := h.declareFunction name ⟨params, body, isAsync⟩
      obtain ⟨st, hrun, ho⟩ := ih (m := { m with store := st₁ }) ho
      refine ⟨st, ?_, ho⟩
      rw [hoist]
      change ((ofComplaint (m.store.declareFunction ref name ⟨params, body, isAsync⟩) >>=
        fun st => setStore st >>= fun _ => hoist ref rest).runFrom m) = _
      rw [hd]
      exact hrun
    | _ => exact ih h

/-- Nothing prevents the parameters of a call from being bound. -/
theorem bindParams_of_open {ref : ScopeRef} (names : List String) (args : List Value) {m : Memory}
    (h : m.store.Open ref) : ∃ st, (bindParams ref names args).runFrom m =
      .done (.ok (), { m with store := st }) ∧ st.Open ref := by
  induction names generalizing args m with
  | nil => exact ⟨_, rfl, h⟩
  | cons name names ih =>
    obtain ⟨st₁, hd, ho⟩ := h.declare name (args.headD .null)
    obtain ⟨st, hrun, ho⟩ := ih args.tail (m := { m with store := st₁ }) ho
    refine ⟨st, ?_, ho⟩
    rw [bindParams]
    change ((ofComplaint (m.store.declare ref name (args.headD .null) false) >>=
      fun st => setStore st >>= fun _ => bindParams ref names args.tail).runFrom m) = _
    rw [hd]
    exact hrun

end Running
end LedSketch
