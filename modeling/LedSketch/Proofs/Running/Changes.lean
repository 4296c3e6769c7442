import LedSketch.Proofs.Running.Scoping
import Mathlib.Logic.Relation

/-!
# What a run does to scopes

All that evaluation does to scopes is done in a few kinds of steps: a scope is made, a variable or
a function is declared, a variable is assigned. What a step cannot do, no run can: give a scope
another parent, change a constant, or bind a new name without declaring it.

* `Store.Step`: the steps, declaring in some of the scopes only.
* `Store.Grown`: what steps lead to.
* `Store.Keeps`, `Store.Grown.keeps`: what stays as it was.
* `Store.owner?_congr`: where names are bound already, they are looked up as before.
-/

namespace LedSketch

/-! ## A single scope -/

section Pairs

variable {α : Type} {key k : String} {a : α} {ps : List (String × α)}

theorem lookup_putPair (key k : String) (a : α) (ps : List (String × α)) :
    (putPair key a ps).lookup k = if k = key then some a else ps.lookup k := by
  induction ps with
  | nil =>
    rw [putPair, List.lookup_cons, List.lookup_nil]
    by_cases h : k = key
    · simp [h]
    · rw [beq_false_of_ne h, if_neg h]
  | cons p ps ih =>
    rw [putPair]
    by_cases hp : p.1 = key
    · rw [if_pos hp, List.lookup_cons, List.lookup_cons, hp]
      by_cases h : k = key
      · simp [h]
      · rw [beq_false_of_ne h, if_neg h]
    · rw [if_neg hp, List.lookup_cons, List.lookup_cons, ih]
      by_cases h : k = key
      · rw [h, beq_false_of_ne (Ne.symm hp), if_pos rfl]
      · rw [if_neg h, if_neg h]

theorem map_fst_putPair (h : key ∈ ps.map Prod.fst) :
    (putPair key a ps).map Prod.fst = ps.map Prod.fst := by
  induction ps with
  | nil => cases h
  | cons p ps ih =>
    rw [putPair]
    by_cases hp : p.1 = key
    · rw [if_pos hp, List.map_cons, List.map_cons, hp]
    · rw [if_neg hp, List.map_cons, List.map_cons, ih]
      exact (List.mem_cons.mp h).resolve_left (Ne.symm hp)

end Pairs

namespace Scope

variable {s s' s'' : Scope} {key k : String} {v w : Value} {P : Prop}

/-- The names that a scope binds. -/
def names (s : Scope) : List String := s.bindings.map Prod.fst

/-- A constant with its value. -/
def Fixed (s : Scope) (key : String) (v : Value) : Prop :=
  s.isConstant key = true ∧ s.get? key = some v

theorem binds_iff : s.binds key = true ↔ key ∈ s.names := by
  simp only [binds, names, List.any_eq_true, beq_iff_eq, List.mem_map]

theorem binds_congr (h : s'.names = s.names) (key : String) : s'.binds key = s.binds key := by
  rw [Bool.eq_iff_iff, binds_iff, binds_iff, h]

theorem get?_put (s : Scope) (key k : String) (v : Value) :
    (s.put key v).get? k = if k = key then some v else s.get? k :=
  lookup_putPair key k v s.bindings

theorem Fixed.binds (h : s.Fixed key v) : s.binds key = true := by
  obtain ⟨_, _, hps, -⟩ := List.lookup_eq_some_iff.mp h.2
  simp [Scope.binds, hps]

/-- **What becomes of a scope**: its parent and its constants stay, and it binds no other names,
unless some may be declared. -/
structure Evolves (declares : Prop) (s s' : Scope) : Prop where
  parent : s'.parent = s.parent
  names : ¬ declares → s'.names = s.names
  fixed : ∀ key v, s.Fixed key v → s'.Fixed key v

theorem Evolves.refl (s : Scope) : Evolves P s s := ⟨rfl, fun _ => rfl, fun _ _ h => h⟩

theorem Evolves.trans (h : Evolves P s s') (h' : Evolves P s' s'') : Evolves P s s'' where
  parent := h'.parent.trans h.parent
  names hP := (h'.names hP).trans (h.names hP)
  fixed key v hv := h'.fixed key v (h.fixed key v hv)

/-- A name that is no constant can get another value, if it is bound already or may be declared. -/
theorem evolves_put (hc : s.isConstant key = false ∨ s.binds key = false)
    (hP : s.binds key = true ∨ P) (v : Value) : Evolves P s (s.put key v) where
  parent := rfl
  names hn := map_fst_putPair (binds_iff.mp (hP.resolve_right hn))
  fixed k w hk := by
    refine ⟨hk.1, ?_⟩
    rw [get?_put, if_neg, hk.2]
    rintro rfl
    rcases hc with hc | hc
    · rw [hk.1] at hc
      cases hc
    · rw [hk.binds] at hc
      cases hc

end Scope

/-! ## Stores -/

namespace Store

variable {D D' : ScopeRef → Prop} {st st' st'' : Store} {ref i : ScopeRef} {key : String}
  {v : Value} {constant : Bool}

/-- **What stays as it was** in a store, if names are declared in some of its scopes only. -/
structure Keeps (D : ScopeRef → Prop) (st st' : Store) : Prop where
  size : st.scopes.size ≤ st'.scopes.size
  evolves : ∀ i < st.scopes.size, (st.scope i).Evolves (D i) (st'.scope i)

theorem Keeps.refl (st : Store) : Keeps D st st := ⟨Nat.le_refl _, fun _ _ => .refl _⟩

theorem Keeps.trans (h : Keeps D st st') (h' : Keeps D st' st'') : Keeps D st st'' where
  size := Nat.le_trans h.size h'.size
  evolves i hi := (h.evolves i hi).trans (h'.evolves i (Nat.lt_of_lt_of_le hi h.size))

theorem size_modifyScope (st : Store) (ref : ScopeRef) (f : Scope → Scope) :
    (st.modifyScope ref f).scopes.size = st.scopes.size := Array.size_modify

/-- Changing a single scope. -/
theorem keeps_modifyScope {f : Scope → Scope}
    (hf : (st.scope ref).Evolves (D ref) (f (st.scope ref))) :
    Keeps D st (st.modifyScope ref f) where
  size := Nat.le_of_eq (size_modifyScope st ref f).symm
  evolves i _ := by
    rw [scope_modifyScope]
    split_ifs with h
    · exact h.1 ▸ hf
    · exact .refl _

theorem keeps_newScope (st : Store) (parent : Option ScopeRef) :
    Keeps D st (st.newScope parent).2 where
  size := by simp [newScope]
  evolves i hi := by
    rw [scope_newScope, if_neg (Nat.ne_of_lt hi)]
    exact .refl _

theorem keeps_declare (hD : D ref) (h : st.declare ref key v constant = .ok st') :
    Keeps D st st' := by
  unfold declare at h
  dsimp only at h
  split_ifs at h with hb hc <;> cases h
  all_goals
    have put : Keeps D st (st.put ref key v) := by
      refine keeps_modifyScope (Scope.evolves_put ?_ (.inr hD) v)
      by_cases hbound : (st.scope ref).binds key = true
      · exact .inl (by simp_all)
      · exact .inr (by simpa using hbound)
  · exact put.trans (keeps_modifyScope ⟨rfl, fun _ => rfl, fun k w hk => ⟨by
      have := hk.1
      simp only [Scope.isConstant, List.contains_cons, Bool.or_eq_true] at this ⊢
      exact .inr this, hk.2⟩⟩)
  · exact put

theorem keeps_declareFunction {c : Closure} (hD : D ref)
    (h : st.declareFunction ref key c = .ok st') : Keeps D st st' := by
  unfold declareFunction at h
  cases hd : st.declare ref key (.function ref key) false with
  | error e => rw [hd] at h; cases h
  | ok st₁ =>
    rw [hd] at h
    cases h
    exact (keeps_declare hD hd).trans (keeps_modifyScope ⟨rfl, fun _ => rfl, fun _ _ hk => hk⟩)

theorem binds_of_owner? {o : ScopeRef} (h : st.owner? ref key = some o) :
    (st.scope o).binds key = true := by
  induction ref using Nat.strongRecOn with
  | ind ref ih =>
    rw [owner?_eq] at h
    split at h
    · cases h
      assumption
    · split at h
      · split at h
        · exact ih _ ‹_› h
        · cases h
      · cases h

theorem keeps_assign (h : st.assign ref key v = .ok st') : Keeps D st st' := by
  unfold assign at h
  split at h
  · cases h
  · next o ho =>
    split_ifs at h with hc
    cases h
    exact keeps_modifyScope
      (Scope.evolves_put (.inl (by simpa using hc)) (.inl (binds_of_owner? ho)) v)

/-! ### Steps -/

/-- **A step** of a run: what evaluation does to scopes, where it declares names only in the scopes
`D`. -/
inductive Step (D : ScopeRef → Prop) : Store → Store → Prop
  /-- Something else is changed. -/
  | aside {st st' : Store} (h : st'.scopes = st.scopes) : Step D st st'
  | newScope (st : Store) (parent : Option ScopeRef) : Step D st (st.newScope parent).2
  | declare {st st' : Store} {ref : ScopeRef} {key : String} {v : Value} {constant : Bool}
    (hD : D ref) (h : st.declare ref key v constant = .ok st') : Step D st st'
  | declareFunction {st st' : Store} {ref : ScopeRef} {key : String} {c : Closure} (hD : D ref)
    (h : st.declareFunction ref key c = .ok st') : Step D st st'
  | assign {st st' : Store} {ref : ScopeRef} {key : String} {v : Value}
    (h : st.assign ref key v = .ok st') : Step D st st'

theorem Step.keeps (h : Step D st st') : Keeps D st st' := by
  cases h with
  | aside h =>
    have same (i : ScopeRef) : st'.scope i = st.scope i := by rw [scope, scope, h]
    exact ⟨Nat.le_of_eq (by rw [h]), fun i _ => same i ▸ .refl _⟩
  | newScope parent => exact keeps_newScope st parent
  | declare hD h => exact keeps_declare hD h
  | declareFunction hD h => exact keeps_declareFunction hD h
  | assign h => exact keeps_assign h

/-- **What steps lead to**, one after another. -/
abbrev Grown (D : ScopeRef → Prop) : Store → Store → Prop := Relation.ReflTransGen (Step D)

theorem Grown.keeps (h : Grown D st st') : Keeps D st st' := by
  induction h with
  | refl => exact .refl st
  | tail _ step ih => exact ih.trans step.keeps

theorem Step.mono (h : Step D st st') (hD : ∀ i, D i → D' i) : Step D' st st' := by
  cases h with
  | aside h => exact .aside h
  | newScope parent => exact .newScope _ parent
  | declare hi h => exact .declare (hD _ hi) h
  | declareFunction hi h => exact .declareFunction (hD _ hi) h
  | assign h => exact .assign h

theorem Grown.mono (h : Grown D st st') (hD : ∀ i, D i → D' i) : Grown D' st st' :=
  h.lift id fun _ _ step => step.mono hD

/-! ### Constants and owners -/

/-- Where there is no scope, nothing is bound. -/
theorem scope_of_size_le (h : st.scopes.size ≤ i) : st.scope i = {} := by
  rw [scope, Array.getElem?_eq_none h, Option.getD_none]

theorem lt_size_of_fixed (h : (st.scope i).Fixed key v) : i < st.scopes.size := by
  refine Nat.lt_of_not_le fun hi => ?_
  have hc := h.1
  rw [scope_of_size_le hi] at hc
  cases hc

/-- **A constant stays** what it is. -/
theorem Keeps.fixed (h : Keeps D st st') (hv : (st.scope i).Fixed key v) :
    (st'.scope i).Fixed key v :=
  (h.evolves i (lt_size_of_fixed hv)).fixed key v hv

/-- The scopes that a store does not have yet. -/
def Fresh (st : Store) (i : ScopeRef) : Prop := st.scopes.size ≤ i

/-- **No new names** in the scopes that were there. -/
theorem Keeps.names (h : Keeps st.Fresh st st') (hi : i < st.scopes.size) :
    (st'.scope i).names = (st.scope i).names :=
  (h.evolves i hi).names (Nat.not_le_of_lt hi)

theorem lt_size_of_owner? {o : ScopeRef} (h : st.owner? i key = some o) : i < st.scopes.size := by
  refine Nat.lt_of_not_le fun hi => ?_
  rw [owner?_eq, scope_of_size_le hi] at h
  cases h

/-- Where no names are added, a name is looked up in the scope where it was. -/
theorem owner?_congr (h : Keeps st.Fresh st st') (hi : i < st.scopes.size) :
    st'.owner? i key = st.owner? i key := by
  induction i using Nat.strongRecOn with
  | ind i ih =>
    rw [owner?_eq, owner?_eq st, (h.evolves i hi).parent, Scope.binds_congr (h.names hi)]
    split
    · rfl
    · split
      · split
        · next hp => exact ih _ hp (Nat.lt_trans hp hi)
        · rfl
      · rfl

end Store
end LedSketch
