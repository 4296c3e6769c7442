import LedSketch.Proofs.Running.Containment
import LedSketch.Proofs.Running.Stacks

/-!
# The places of reported errors

A statement that says where it is gives a place to every error that has none yet. The bodies of
functions consist of such statements, and nothing can fail before the first of them is run.

* `placesAt_inStatement`: whatever goes wrong in a statement has a place.
* `Running.placesAt_callFunction`: and so has whatever goes wrong in a function.
-/

namespace LedSketch

open Eval

/-- An early end that is no error, or an error with a place. -/
def Interrupt.Placed : Interrupt → Prop
  | sketch e => e.place ≠ none
  | mishap _ => False
  | _ => True

/-- An evaluation ends early only with errors that have a place, from the memory `m`. -/
def PlacesAt {α : Type} (x : Eval α) (m : Memory) : Prop :=
  (x.runFrom m).Always fun r => ∀ i, r.1 = .error i → i.Placed

section Places

variable {α : Type} {m : Memory} {b : Binding} {fuel : Nat}

theorem PlacesAt.bind {β : Type} {x : Eval α} {f : α → Eval β} (hx : PlacesAt x m)
    (hf : ∀ a m', PlacesAt (f a) m') : PlacesAt (x >>= f) m := by
  rw [PlacesAt, runFrom_bind]
  refine Act.Abides.bind hx ?_
  rintro ⟨i | a, m'⟩ hr
  · exact fun j hj => hr j (by cases hj; rfl)
  · exact hf a m'

theorem PlacesAt.tryCatch {x : Eval α} {k : Interrupt → Eval α} {P : Interrupt → Prop}
    (hx : (x.runFrom m).Always fun r => ∀ i, r.1 = .error i → P i)
    (hk : ∀ i, P i → ∀ m', PlacesAt (k i) m') : PlacesAt (tryCatch x k) m := by
  rw [PlacesAt, runFrom_tryCatch]
  refine Act.Abides.bind hx ?_
  rintro ⟨i | a, m'⟩ hr
  · exact hk i (hr i rfl) m'
  · exact not_early

theorem placesAt_throw {i : Interrupt} (hi : i.Placed) (m : Memory) :
    PlacesAt (throw i : Eval α) m := by
  rintro _ ⟨⟩
  exact hi

theorem placesAt_spent (m : Memory) : PlacesAt (throw .spent : Eval α) m :=
  placesAt_throw (by exact trivial) m

/-- A statement that says where it is gives a place to every error. -/
theorem placesAt_inStatement (l : Loc) (x : Eval α) (m : Memory) :
    PlacesAt (inStatement (some l) x) m := by
  have located (e : SketchError) (m' : Memory) : PlacesAt (throwAt (some l) e : Eval α) m' := by
    rintro _ ⟨⟩
    cases hp : e.place <;> simp [Interrupt.Placed, SketchError.locate, hp]
  refine PlacesAt.tryCatch (P := fun _ => True) ((Act.always_true _).mono fun _ _ _ _ => trivial)
    fun i _ m' => ?_
  cases i with
  | sketch e => exact located e m'
  | mishap mi => cases mi <;> exact located _ m'
  | _ => exact placesAt_throw (by exact trivial) m'

theorem PlacesAt.withFrame {x : Eval α} {f : Frame}
    (hx : PlacesAt x { m with calls := f :: m.calls }) : PlacesAt (withFrame f x) m := by
  rw [PlacesAt, runFrom_withFrame]
  exact Act.Abides.bind hx fun _ hr => hr

theorem PlacesAt.returning {x : Eval Unit} (hx : PlacesAt x m) : PlacesAt (returning x) m := by
  refine PlacesAt.tryCatch (hx.bind fun _ _ => not_early) fun i hi m' => ?_
  cases i with
  | returned v => exact not_early
  | _ => exact placesAt_throw hi m'

end Places

/-! ## The evaluator -/

namespace Running

variable {b : Binding}

theorem placesAt_execAll (fuel : Nat) (scope : ScopeRef) {body : List Node}
    (hbody : ∀ s ∈ body, ∃ l, s.loc = some l) (m : Memory) :
    PlacesAt (execAll b fuel scope body) m := by
  induction fuel generalizing body m with
  | zero => rw [execAll]; exact placesAt_spent m
  | succ fuel ih =>
    cases body with
    | nil => rw [execAll]; exact not_early
    | cons s rest =>
      obtain ⟨l, hl⟩ := hbody s (List.mem_cons_self ..)
      have hs : PlacesAt (exec b fuel scope s) m := by
        cases fuel with
        | zero => rw [exec]; exact placesAt_spent m
        | succ fuel =>
          rw [exec, hl]
          exact placesAt_inStatement l _ m
      rw [execAll]
      exact hs.bind fun _ m' => ih (fun s hs => hbody s (List.mem_cons_of_mem _ hs)) m'

/-- In a scope without constants, a body whose statements say where they are places every error. -/
theorem placesAt_execBody (fuel : Nat) {scope : ScopeRef} {body : List Node} {m : Memory}
    (ho : m.store.Open scope) (hbody : ∀ s ∈ body, ∃ l, s.loc = some l) :
    PlacesAt (execBody b fuel scope body) m := by
  cases fuel with
  | zero => rw [execBody]; exact placesAt_spent m
  | succ fuel =>
    obtain ⟨st, hrun, -⟩ := hoist_of_open body ho
    rw [execBody, PlacesAt, runFrom_bind, hrun]
    exact placesAt_execAll fuel scope (fun s hs => hbody s (List.mem_filter.mp hs).1) _

/-- A call that is not nested too deep places every error. -/
theorem placesAt_callFunction (fuel : Nat) (home : ScopeRef) (name : String) (args : List Value)
    {m : Memory} (hm : m.Sound) (hdeep : m.calls.length < callLimit) :
    PlacesAt (callFunction b fuel home name args) m := by
  cases fuel with
  | zero => rw [callFunction]; exact placesAt_spent m
  | succ fuel =>
    rw [PlacesAt, runFrom_callFunction hdeep]
    cases hc : m.store.closure? home name with
    | none => exact not_early
    | some c =>
      obtain ⟨l, body, hbody, hrunnable⟩ := hm.closure hc
      obtain ⟨inner, st, ho, hrun⟩ := enter_runs home c.params args m
      rw [hrun, hbody]
      have entered : PlacesAt (execBody b fuel inner body)
          { m with store := st, calls := ⟨name, args⟩ :: m.calls } :=
        placesAt_execBody fuel ho fun s hs => (hrunnable s hs).loc
      exact entered.returning.withFrame

end Running
end LedSketch
