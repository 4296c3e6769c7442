import LedSketch.Proofs.Syntax.Meanings
import LedSketch.Proofs.Syntax.StaticRules

/-!
# What elaboration promises

Elaboration keeps a stack of functions and a count of loops. A computation `Judges` in a setting if
it leaves both as they are, and says what it promises of its results and of its failures.

* `Elab.Fits`: the stack and the count are those of a setting.
* `Elab.Judges`: the promise.
* `Judges.bind`, `judges_inLoop`, `judges_inFunction`, …: one lemma for each way to build a
  computation.
-/

namespace LedSketch

open HostText (Setting)

namespace Elab

variable {α β ω : Type} {p : Setting} {V : Fault → Prop} {Q : α → Prop} {R : β → Prop} {x : Elab α}
  {t : Tree ω} {ts : List (Tree ω)} {e : Enclosing}

/-- What encloses a node is exactly what its setting says. -/
structure Fits (p : Setting) (e : Enclosing) : Prop extends Suits p e where
  idle : p.looping = false → e.loops = 0

/-- **What a computation promises** in a setting: its results satisfy `Q`, what encloses it stays as
it is, and its failures satisfy `V`. -/
def Judges (p : Setting) (V : Fault → Prop) (Q : α → Prop) (x : Elab α) : Prop :=
  ∀ e, Fits p e → match x.run e with
    | .ok (a, e') => Q a ∧ e' = e
    | .error f => V f

theorem Judges.pure {a : α} (h : Q a) : Judges p V Q (Pure.pure a : Elab α) := fun _ _ => ⟨h, rfl⟩

theorem Judges.bind {f : α → Elab β} (hx : Judges p V Q x) (hf : ∀ a, Q a → Judges p V R (f a)) :
    Judges p V R (x >>= f) := by
  intro e he
  have h := hx e he
  rw [StateT.run_bind]
  cases hr : x.run e with
  | error f => rw [hr] at h; exact h
  | ok r =>
    obtain ⟨a, e'⟩ := r
    rw [hr] at h
    obtain ⟨ha, rfl⟩ := h
    exact hf a ha e' he

theorem Judges.mono {Q' : α → Prop} {V' : Fault → Prop} (h : Judges p V Q x)
    (hV : ∀ f, V f → V' f) (hQ : ∀ a, Q a → Q' a) : Judges p V' Q' x := by
  intro e he
  have := h e he
  split at this
  · exact ⟨hQ _ this.1, this.2⟩
  · exact hV _ this

theorem Judges.imp {Q' : α → Prop} (h : Judges p V Q x) (hQ : ∀ a, Q a → Q' a) :
    Judges p V Q' x := h.mono (fun _ => id) hQ

theorem judges_throw {f : Fault} (h : V f) : Judges p V Q (throw f : Elab α) := fun _ _ => h

theorem judges_reading {r : Except Mishap α} (h : ∀ m, r = .error m → V (.mishap m)) :
    Judges p V (r = .ok ·) (reading r) := by
  cases r with
  | ok a => exact Judges.pure rfl
  | error m => exact judges_throw (h m rfl)

theorem judges_get : Judges p V (Fits p) get := fun _ he => ⟨he, rfl⟩

/-- The body of a loop is elaborated within one loop more. -/
theorem judges_inLoop (h : Judges p.looped V Q x) : Judges p V Q (inLoop x) := by
  intro e he
  have hloops := he.loops
  have hx := h { e with loops := e.loops + 1 }
    ⟨⟨he.function, by dsimp only; omega, fun _ => by dsimp only; omega⟩, nofun⟩
  simp only [inLoop, StateT.run_bind, StateT.run_modify, pure_bind]
  cases hr : x.run { e with loops := e.loops + 1 } with
  | error f => rw [hr] at hx; exact hx
  | ok r =>
    obtain ⟨a, e'⟩ := r
    rw [hr] at hx
    obtain ⟨ha, rfl⟩ := hx
    refine ⟨ha, ?_⟩
    show ({ e with loops := e.loops + 1 - 1 } : Enclosing) = e
    rw [Int.add_sub_cancel]

/-- The body of a function is elaborated on its own. -/
theorem judges_inFunction {isAsync : Bool} (h : Judges ⟨some isAsync, false⟩ V Q x) :
    Judges p V Q (inFunction isAsync x) := by
  intro e _
  have hx := h ⟨isAsync :: e.functions, 0⟩ ⟨⟨rfl, Int.le_refl 0, nofun⟩, fun _ => rfl⟩
  simp only [inFunction, StateT.run_bind, StateT.run_get, StateT.run_modify, pure_bind]
  cases hr : x.run ⟨isAsync :: e.functions, 0⟩ with
  | error f => rw [hr] at hx; exact hx
  | ok r =>
    obtain ⟨a, e'⟩ := r
    rw [hr] at hx
    obtain ⟨ha, rfl⟩ := hx
    exact ⟨ha, rfl⟩

theorem judges_element {i : Nat} (h : ts[i]? = none → V (.mishap .noSuchElement)) :
    Judges p V (ts[i]? = some ·) (element ts i) := by
  unfold element
  split
  · rename_i ht
    exact Judges.pure ht
  · rename_i ht
    exact judges_throw (h ht)

/-- A check of what encloses a node: behind it the setting is right. -/
theorem judges_guard {c : Prop} [Decidable c] {complaint : Complaint} {f : Unit → Elab α}
    (hr : c → Judges p V (fun _ => False) (refuse complaint t : Elab Unit))
    (hf : ¬ c → Judges p V Q (f ())) :
    Judges p V Q (if c then refuse complaint t >>= f else f ()) := by
  split
  · exact (hr ‹_›).bind fun _ => False.elim
  · exact hf ‹_›

theorem judges_checkTarget {target : Node ω} {what : String}
    (hr : target.isAssignable = false →
      Judges p V (fun _ => False) (refuse (.invalidTarget what) t : Elab Unit)) :
    Judges p V (fun _ => target.isAssignable = true) (checkTarget target what t) := by
  unfold checkTarget
  cases h : target.isAssignable with
  | true => exact Judges.pure rfl
  | false => exact (hr h).imp fun _ => False.elim

theorem Fits.loops_eq_zero_iff (h : Fits p e) : e.loops = 0 ↔ p.looping = false := by
  refine ⟨fun hl => ?_, h.idle⟩
  cases hp : p.looping with
  | false => rfl
  | true =>
    have := h.looping hp
    omega

theorem Fits.isEmpty_iff (h : Fits p e) : e.functions.isEmpty = true ↔ p.function = none := by
  rw [← h.function, List.isEmpty_iff, List.head?_eq_none_iff]

theorem Fits.headD_iff (h : Fits p e) :
    e.functions.headD false = true ↔ p.function = some true := by
  rw [h.waits, Setting.waits]
  rcases p.function with _ | _ | _ <;> simp

end Elab
end LedSketch
