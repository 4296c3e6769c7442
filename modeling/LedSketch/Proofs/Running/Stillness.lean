import LedSketch.Proofs.Running.Upholding

/-!
# Expressions that change nothing

Literals, names, operators and reads of elements change nothing wherever they are evaluated, and ask
for nothing. What is evaluated behind them starts from the memory that was there before.

* `Eval.Still`: changing nothing.
* `Node.Steady`, `Running.still_evaluate`: the expressions that do not.
-/

namespace LedSketch

namespace Eval

variable {α β : Type} {m : Memory}

/-- **Changes nothing**, asks for nothing, and never rests. -/
def Still (x : Eval α) : Prop := ∀ m, ∃ r, x.runFrom m = .done (r, m)

theorem still_pure (a : α) : Still (pure a) := fun _ => ⟨_, rfl⟩

theorem still_throw (i : Interrupt) : Still (throw i : Eval α) := fun _ => ⟨_, rfl⟩

theorem still_store : Still store := fun _ => ⟨_, rfl⟩

theorem Still.bind {x : Eval α} {f : α → Eval β} (hx : Still x) (hf : ∀ a, Still (f a)) :
    Still (x >>= f) := by
  intro m
  rw [runFrom_bind]
  obtain ⟨i | a, hr⟩ := hx m
  · exact ⟨.error i, by rw [hr, Act.done_bind]⟩
  · obtain ⟨r, hr'⟩ := hf a m
    exact ⟨r, by rw [hr]; exact hr'⟩

/-- What is done behind an evaluation that changes nothing is done in the same memory. -/
theorem Still.always_bind {x : Eval α} {f : α → Eval β} {P : Except Interrupt β × Memory → Prop}
    (hx : Still x) (herr : ∀ i, P (.error i, m))
    (hf : ∀ a, x.runFrom m = .done (.ok a, m) → ((f a).runFrom m).Always P) :
    ((x >>= f).runFrom m).Always P := by
  rw [runFrom_bind]
  obtain ⟨i | a, hr⟩ := hx m
  · rw [hr]
    exact herr i
  · rw [hr]
    exact hf a hr

theorem still_ofMishap (r : Except Mishap α) : Still (ofMishap r) := by
  cases r <;> exact fun _ => ⟨_, rfl⟩

theorem still_ofComplaint (r : Except Complaint α) : Still (ofComplaint r) := by
  cases r <;> exact fun _ => ⟨_, rfl⟩

theorem still_ofFault (r : Except Fault α) : Still (ofFault r) := by
  rcases r with (_ | _) | _ <;> exact fun _ => ⟨_, rfl⟩

theorem still_complain (c : Complaint) : Still (complain c : Eval α) := still_throw _

theorem still_display (v : Value) : Still (display v) :=
  still_store.bind fun _ => still_ofMishap _

end Eval

namespace Members

open Eval

/-- A name that is that of no function behind a dot. -/
def IsData (name : String) : Prop :=
  ofList? name = none ∧ ofText? name = none ∧ name ≠ "toFixed"

theorem still_get (object : Value) {name : String} (hn : IsData name) :
    Still (get object name) := by
  obtain ⟨hl, ht, hf⟩ := hn
  unfold get
  split
  · exact still_complain _
  · exact still_pure _
  · rw [hl]
    split
    · exact still_store.bind fun _ => still_pure _
    · exact still_pure _
  · rw [ht]
    split <;> exact still_pure _
  · split
    · rw [if_neg hf]
      exact still_pure _
    · exact still_pure _

theorem still_element (container key : Value) : Still (element container key) := by
  unfold element
  split
  · exact still_store.bind fun _ => still_pure _
  · exact still_pure _
  · exact (still_display _).bind fun _ => still_pure _
  · exact (still_display _).bind fun _ => still_complain _
  · exact still_pure _

end Members

/-- **An expression that changes nothing**: it assigns, calls and makes nothing. -/
inductive Node.Steady : Node → Prop
  | literal {l v} : Steady (.literal l v)
  | identifier {l name} : Steady (.identifier l name)
  | template {l parts} (h : ∀ e, .inr e ∈ parts → Steady e) : Steady (.template l parts)
  | unary {l op x} (hx : Steady x) : Steady (.unary l op x)
  | binary {l op x y} (hx : Steady x) (hy : Steady y) : Steady (.binary l op x y)
  | logical {l op x y} (hx : Steady x) (hy : Steady y) : Steady (.logical l op x y)
  | conditional {l x y z} (hx : Steady x) (hy : Steady y) (hz : Steady z) :
    Steady (.conditional l x y z)
  | member {l x name} (hn : Members.IsData name) (hx : Steady x) : Steady (.member l x name)
  | index {l x k} (hx : Steady x) (hk : Steady k) : Steady (.index l x k)

namespace Running

open Eval

variable {b : Binding} {fuel : Nat} {scope : ScopeRef} {e object key : Node} {m : Memory}

theorem still_unaryOperator (op : String) (v : Value) : Still (unaryOperator op v) := by
  unfold unaryOperator
  split <;> first | exact still_pure _ | exact still_complain _

/-- Whoever runs out of steps at once changes nothing. -/
theorem still_of_succ (h : ∀ fuel, Still (evaluate b (fuel + 1) scope e)) (fuel : Nat) :
    Still (evaluate b fuel scope e) := by
  cases fuel with
  | zero =>
    rw [evaluate]
    exact still_throw _
  | succ fuel => exact h fuel

theorem still_templateText {parts : List (String ⊕ Node)}
    (h : ∀ e, .inr e ∈ parts → ∀ fuel, Still (evaluate b fuel scope e)) (fuel : Nat) :
    Still (templateText b fuel scope parts) := by
  induction parts generalizing fuel with
  | nil => cases fuel <;> simp only [templateText] <;> exact fun _ => ⟨_, rfl⟩
  | cons part parts ih =>
    cases fuel with
    | zero =>
      rw [templateText]
      exact still_throw _
    | succ fuel =>
      have rest := ih (fun e he => h e (List.mem_cons_of_mem _ he)) fuel
      cases part with
      | inl s =>
        rw [templateText]
        exact (still_pure s).bind fun _ => rest.bind fun _ => still_pure _
      | inr e =>
        rw [templateText]
        exact (h e List.mem_cons_self fuel).bind fun v => (still_display v).bind fun _ =>
          rest.bind fun _ => still_pure _

/-- **Steady expressions change nothing**, wherever they are evaluated. -/
theorem still_evaluate (h : e.Steady) : ∀ fuel, Still (evaluate b fuel scope e) := by
  induction h with
  | literal =>
    refine still_of_succ fun fuel => ?_
    rw [evaluate]
    exact still_pure _
  | identifier =>
    refine still_of_succ fun fuel => ?_
    rw [evaluate]
    exact still_store.bind fun _ => still_ofComplaint _
  | template _ ih =>
    refine still_of_succ fun fuel => ?_
    rw [evaluate]
    exact (still_templateText ih fuel).bind fun _ => still_pure _
  | unary _ ih =>
    refine still_of_succ fun fuel => ?_
    rw [evaluate]
    exact (ih fuel).bind fun v => still_unaryOperator _ v
  | binary _ _ ihx ihy =>
    refine still_of_succ fun fuel => ?_
    rw [evaluate]
    exact (ihx fuel).bind fun _ => (ihy fuel).bind fun _ => still_store.bind fun _ =>
      still_ofFault _
  | logical _ _ ihx ihy =>
    refine still_of_succ fun fuel => ?_
    rw [evaluate]
    refine (ihx fuel).bind fun _ => ?_
    split
    · exact ihy fuel
    · exact still_pure _
  | conditional _ _ _ ihx ihy ihz =>
    refine still_of_succ fun fuel => ?_
    rw [evaluate]
    refine (ihx fuel).bind fun _ => ?_
    split
    · exact ihy fuel
    · exact ihz fuel
  | member hn _ ih =>
    refine still_of_succ fun fuel => ?_
    rw [evaluate]
    exact (ih fuel).bind fun v => Members.still_get v hn
  | index _ _ ihx ihk =>
    refine still_of_succ fun fuel => ?_
    rw [evaluate]
    exact (ihx fuel).bind fun _ => (ihk fuel).bind fun _ => Members.still_element _ _

end Running
end LedSketch
