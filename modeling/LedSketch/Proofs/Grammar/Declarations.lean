import LedSketch.Grammar.HostForm
import LedSketch.Proofs.Grammar.Readings
import LedSketch.Proofs.Syntax.Legal

/-!
# Where function declarations may stand

Only statements yield function declarations, so the parts of an expression or of a binding are none.

* `Undeclared`: an expression that takes no tree over from a rule that yields declarations.
* `undeclared`: rules other than those of statements yield no declarations.
-/

namespace LedSketch.Grammar

/-- The rules that yield function declarations. -/
def declares : Rule → Bool
  | .statement | .item | .functionDecl => true
  | _ => false

mutual

/-- Whether no tree that an expression builds is a function declaration. -/
def Undeclared : Peg Rule → Bool
  | .token _ | .leaf .. | .drop _ => true
  | .seq ps | .choice ps => UndeclaredAll ps
  | .many p | .optional p => Undeclared p
  | .rule name => !declares name
  | .node tag _ => tag != "function-decl"

def UndeclaredAll : List (Peg Rule) → Bool
  | [] => true
  | p :: ps => Undeclared p && UndeclaredAll ps

end

theorem undeclared_hostForm {name : Rule} (h : declares name = false) :
    Undeclared (hostForm name) = true := by
  cases name with
  | statement | item | functionDecl => cases h
  | binary l => cases l <;> rfl
  | _ => rfl

/-- The passage that builds no function declaration. -/
def Declarationless : Passage Rule := fun _ ts _ _ => ∀ t ∈ ts, t.isDeclaration = false

theorem Declarationless.closed : Declarationless.Closed where
  nil := by simp [Declarationless]
  append h h' := by
    intro t ht
    exact (List.mem_append.mp ht).elim (h t) (h' t)

variable {n : Nat} {w : Rule}

theorem obeys_undeclared
    (ih : ∀ name, declares name = false → Obeys hostForm n w (.rule name) Declarationless) :
    ∀ p, Undeclared p = true → Obeys hostForm n w p Declarationless
  | .token _, _ => obeys_token fun _ _ _ => by simp [Declarationless]
  | .seq ps, h => obeys_seq (ObeysSeq.of_closed Declarationless.closed (all ps h))
  | .choice ps, h => obeys_choice (all ps h)
  | .many p, h => obeys_many Declarationless.closed (obeys_undeclared ih p h)
  | .optional p, h => obeys_optional Declarationless.closed.nil (obeys_undeclared ih p h)
  | .rule name, h => ih name (by simpa [Undeclared] using h)
  | .node tag p, h => by
    refine obeys_node (.true w p) fun c ts rs d _ t ht => ?_
    obtain rfl := List.mem_singleton.mp ht
    simpa [Undeclared, Tree.isDeclaration, Cursor.mark] using h
  | .leaf _ p, _ => by
    refine obeys_leaf (.true w p) fun c ts rs d _ t ht => ?_
    obtain rfl := List.mem_singleton.mp ht
    rfl
  | .drop p, _ => obeys_drop (.true w p) fun _ _ _ _ _ => by simp [Declarationless]
where
  all : ∀ ps, UndeclaredAll ps = true → ∀ p ∈ ps, Obeys hostForm n w p Declarationless
  | [], _ => by simp
  | p :: ps, h => by
    simp only [UndeclaredAll, Bool.and_eq_true] at h
    intro q hq
    rcases List.mem_cons.mp hq with hqp | hq
    · rw [hqp]
      exact obeys_undeclared ih p h.1
    · exact all ps h.2 q hq

/-- **Rules other than those of statements yield no function declarations.** -/
theorem undeclared (n : Nat) : ∀ w name, declares name = false →
    Obeys hostForm n w (.rule name) Declarationless := by
  induction n with
  | zero => exact fun _ _ _ => Obeys.zero _ _ _
  | succ n ih =>
    intro w name h
    exact obeys_rule (obeys_undeclared (ih name) _ (undeclared_hostForm h))

end LedSketch.Grammar
