import LedSketch.Proofs.Syntax.HostText
import LedSketch.Proofs.Syntax.Pauses
import LedSketch.Syntax.Tree

/-!
# The static rules

Some nodes make sense only in some places: an `await` in an async function, a `return` in a function,
a jump in the body of a loop. Others make sense only with some parts: a target must be assignable,
and a constant must have a value.

* `Node.places`: the parts of a node, and the setting of each.
* `Node.Permitted`: what the rules say about a node itself.
* `Node.Conforms`: what they say about everything in it.
* `conforms_iff`: a node conforms if it is permitted and its parts conform.
-/

namespace LedSketch

open HostText (Setting)

/-- The setting of the body of a loop. -/
def HostText.Setting.looped (p : Setting) : Setting := { p with looping := true }

variable {ω : Type}

namespace Node

/-- The parts of a node that stands in the setting `p`, and what they stand in. -/
def places (p : Setting) : Node ω → List (Setting × Node ω)
  | functionDecl _ _ _ body isAsync => [(⟨some isAsync, false⟩, body)]
  | forLoop _ init test step body =>
    (p.looped, body) :: (init.toList ++ test.toList ++ step.toList).map (p, ·)
  | whileLoop _ test body | doWhile _ body test => [(p, test), (p.looped, body)]
  | template _ parts => (parts.filterMap Sum.getRight?).map (p, ·)
  | await _ e | member _ e _ => [(p, e)]
  | call _ callee args => (callee :: args).map (p, ·)
  | index _ object key => [(p, object), (p, key)]
  | n => n.ordinaryParts.map (p, ·)

/-- Below a node in the setting `p` there is the node `m` in the setting `q`. -/
inductive Below : Setting → Node ω → Setting → Node ω → Prop
  | refl (p : Setting) (n : Node ω) : Below p n p n
  | step {p q r : Setting} {n m k : Node ω} (part : (q, m) ∈ n.places p) (rest : Below q m r k) :
      Below p n r k

/-- **What the static rules say about a node itself**, in the setting `p`. -/
def Permitted [Wording ω] (p : Setting) : Node ω → Prop
  | await .. => p.function = some true
  | returnStmt .. => p.function ≠ none
  | breakStmt _ | continueStmt _ => p.looping = true
  | assign _ _ target _ | update _ _ _ target => target.isAssignable = true
  | varDecl _ kind ds => Wording.spells kind "const" → ∀ d ∈ ds, d.2 ≠ none
  | _ => True

/-- **A node that obeys all static rules**, in the setting `p`. -/
def Conforms [Wording ω] (p : Setting) (n : Node ω) : Prop := ∀ q m, Below p n q m → m.Permitted q

variable [Wording ω] {p : Setting} {n : Node ω}

theorem conforms_iff : n.Conforms p ↔ n.Permitted p ∧ ∀ x ∈ n.places p, x.2.Conforms x.1 := by
  constructor
  · exact fun h => ⟨h p n (.refl p n), fun x hx q m hm => h q m (.step hx hm)⟩
  · rintro ⟨hn, hparts⟩ q m h
    cases h with
    | refl => exact hn
    | step part rest => exact hparts _ part _ _ rest

/-- Most nodes conform if their parts do, in the same setting. -/
theorem conforms_ordinary (hn : n.Permitted p) (hplaces : n.places p = n.ordinaryParts.map (p, ·))
    (h : ∀ m ∈ n.ordinaryParts, m.Conforms p) : n.Conforms p := by
  refine conforms_iff.mpr ⟨hn, fun x hx => ?_⟩
  rw [hplaces] at hx
  obtain ⟨m, hm, rfl⟩ := List.mem_map.mp hx
  exact h m hm

end Node

namespace Tree

/-- A tree and the parts of it, however deep. -/
inductive Part : Tree ω → Tree ω → Prop
  | refl (t : Tree ω) : Part t t
  | step {t c u : Tree ω} {cs : List (Tree ω)} (children : t.children = .ok cs) (mem : c ∈ cs)
      (rest : Part c u) : Part t u

/-- No part of a tree is a program. -/
def Inner (t : Tree ω) : Prop := ∀ u, Part t u → u.tag ≠ .ok "program"

/-- **A program occurs only as the root of a tree.** -/
def Rooted (t : Tree ω) : Prop := ∀ cs, t.children = .ok cs → ∀ c ∈ cs, c.Inner

theorem Inner.tag {t : Tree ω} (h : t.Inner) : t.tag ≠ .ok "program" := h t (.refl t)

theorem Inner.child {t c : Tree ω} {cs : List (Tree ω)} (h : t.Inner) (hcs : t.children = .ok cs)
    (hc : c ∈ cs) : c.Inner := fun u hu => h u (.step hcs hc hu)

theorem inner_of_parts {t : Tree ω} (ht : t.tag ≠ .ok "program")
    (h : ∀ cs, t.children = .ok cs → ∀ c ∈ cs, c.Inner) : t.Inner := by
  intro u hu
  cases hu with
  | refl => exact ht
  | step hcs hc hu => exact h _ hcs _ hc u hu

theorem inner_node {m : Mark ω} {ts : List (Tree ω)} (hm : m.tag ≠ "program")
    (h : ∀ t ∈ ts, t.Inner) : (node m ts).Inner := by
  refine inner_of_parts (fun ht => hm (Except.ok.inj ht)) ?_
  rintro cs ⟨⟩
  exact h

end Tree
end LedSketch
