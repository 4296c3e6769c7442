import LedSketch.Proofs.Grammar.Phrases
import LedSketch.Proofs.Syntax.Climbing

/-!
# Precedence climbing

A chain of names with operators between them is put together by one loop: on the left operand it
takes each operator that binds tightly enough, with as much on the right as binds tighter still.

* `precedence`, `binding`: the operators by levels, and how tightly each binds.
* `climb`: the tree of a chain, and what is left of the chain.
* `climb_climb`: climbing goes on from where climbing stopped at tighter operators.
* `binding_lt_of_mem_head?`: climbing stops only in front of an operator that binds too loosely.
-/

namespace LedSketch.HostText

open Grammar Elab

/-! ## Operators -/

/-- The operators between two operands, the loosest first. -/
def precedence : List (List String) :=
  [["||"], ["&&"], ["|"], ["^"], ["&"], ["===", "!==", "==", "!="], ["<=", ">=", "<", ">"],
    ["<<", ">>"], ["+", "-"], ["*", "/", "%"]]

/-- How tightly an operator binds. -/
def binding (op : String) : Nat := precedence.findIdx fun ops => ops.contains op

/-- The node of an operator between two operands. -/
def join (op : String) (left right : Node) : Node :=
  if op ∈ logicalOperators then .logical none op left right else .binary none op left right

theorem join_eq_binaryNode (op : String) (left right : Node) :
    join op left right = binaryNode none op left right := by
  unfold join binaryNode
  simp [logicalOperators, or_comm]

theorem binding_spelled {l : Level} {op : String} (ho : op ∈ spelled l) :
    binding op + l.height = 9 := by
  cases l
  all_goals
    simp only [spelled, List.mem_cons, List.not_mem_nil, or_false] at ho
    rcases ho with rfl | rfl | rfl | rfl
  all_goals decide

/-- **The operators by levels are those of the grammar.** -/
theorem takes_iff {op : String} : (∃ l : Level, l.operator.Takes op) ↔ op ∈ precedence.flatten := by
  have table : ∀ l : Level, ∀ op ∈ spelled l, op ∈ precedence.flatten := by
    intro l
    cases l <;> decide
  have all : ∀ op ∈ precedence.flatten,
      op ∈ binaryOperators ∨ op ∈ logicalOperators := by decide
  constructor
  · rintro ⟨l, hl⟩
    obtain ⟨l', ho⟩ := exists_level (List.mem_append.mp (takes_level hl))
    exact table l' op ho
  · intro ho
    obtain ⟨l, hl⟩ := exists_level (all op ho)
    refine ⟨l, _, _, (operator_spelled hl []).2.1, ?_⟩
    rw [List.take_left, String.ofList_toList]

/-! ## Chains -/

/-- A further operand of a chain, a name, behind its operator. -/
structure Link where
  op : String
  name : String
deriving DecidableEq, Repr

/-- Whether some level of the grammar takes the operator, and the name is not reserved. -/
structure Link.Valid (k : Link) : Prop where
  op : ∃ l : Level, l.operator.Takes k.op
  name : IsIdentifier k.name

theorem Link.Valid.spelled {k : Link} (h : k.Valid) : ∃ l, k.op ∈ spelled l := by
  obtain ⟨l, hl⟩ := h.op
  exact exists_level (List.mem_append.mp (takes_level hl))

theorem eq_of_height {l l' : Level} (h : l.height = l'.height) : l = l' := by
  cases l <;> cases l' <;> first | rfl | cases h

/-- An operator that binds as a level does is the level's. -/
theorem Link.Valid.spelled_of_binding {k : Link} (hk : k.Valid) {l : Level}
    (h : binding k.op + l.height = 9) : k.op ∈ Grammar.spelled l := by
  obtain ⟨l', hl'⟩ := hk.spelled
  have := binding_spelled hl'
  obtain rfl : l' = l := eq_of_height (by omega)
  exact hl'

/-- What climbing comes to: the tree so far, and the links that are left. -/
structure Climbed (links : List Link) where
  tree : Node
  rest : List Link
  suffix : rest <:+ links

/-- **Precedence climbing.** The operators that bind at least as tightly as `least` are taken one by
one, each with the right operand that climbing at tighter operators makes of what follows. -/
def climb (least : Nat) (left : Node) (links : List Link) : Climbed links :=
  match links with
  | [] => ⟨left, [], List.suffix_rfl⟩
  | k :: ks =>
    if least ≤ binding k.op then
      let right := climb (binding k.op + 1) (.identifier none k.name) ks
      let whole := climb least (join k.op left right.tree) right.rest
      ⟨whole.tree, whole.rest, (whole.suffix.trans right.suffix).trans (List.suffix_cons k ks)⟩
    else ⟨left, k :: ks, List.suffix_rfl⟩
termination_by links.length
decreasing_by
  · exact Nat.lt_succ_self _
  · exact Nat.lt_succ_of_le right.suffix.length_le

/-- The tree of a chain. -/
def chainTree (name : String) (links : List Link) : Node :=
  (climb 0 (.identifier none name) links).tree

variable {least more : Nat} {left : Node} {k : Link} {ks links : List Link}

theorem climb_nil (least : Nat) (left : Node) :
    (climb least left []).tree = left ∧ (climb least left []).rest = [] := by
  rw [climb]
  exact ⟨rfl, rfl⟩

/-- An operator that binds tightly enough is taken. -/
theorem climb_taken (h : least ≤ binding k.op) (left : Node) (ks : List Link) :
    let right := climb (binding k.op + 1) (.identifier none k.name) ks
    (climb least left (k :: ks)).tree = (climb least (join k.op left right.tree) right.rest).tree ∧
      (climb least left (k :: ks)).rest
        = (climb least (join k.op left right.tree) right.rest).rest := by
  rw [climb, if_pos h]
  exact ⟨rfl, rfl⟩

/-- An operator that binds too loosely is left. -/
theorem climb_stopped (h : binding k.op < least) (left : Node) (ks : List Link) :
    (climb least left (k :: ks)).tree = left ∧ (climb least left (k :: ks)).rest = k :: ks := by
  rw [climb, if_neg (Nat.not_le_of_lt h)]
  exact ⟨rfl, rfl⟩

/-- **Climbing goes on** from where climbing stopped at tighter operators. -/
theorem climb_climb (h : least ≤ more) (left : Node) (links : List Link) :
    (climb least (climb more left links).tree (climb more left links).rest).tree
        = (climb least left links).tree ∧
      (climb least (climb more left links).tree (climb more left links).rest).rest
        = (climb least left links).rest := by
  induction more, left, links using climb.induct with
  | case1 more left =>
    obtain ⟨htree, hrest⟩ := climb_nil more left
    rw [htree, hrest]
    exact ⟨rfl, rfl⟩
  | case2 more left k ks hk _ _ ih =>
    obtain ⟨htree, hrest⟩ := climb_taken hk left ks
    obtain ⟨htree', hrest'⟩ := climb_taken (h.trans hk) left ks
    rw [htree, hrest, htree', hrest']
    exact ih h
  | case3 more left k ks hk =>
    obtain ⟨htree, hrest⟩ := climb_stopped (Nat.lt_of_not_le hk) left ks
    rw [htree, hrest]
    exact ⟨rfl, rfl⟩

/-- **Climbing stops** in front of an operator that binds too loosely. -/
theorem binding_lt_of_mem_head? (least : Nat) (left : Node) (links : List Link) :
    ∀ k ∈ (climb least left links).rest.head?, binding k.op < least := by
  induction least, left, links using climb.induct with
  | case1 least left =>
    rw [(climb_nil least left).2]
    rintro _ ⟨⟩
  | case2 least left k ks hk _ _ ih =>
    rw [(climb_taken hk left ks).2]
    exact ih
  | case3 least left k ks hk =>
    have hlt := Nat.lt_of_not_le hk
    rw [(climb_stopped hlt left ks).2]
    rintro _ ⟨⟩
    exact hlt

/-- Climbing at all operators leaves nothing. -/
theorem rest_climb_zero (left : Node) (links : List Link) : (climb 0 left links).rest = [] := by
  cases h : (climb 0 left links).rest with
  | nil => rfl
  | cons k ks =>
    have := binding_lt_of_mem_head? 0 left links k (by rw [h]; rfl)
    omega

/-- Climbing above all operators takes nothing. -/
theorem climb_ten (h : ∀ k ∈ links, k.Valid) (left : Node) :
    (climb 10 left links).tree = left ∧ (climb 10 left links).rest = links := by
  cases links with
  | nil => exact climb_nil 10 left
  | cons k ks =>
    obtain ⟨l, hl⟩ := (h k List.mem_cons_self).spelled
    exact climb_stopped (by have := binding_spelled hl; omega) left ks

theorem unplaced_join {op : String} {left right : Node} (hl : left.unplaced = left)
    (hr : right.unplaced = right) : (join op left right).unplaced = join op left right := by
  unfold join
  split_ifs <;> rw [Node.unplaced, hl, hr]

/-- The tree of a chain has no places. -/
theorem unplaced_climb (least : Nat) {left : Node} (hleft : left.unplaced = left)
    (links : List Link) :
    (climb least left links).tree.unplaced = (climb least left links).tree := by
  induction least, left, links using climb.induct with
  | case1 least left =>
    rw [(climb_nil least left).1]
    exact hleft
  | case2 least left k ks hk _ ihright ih =>
    rw [(climb_taken hk left ks).1]
    exact ih (unplaced_join hleft (ihright rfl))
  | case3 least left k ks hk =>
    rw [(climb_stopped (Nat.lt_of_not_le hk) left ks).1]
    exact hleft

end LedSketch.HostText
