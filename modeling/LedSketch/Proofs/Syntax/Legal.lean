import LedSketch.Syntax.Elaborate

/-!
# Trees that await only where they may

A tree is `Legal` if every `await` in it has an async function around it, as its innermost one, and
every part of it stands where a grammar would put it.

* `Legal`: the `await`s of a tree, given whether the innermost function around it is async.
* `Lawful`: a legal program.
* `legal_node`, `legal_unary`, `legal_function`: when the three kinds of nodes are legal.
-/

namespace LedSketch

namespace Tree

/-- Whether the children of a function declaration begin with the mark of an async one. -/
def asyncFirst : List Tree → Bool
  | [] => false
  | t :: _ => match t.tag with
    | .ok s => s == "async"
    | .error _ => false

/-- Whether the first of the trees spells `await`. -/
def awaitFirst : List Tree → Bool
  | [] => false
  | t :: _ => match t.text with
    | .ok s => s == "await"
    | .error _ => false

def isLeaf : Tree → Bool
  | leaf _ => true
  | _ => false

def isDeclaration : Tree → Bool
  | node m _ => m.tag == "function-decl"
  | _ => false

/-- The tags of the nodes that have a say in where an `await` may stand. -/
def governing : List String := ["program", "function-decl", "unary"]

/-- The tags of the nodes whose children are taken apart, whatever they are. -/
def chained : List String := ["expression", "binary", "assignment", "conditional", "var-decl"]

/-- Every `await` stands in an async function; `inAsync` says whether the function around the tree
is one. -/
def Legal (inAsync : Bool) : Tree → Prop
  | leaf m => m.tag ≠ "program"
  | foreign .. => False
  | node m children =>
    if m.tag = "function-decl" then
      (∀ t ∈ children.head?, t.isLeaf = true) ∧ all (asyncFirst children) children
    else
      m.tag ≠ "program" ∧ (m.tag = "unary" → awaitFirst children = true → inAsync = true) ∧
        (m.tag ∈ chained → ∀ t ∈ children, t.isDeclaration = false) ∧ all inAsync children
where
  all (inAsync : Bool) : List Tree → Prop
    | [] => True
    | t :: ts => Legal inAsync t ∧ all inAsync ts

theorem legal_all_iff {b : Bool} {ts : List Tree} : Legal.all b ts ↔ ∀ t ∈ ts, Legal b t := by
  induction ts with
  | nil => simp [Legal.all]
  | cons t ts ih => simp [Legal.all, ih]

/-- **A program whose every `await` stands in an async function.** -/
def Lawful : Tree → Prop
  | node m ts => m.tag = "program" ∧ ∀ t ∈ ts, Legal false t
  | _ => False

variable {b : Bool} {m : Mark} {ts : List Tree}

theorem legal_leaf (hm : m.tag ≠ "program") : Legal b (leaf m) := by
  rw [Legal]
  exact hm

theorem legal_node (hm : m.tag ∉ governing)
    (hc : m.tag ∈ chained → ∀ t ∈ ts, t.isDeclaration = false) (h : ∀ t ∈ ts, Legal b t) :
    Legal b (node m ts) := by
  simp only [governing, List.mem_cons, List.not_mem_nil, or_false, not_or] at hm
  rw [Legal, if_neg hm.2.1]
  exact ⟨hm.1, fun he => absurd he hm.2.2, hc, legal_all_iff.mpr h⟩

theorem legal_unary (hm : m.tag = "unary") (ha : awaitFirst ts = true → b = true)
    (h : ∀ t ∈ ts, Legal b t) : Legal b (node m ts) := by
  rw [Legal, if_neg (by rw [hm]; decide), hm]
  exact ⟨by decide, fun _ => ha, fun hc => absurd hc (by decide), legal_all_iff.mpr h⟩

theorem legal_function (hm : m.tag = "function-decl") (hl : ∀ t ∈ ts.head?, t.isLeaf = true)
    (h : ∀ t ∈ ts, Legal (asyncFirst ts) t) : Legal b (node m ts) := by
  rw [Legal, if_pos hm]
  exact ⟨hl, legal_all_iff.mpr h⟩

end Tree
end LedSketch
