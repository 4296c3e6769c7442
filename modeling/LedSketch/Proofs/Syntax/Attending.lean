import LedSketch.Proofs.Syntax.Legal
import LedSketch.Proofs.Syntax.Pauses

/-!
# Trees whose pauses are awaited

A tree is `Attended` if every call of `delay` in it that may pause is the operand of an `await`, or
the start of such an operand, and if its parts stand where a grammar would put them.

* `Tree.Attended`: the pauses of a tree, given where it stands.
* `attended_node`, `attended_access`, …: when each kind of node is attended.
-/

namespace LedSketch

namespace Tree

open Node (Site)

/-- The tags of the nodes that say something about where their parts stand. -/
def siting : List String := ["function-decl", "template", "unary"]

/-- The tags of the nodes whose later children are taken apart. -/
def linked : List String := ["expression", "binary", "assignment", "conditional", "var-decl"]

/-- The tags of the nodes behind what an access starts with. -/
def linkTags : List String := ["call", "member", "index"]

/-- The tags of the nodes that only the node around them takes apart. -/
def tailTags : List String :=
  ["comma-tail", "binary-tail", "assign-tail", "conditional-tail", "declarator"] ++ linkTags

/-- Whether only the node around takes a tree apart. -/
def isTail : Tree → Bool
  | leaf _ => true
  | node m _ => tailTags.contains m.tag
  | foreign .. => false

/-- Whether a tree is a call, a member or an element of what comes before it. -/
def isLink : Tree → Bool
  | node m _ => linkTags.contains m.tag
  | _ => false

theorem mem_linkTags {t : Tree} {tag : String} (h : t.isLink = true) (htag : t.tag = .ok tag) :
    tag ∈ linkTags := by
  cases t with
  | node m ts =>
    cases htag
    simpa [isLink] using h
  | leaf m => cases h
  | foreign d _ => cases h

theorem isTail_of_isLink {t : Tree} (h : t.isLink = true) : t.isTail = true := by
  cases t with
  | node m ts =>
    have hmem : m.tag ∈ linkTags := mem_linkTags h rfl
    simp [isTail, tailTags, hmem]
  | leaf m => rfl
  | foreign d _ => cases h

/-- Whether a tree by itself is no program that pauses. -/
def isBare : Tree → Bool
  | leaf _ => true
  | node m _ => m.tag == "interpolation"
  | foreign .. => false

/-- The tags of what an access starts with, apart from groups. -/
def firstTags : List String :=
  ["number", "string", "template", "boolean", "null", "undefined", "array", "name"]

/-- Where the children of a node at `p` stand. -/
def inner (p : Site) (tag : String) (children : List Tree) : Site :=
  if tag = "function-decl" then ⟨asyncFirst children, p.inTemplate, .other⟩
  else if tag = "template" then ⟨p.inAsync, true, .other⟩
  else if tag = "unary" then p.as (if awaitFirst children then .operand else .other)
  else if tag = "postfix" then p
  else p.as .other

/-- If an access begins with a call at a place that counts, then what is called is no group, and
`delay` only where it is awaited. -/
def Heard (counts : Loc → Prop) (p : Site) : List Tree → Prop
  | first :: tail :: _ => tail.tag = .ok "call" → (∃ l, Elab.locOf tail = some l ∧ counts l) →
    (∃ tag ∈ firstTags, first.tag = .ok tag) ∧ (first.text = .ok "delay" → ¬ p.Lonely)
  | _ => True

/-- **Every pause of a tree at `p` is awaited.** -/
def Attended (counts : Loc → Prop) (p : Site) : Tree → Prop
  | leaf _ => True
  | foreign .. => False
  | node m children =>
    (m.tag ∈ siting → ∀ t ∈ children.head?, t.isBare = true) ∧
      (m.tag ∈ linked → ∀ t ∈ children.drop 1, t.isTail = true) ∧
      (m.tag = "access" → Heard counts p children ∧ ∀ t ∈ children.drop 1, t.isLink = true) ∧
      all counts (inner p m.tag children) children
where
  all (counts : Loc → Prop) (p : Site) : List Tree → Prop
    | [] => True
    | t :: ts => Attended counts p t ∧ all counts p ts

variable {counts : Loc → Prop} {p : Site} {m : Mark} {ts : List Tree}

theorem attended_all_iff : Attended.all counts p ts ↔ ∀ t ∈ ts, Attended counts p t := by
  induction ts with
  | nil => simp [Attended.all]
  | cons t ts ih => simp [Attended.all, ih]

theorem attended_leaf : Attended counts p (leaf m) := trivial

/-- The tags of the nodes that are more than the sum of their parts. -/
def marked : List String := siting ++ linked ++ ["postfix", "access"]

theorem inner_of_not_mem (h : m.tag ∉ siting ++ ["postfix"]) : inner p m.tag ts = p.as .other := by
  simp only [siting, List.cons_append, List.nil_append, List.mem_cons, List.not_mem_nil, or_false,
    not_or] at h
  rw [inner, if_neg h.1, if_neg h.2.1, if_neg h.2.2.1, if_neg h.2.2.2]

theorem attended_node (hm : m.tag ∉ marked) (h : ∀ t ∈ ts, Attended counts (p.as .other) t) :
    Attended counts p (node m ts) := by
  refine ⟨fun h => absurd (by simp [marked, h]) hm, fun h => absurd (by simp [marked, h]) hm,
    fun h => absurd (by simp [marked, h]) hm, ?_⟩
  rw [attended_all_iff, inner_of_not_mem fun h => hm ?_]
  · exact h
  · rcases List.mem_append.mp h with h | h
    · simp [marked, h]
    · simp [marked, List.mem_singleton.mp h]

theorem attended_linked (hm : m.tag ∈ linked) (hd : ∀ t ∈ ts.drop 1, t.isTail = true)
    (h : ∀ t ∈ ts, Attended counts (p.as .other) t) : Attended counts p (node m ts) := by
  have key : ∀ tag ∈ linked, tag ∉ siting ∧ tag ≠ "access" ∧ tag ∉ siting ++ ["postfix"] := by
    decide
  obtain ⟨h₁, h₂, h₃⟩ := key _ hm
  refine ⟨fun h => absurd h h₁, fun _ => hd, fun h => absurd h h₂, ?_⟩
  rw [attended_all_iff, inner_of_not_mem h₃]
  exact h

theorem attended_access (hm : m.tag = "access") (hheard : Heard counts p ts)
    (hd : ∀ t ∈ ts.drop 1, t.isLink = true) (h : ∀ t ∈ ts, Attended counts (p.as .other) t) :
    Attended counts p (node m ts) := by
  refine ⟨fun h => ?_, fun h => ?_, fun _ => ⟨hheard, hd⟩, ?_⟩
  · rw [hm] at h
    exact absurd h (by decide)
  · rw [hm] at h
    exact absurd h (by decide)
  · rw [attended_all_iff, hm]
    exact h

theorem attended_siting (hm : m.tag ∈ siting) (hb : ∀ t ∈ ts.head?, t.isBare = true)
    (h : ∀ t ∈ ts, Attended counts (inner p m.tag ts) t) : Attended counts p (node m ts) := by
  have key : ∀ tag ∈ siting, tag ∉ linked ∧ tag ≠ "access" := by decide
  exact ⟨fun _ => hb, fun h => absurd h (key _ hm).1, fun h => absurd h (key _ hm).2,
    attended_all_iff.mpr h⟩

theorem attended_postfix (hm : m.tag = "postfix")
    (h : ∀ t ∈ ts, Attended counts p t) : Attended counts p (node m ts) := by
  refine ⟨fun h => ?_, fun h => ?_, fun h => ?_, ?_⟩
  · rw [hm] at h
    exact absurd h (by decide)
  · rw [hm] at h
    exact absurd h (by decide)
  · rw [hm] at h
    exact absurd h (by decide)
  · rw [attended_all_iff, hm]
    exact h

end Tree
end LedSketch
