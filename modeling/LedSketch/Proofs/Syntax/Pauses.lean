import LedSketch.Syntax.Node

/-!
# Where a program pauses

A call of `delay` pauses a sketch only as the operand of an `await`. This says where the parts of a
program stand: in an async function or not, in a template or not, and what an `await` has to do with
them.

* `Node.Reaches`: a part of a program, and where it stands.
* `Node.PausesAs`: a call of `delay` in an async function and outside of templates, in some role.
* `Node.Attended`: no such call is left without an `await`.
* `attended_iff`: a node is attended if it is no lonely pause and its parts are attended.
-/

namespace LedSketch

/-- What the innermost `await` has to do with a node. -/
inductive Role where
  /-- The node is what it waits for. -/
  | operand
  /-- What it waits for is a chain of calls, members, elements and updates that starts with the
  node. -/
  | head
  | other
deriving DecidableEq, Repr

/-- The role of what a call, a member, an element or an update starts with. -/
def Role.inner : Role → Role
  | .operand | .head => .head
  | .other => .other

namespace Node

/-- Where a part of a program stands. -/
structure Site where
  /-- The innermost function around it is async. -/
  inAsync : Bool := false
  /-- It is part of an interpolation. -/
  inTemplate : Bool := false
  role : Role := .other
deriving DecidableEq, Repr

/-- The same place, in some role. -/
def Site.as (p : Site) (role : Role) : Site := { p with role }

/-- The parts of a node that does not say anything about where they stand. -/
def ordinaryParts {ω : Type} : Node ω → List (Node ω)
  | array _ ns | block _ ns | program _ ns => ns
  | unary _ _ a | update _ _ _ a | exprStmt _ a => [a]
  | binary _ _ a b | logical _ _ a b | assign _ _ a b | whileLoop _ a b | doWhile _ a b => [a, b]
  | conditional _ a b c => [a, b, c]
  | varDecl _ _ ds => ds.filterMap Prod.snd
  | ifElse _ a b c => a :: b :: c.toList
  | forLoop _ a b c d => d :: (a.toList ++ b.toList ++ c.toList)
  | returnStmt _ v => v.toList
  | _ => []

/-- The parts of a node that stands at `p`, and where they stand. -/
def parts (p : Site) : Node → List (Site × Node)
  | await _ e => [(p.as .operand, e)]
  | call _ f args => (p.as p.role.inner, f) :: args.map (p.as .other, ·)
  | member _ o _ => [(p.as p.role.inner, o)]
  | index _ o k => [(p.as p.role.inner, o), (p.as .other, k)]
  | update _ _ false a => [(p.as p.role.inner, a)]
  | template _ ps => ps.filterMap fun
    | .inl _ => none
    | .inr e => some (⟨p.inAsync, true, .other⟩, e)
  | functionDecl _ _ _ body isAsync => [(⟨isAsync, p.inTemplate, .other⟩, body)]
  | n => n.ordinaryParts.map (p.as .other, ·)

/-- Below a node at `p` there is the node `m` at `q`. -/
inductive Reaches : Site → Node → Site → Node → Prop
  | refl (p : Site) (n : Node) : Reaches p n p n
  | step {p q r : Site} {n m k : Node} (part : (q, m) ∈ n.parts p) (rest : Reaches q m r k) :
      Reaches p n r k

/-- The place of a call of `delay`. -/
def pause? : Node → Option Loc
  | call loc (identifier _ name) _ => if name = "delay" then loc else none
  | _ => none

variable {counts : Loc → Prop} {p q r : Site} {n m : Node}

/-- A pause at `p` would have to be awaited, and it is not. -/
def Site.Lonely (p : Site) : Prop := p.inAsync = true ∧ p.inTemplate = false ∧ p.role = .other

/-- A node is a call of `delay`, at a place that counts. -/
def Pauses (counts : Loc → Prop) (n : Node) : Prop := ∃ l, n.pause? = some l ∧ counts l

/-- **In a program is a call of `delay`**, at a place that counts, in an async function and outside
of templates, in the role `r`. -/
def PausesAs (counts : Loc → Prop) (n : Node) (r : Role) : Prop :=
  ∃ q m, Reaches {} n q m ∧ m.Pauses counts ∧ q.inAsync = true ∧ q.inTemplate = false ∧ q.role = r

/-- **No pause below a node is lonely.** -/
def Attended (counts : Loc → Prop) (p : Site) (n : Node) : Prop :=
  ∀ q m, Reaches p n q m → m.Pauses counts → ¬ q.Lonely

theorem attended_iff : n.Attended counts p ↔
    (n.Pauses counts → ¬ p.Lonely) ∧ ∀ x ∈ n.parts p, x.2.Attended counts x.1 := by
  constructor
  · exact fun h => ⟨h p n (.refl p n), fun x hx q m hq => h q m (.step hx hq)⟩
  · rintro ⟨hp, hparts⟩ q m h
    cases h with
    | refl => exact hp
    | step part rest => exact hparts _ part _ _ rest

theorem Attended.ne_other {role : Role} (h : n.Attended counts {}) (hr : n.PausesAs counts role) :
    role ≠ .other := by
  obtain ⟨q, m, hreach, hpause, hasync, htemplate, rfl⟩ := hr
  exact fun ho => h q m hreach hpause ⟨hasync, htemplate, ho⟩

/-- A call that pauses is one of `delay`. -/
theorem pauses_call {loc : Option Loc} {callee : Node} {args : List Node}
    (h : (call loc callee args).Pauses counts) :
    ∃ l, loc = some l ∧ (∃ k, callee = identifier k "delay") ∧ counts l := by
  obtain ⟨l, hl, hcounts⟩ := h
  unfold pause? at hl
  split at hl
  · rename_i heq
    cases heq
    split at hl
    · rename_i hname
      exact ⟨l, hl, ⟨_, by rw [hname]⟩, hcounts⟩
    · cases hl
  · cases hl

/-- A node that is no call of `delay` is attended if its parts are. -/
theorem attended_of_parts (hn : n.pause? = none)
    (h : ∀ x ∈ n.parts p, x.2.Attended counts x.1) : n.Attended counts p := by
  refine attended_iff.mpr ⟨?_, h⟩
  rintro ⟨l, hl, -⟩
  rw [hn] at hl
  cases hl

/-- The same of a node that does not say anything about its parts. -/
theorem attended_ordinary (hn : n.pause? = none)
    (hparts : n.parts p = n.ordinaryParts.map (p.as .other, ·))
    (h : ∀ m ∈ n.ordinaryParts, m.Attended counts (p.as .other)) : n.Attended counts p := by
  refine attended_of_parts hn fun x hx => ?_
  rw [hparts] at hx
  obtain ⟨m, hm, rfl⟩ := List.mem_map.mp hx
  exact h m hm

/-! ## Roles -/

/-- The two places differ at most in that `q` has no `await` where `p` may have one. -/
structure Site.Less (q p : Site) : Prop where
  inAsync : q.inAsync = p.inAsync
  inTemplate : q.inTemplate = p.inTemplate
  role : q.role = .other ∨ p.role ≠ .other

theorem Site.Less.refl (p : Site) : p.Less p := by
  refine ⟨rfl, rfl, ?_⟩
  cases p.role <;> simp

/-- Nothing has less than no `await`. -/
theorem Site.Less.other (p : Site) : (p.as .other).Less p := ⟨rfl, rfl, Or.inl rfl⟩

theorem Site.Less.inner (h : q.Less p) : (q.as q.role.inner).Less (p.as p.role.inner) := by
  refine ⟨h.inAsync, h.inTemplate, ?_⟩
  have hrole := h.role
  cases hq : q.role <;> cases hp : p.role <;> simp_all [as, Role.inner]

/-- What a chain starts with is awaited where the chain is. -/
theorem Site.Less.toInner (p : Site) : p.Less (p.as p.role.inner) := by
  refine ⟨rfl, rfl, ?_⟩
  cases p.role <;> simp [Site.as, Role.inner]

theorem Site.Less.as (h : q.Less p) (role : Role) : (q.as role).Less (p.as role) := by
  refine ⟨h.inAsync, h.inTemplate, ?_⟩
  cases role <;> simp [Site.as]

/-- The parts of a node stand in the same way wherever it stands. -/
theorem Site.Less.parts (h : q.Less p) {x : Site × Node} (hx : x ∈ n.parts p) :
    ∃ s, s.Less x.1 ∧ (s, x.2) ∈ n.parts q := by
  have plain {role : Role} {e : Node} (he : (q.as role, e) ∈ n.parts q)
      (hx : x = (p.as role, e)) : ∃ s, s.Less x.1 ∧ (s, x.2) ∈ n.parts q := by
    subst hx
    exact ⟨_, h.as role, he⟩
  have ordinary (hn : ∀ p, n.parts p = n.ordinaryParts.map (p.as .other, ·)) :
      ∃ s, s.Less x.1 ∧ (s, x.2) ∈ n.parts q := by
    rw [hn] at hx
    obtain ⟨e, he, rfl⟩ := List.mem_map.mp hx
    refine plain ?_ rfl
    rw [hn]
    exact List.mem_map_of_mem he
  cases n with
  | await l e =>
    obtain rfl := List.mem_singleton.mp hx
    exact plain (by simp [Node.parts]) rfl
  | call l f args =>
    rcases List.mem_cons.mp hx with rfl | hx
    · exact ⟨_, h.inner, by simp [Node.parts]⟩
    · obtain ⟨e, he, rfl⟩ := List.mem_map.mp hx
      exact plain (List.mem_cons_of_mem _ (List.mem_map_of_mem he)) rfl
  | member l o name =>
    obtain rfl := List.mem_singleton.mp hx
    exact ⟨_, h.inner, by simp [Node.parts]⟩
  | index l o k =>
    simp only [Node.parts, List.mem_cons, List.not_mem_nil, or_false] at hx
    rcases hx with rfl | rfl
    · exact ⟨_, h.inner, by simp [Node.parts]⟩
    · exact plain (by simp [Node.parts]) rfl
  | update l op before a =>
    cases before with
    | true => exact ordinary fun _ => rfl
    | false =>
      obtain rfl := List.mem_singleton.mp hx
      exact ⟨_, h.inner, by simp [Node.parts]⟩
  | template l ps =>
    refine ⟨x.1, .refl _, ?_⟩
    simpa only [Node.parts, h.inAsync] using hx
  | functionDecl l name params body isAsync =>
    refine ⟨x.1, .refl _, ?_⟩
    simpa only [Node.parts, h.inTemplate] using hx
  | _ => exact ordinary fun _ => rfl

/-- **What is attended without an `await` is attended with one.** -/
theorem Attended.mono (h : n.Attended counts q) (hqp : q.Less p) : n.Attended counts p := by
  intro s m hreach
  induction hreach generalizing q with
  | refl p n =>
    rintro hpause ⟨hasync, htemplate, hother⟩
    refine h q n (.refl q n) hpause ⟨?_, ?_, ?_⟩
    · rw [hqp.inAsync, hasync]
    · rw [hqp.inTemplate, htemplate]
    · exact hqp.role.resolve_right (absurd hother)
  | step part rest ih =>
    obtain ⟨s, hs, hmem⟩ := hqp.parts part
    exact ih ((attended_iff.mp h).2 _ hmem) hs

/-! ## Looking for pauses -/

/-- The nodes at most `k` levels below a node. -/
def within : Nat → Site → Node → List (Site × Node)
  | 0, p, n => [(p, n)]
  | k + 1, p, n => (p, n) :: (n.parts p).flatMap fun x => within k x.1 x.2

theorem reaches_of_within {k : Nat} {x : Site × Node} (h : x ∈ within k p n) :
    Reaches p n x.1 x.2 := by
  induction k generalizing p n with
  | zero =>
    obtain rfl := List.mem_singleton.mp h
    exact .refl p n
  | succ k ih =>
    rcases List.mem_cons.mp h with rfl | h
    · exact .refl p n
    · obtain ⟨y, hy, hx⟩ := List.mem_flatMap.mp h
      exact .step hy (ih hx)

end Node
end LedSketch
