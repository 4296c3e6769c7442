import LedSketch.Proofs.Grammar.Reads
import LedSketch.Proofs.Syntax.HostText
import LedSketch.Proofs.Syntax.Reach

/-!
# What trees mean

`Tree.Means p n t` says that elaboration turns the tree `t` into the node `n`, places aside, wherever
it stands in the setting `p`. There is one lemma for each shape of tree; a node of a level that has
only one child means what the child does.

* `Elab.Makes`: a computation that succeeds in a setting, leaves what encloses it as it is, and has
  a result as described.
* `means_alone`: the levels of operators without an operator.
-/

namespace LedSketch

open HostText

namespace Elab

variable {α β : Type} {p : Setting} {Q : α → Prop} {R : β → Prop} {x : Elab α}

/-- What encloses a node is what its setting says. -/
structure Suits (p : Setting) (e : Enclosing) : Prop where
  function : e.functions.head? = p.function
  loops : 0 ≤ e.loops
  looping : p.looping = true → 0 < e.loops

theorem Suits.waits {e : Enclosing} (h : Suits p e) : e.functions.headD false = p.waits := by
  rw [Setting.waits, ← h.function]
  cases e.functions <;> rfl

/-- **A computation that succeeds** in a setting, leaves what encloses it as it is, and whose result
satisfies `Q`. -/
def Makes (p : Setting) (x : Elab α) (Q : α → Prop) : Prop :=
  ∀ e, Suits p e → ∃ a, x.run e = .ok (a, e) ∧ Q a

theorem makes_pure {a : α} (h : Q a) : Makes p (pure a) Q := fun _ _ => ⟨a, rfl, h⟩

theorem Makes.bind {f : α → Elab β} (hx : Makes p x Q) (hf : ∀ a, Q a → Makes p (f a) R) :
    Makes p (x >>= f) R := by
  intro e he
  obtain ⟨a, hrun, ha⟩ := hx e he
  obtain ⟨b, hrun', hb⟩ := hf a ha e he
  refine ⟨b, ?_, hb⟩
  rw [StateT.run_bind, hrun]
  exact hrun'

theorem Makes.mono {Q' : α → Prop} (h : Makes p x Q) (hQ : ∀ a, Q a → Q' a) : Makes p x Q' := by
  intro e he
  obtain ⟨a, hrun, ha⟩ := h e he
  exact ⟨a, hrun, hQ a ha⟩

theorem reading_ok (a : α) : reading (.ok a) = pure a := rfl

/-- What is read off a tree. -/
theorem makes_reading {r : Except Mishap α} {f : α → Elab β} {a : α} (hr : r = .ok a)
    (h : Makes p (f a) R) : Makes p (reading r >>= f) R := by
  rw [hr]
  exact h

theorem makes_element {ts : List Tree} {i : Nat} {t : Tree} {f : Tree → Elab β}
    (ht : ts[i]? = some t) (h : Makes p (f t) R) : Makes p (element ts i >>= f) R := by
  rw [element, ht]
  exact h

theorem makes_checkTarget {target : Node} {what : String} {t : Tree} {f : Unit → Elab β}
    (ht : target.isAssignable = true) (h : Makes p (f ()) R) :
    Makes p (checkTarget target what t >>= f) R := by
  rw [checkTarget, if_pos ht]
  exact h

theorem makes_get {f : Enclosing → Elab β} (h : ∀ e, Suits p e → Makes p (f e) R) :
    Makes p (get >>= f) R := fun e he => h e he e he

theorem makes_inLoop (h : Makes { p with looping := true } x Q) : Makes p (inLoop x) Q := by
  intro e he
  have hloops := he.loops
  obtain ⟨a, hrun, ha⟩ := h { e with loops := e.loops + 1 }
    ⟨he.function, by dsimp only; omega, fun _ => by dsimp only; omega⟩
  refine ⟨a, ?_, ha⟩
  simp only [inLoop, StateT.run_bind, StateT.run_modify, pure_bind, hrun]
  show Except.ok (a, { e with loops := e.loops + 1 - 1 }) = Except.ok (a, e)
  rw [Int.add_sub_cancel]

theorem makes_inFunction {isAsync : Bool} (h : Makes ⟨some isAsync, false⟩ x Q) :
    Makes p (inFunction isAsync x) Q := by
  intro e _
  obtain ⟨a, hrun, ha⟩ := h ⟨isAsync :: e.functions, 0⟩ ⟨rfl, Int.le_refl 0, nofun⟩
  refine ⟨a, ?_, ha⟩
  simp only [inFunction, StateT.run_bind, StateT.run_get, StateT.run_modify, pure_bind, hrun]
  rfl

end Elab

namespace Tree

open Elab

variable {p : Setting} {n : Node} {t : Tree} {ts : List Tree} {ns : List Node} {fuel : Nat}

/-- **A tree means a node**, places aside, wherever it stands in the setting. -/
def Means (p : Setting) (n : Node) (t : Tree) : Prop :=
  ∀ fuel, t.reach ≤ fuel → Makes p (elaborateWithin fuel t) fun m => m.unplaced = n.unplaced

theorem tag_node (m : Mark) (ts : List Tree) : (node m ts).tag = .ok m.tag := rfl

theorem children_node (m : Mark) (ts : List Tree) : (node m ts).children = .ok ts := rfl

theorem tag_leaf (m : Mark) : (leaf m).tag = .ok m.tag := rfl

theorem children_leaf (m : Mark) : (leaf m).children = .ok [] := rfl

theorem means_leaf {m : Mark} (h : ∀ fuel, Makes p (elaborateWithin (fuel + 1) (leaf m))
      fun m => m.unplaced = n.unplaced) : Means p n (leaf m) := by
  intro fuel hf
  rw [reach] at hf
  cases fuel with
  | zero => omega
  | succ fuel => exact h fuel

theorem makes_child {i : Nat} (ht : ts[i]? = some t) (h : Means p n t)
    (hf : reach.reaches ts ≤ fuel) :
    Makes p (LedSketch.child fuel ts i) fun m => m.unplaced = n.unplaced := by
  have := reach_lt_of_mem (List.mem_of_getElem? ht)
  cases fuel with
  | zero => omega
  | succ fuel =>
    refine makes_element ht (h fuel (by omega))

theorem makes_all (h : Meet (ns.map (Means p)) ts) (hf : reach.reaches ts < fuel) :
    Makes p (elaborateAll fuel ts) fun ms => Node.unplacedAll ms = Node.unplacedAll ns := by
  induction ns generalizing ts fuel with
  | nil =>
    obtain rfl := h.none
    cases fuel with
    | zero => omega
    | succ fuel => exact makes_pure rfl
  | cons n ns ih =>
    obtain ⟨t, us, rfl, ht, hus⟩ := Meet.uncons h
    rw [reach.reaches] at hf
    cases fuel with
    | zero => omega
    | succ fuel =>
      refine (ht fuel (by omega)).bind fun m hm => (ih hus (by omega)).bind fun ms hms => ?_
      exact makes_pure (by rw [Node.unplacedAll, hm, hms, Node.unplacedAll])

/-! ## Shapes -/

theorem Spells.text {tag s : String} (h : Spells tag s.toList t) : t.text = .ok s := by
  obtain ⟨m, rfl, -, hm⟩ := h
  rw [String.ofList_toList] at hm
  rw [Tree.text, hm]

theorem Spells.string {tag s : String} {refusal : Datum → Mishap} (h : Spells tag s.toList t) :
    t.string refusal = .ok s := by rw [string_eq_text, h.text]

theorem Spells.tag {tag : String} {cs : List Char} (h : Spells tag cs t) : t.tag = .ok tag := by
  obtain ⟨m, rfl, rfl, -⟩ := h
  rfl

theorem Tagged.parts {tag : String} {Ps : List (Tree → Prop)} (h : Tagged tag Ps t) :
    ∃ ts, t.children = .ok ts ∧ Meet Ps ts ∧ t.reach = reach.reaches ts + 4 := by
  obtain ⟨m, ts, rfl, -, hts⟩ := h
  exact ⟨ts, rfl, hts, by rw [reach]⟩

theorem Tagged.tag {tag : String} {Ps : List (Tree → Prop)} (h : Tagged tag Ps t) :
    t.tag = .ok tag := by
  obtain ⟨m, ts, rfl, rfl, -⟩ := h
  rfl

/-- What a tree of some shape means is known from the first step of its elaboration. -/
theorem Tagged.means {tag : String} {Ps : List (Tree → Prop)} (h : Tagged tag Ps t)
    (step : ∀ m ts fuel, m.tag = tag → Meet Ps ts → reach.reaches ts + 3 ≤ fuel →
      Makes p (elaborateWithin (fuel + 1) (node m ts)) fun m => m.unplaced = n.unplaced) :
    Means p n t := by
  obtain ⟨m, ts, rfl, hm, hts⟩ := h
  intro fuel hf
  rw [reach] at hf
  cases fuel with
  | zero => omega
  | succ fuel => exact step m ts fuel hm hts (by omega)

/-! ## Expressions -/

/-- The nodes that mean what their only child means. -/
def aloneTags : List String :=
  ["expression", "binary", "assignment", "conditional", "postfix", "access", "group"]

/-- **A level without an operator** means what its operand means. -/
theorem means_alone {tag : String} (htag : tag ∈ aloneTags) (h : Tagged tag [Means p n] t) :
    Means p n t := by
  refine h.means fun ⟨_, _, _, _⟩ ts fuel hm hts hf => ?_
  obtain rfl : _ = tag := hm
  obtain ⟨t, rfl, ht⟩ := hts.one
  have first : Makes p (LedSketch.child fuel [t] 0) fun m => m.unplaced = n.unplaced :=
    makes_child rfl ht (by omega)
  obtain ⟨fuel, rfl⟩ := Nat.exists_eq_add_of_le' (show 1 ≤ fuel by omega)
  simp only [aloneTags, List.mem_cons, List.not_mem_nil, or_false] at htag
  rcases htag with rfl | rfl | rfl | rfl | rfl | rfl | rfl
  all_goals first
    | exact first
    | exact first.bind fun _ hm => makes_pure hm

variable {l : Option Loc} {op name : String} {x y z : Node} {tag : String} {cs : List Char}

theorem means_name (h : Spells "name" name.toList t) : Means p (.identifier l name) t := by
  obtain ⟨⟨_, _, line, col⟩, rfl, rfl, rfl⟩ := h
  refine means_leaf fun fuel => makes_pure ?_
  rw [Node.unplaced, String.ofList_toList, Node.unplaced]

theorem means_boolean {b : Bool} (h : Spells "boolean" (ofValue (.bool b)) t) :
    Means p (.literal l (.bool b)) t := by
  obtain ⟨⟨_, _, line, col⟩, rfl, rfl, rfl⟩ := h
  refine means_leaf fun fuel => makes_pure ?_
  cases b <;> rfl

theorem means_null (h : Spells "null" cs t) : Means p (.literal l .null) t := by
  obtain ⟨⟨_, _, line, col⟩, rfl, rfl, -⟩ := h
  exact means_leaf fun fuel => makes_pure rfl

theorem means_number {k : Number} (h : Spells "number" cs t)
    (hcs : Number.ofNumeral (String.ofList cs) = .ok k) : Means p (.literal l (.num k)) t := by
  obtain ⟨⟨_, _, line, col⟩, rfl, rfl, rfl⟩ := h
  refine means_leaf fun fuel => ?_
  have value : Makes p (numeral (String.ofList cs)) fun v => v = .num k := by
    refine makes_reading hcs ?_
    exact makes_pure (Q := fun v => v = Value.num k) rfl
  exact value.bind fun v hv => makes_pure (by rw [hv]; rfl)

theorem means_string {s : String} (h : Spells "string" cs t)
    (hcs : Escape.decodeText (unquoted (String.ofList cs)) = s) :
    Means p (.literal l (.str s)) t := by
  obtain ⟨⟨_, _, line, col⟩, rfl, rfl, rfl⟩ := h
  exact means_leaf fun fuel => makes_pure (by rw [hcs]; rfl)

theorem means_array (h : Tagged "array" (ns.map (Means p)) t) : Means p (.array l ns) t := by
  refine h.means fun m ts fuel hm hts hf => ?_
  rw [elaborateWithin.eq_def]
  simp only [tag_node, hm, children_node, reading_ok, pure_bind]
  exact (makes_all hts (by omega)).bind fun ms hms => makes_pure (by simp only [Node.unplaced, hms])

/-! ### Operators -/

/-- An operator in front of an operand that it does not change. -/
theorem means_unary (h : Tagged "unary" [Spells "op" op.toList, Means p x] t) (hw : op ≠ "await")
    (hop : op ≠ "++" ∧ op ≠ "--") : Means p (.unary l op x) t := by
  refine h.means fun m ts fuel hm hts hf => ?_
  obtain ⟨o, u, rfl, ho, hu⟩ := hts.two
  simp only [reach.reaches] at hf
  obtain ⟨fuel, rfl⟩ := Nat.exists_eq_add_of_le' (show 1 ≤ fuel by omega)
  rw [elaborateWithin.eq_def]
  simp only [tag_node, hm, children_node, reading_ok, pure_bind, LedSketch.unary, two]
  refine makes_reading ho.text ?_
  rw [if_neg (by simpa using hw)]
  refine (hu fuel (by omega)).bind fun v hv => ?_
  rw [if_neg (by simp [hop])]
  exact makes_pure (by simp only [Node.unplaced, hv])

/-- Counting up or down, with the operator in front. -/
theorem means_updateBefore (ht : x.isAssignable = true)
    (h : Tagged "unary" [Spells "op" op.toList, Means p x] t) (hop : op ∈ updateOperators) :
    Means p (.update l op true x) t := by
  refine h.means fun m ts fuel hm hts hf => ?_
  obtain ⟨o, u, rfl, ho, hu⟩ := hts.two
  simp only [reach.reaches] at hf
  obtain ⟨fuel, rfl⟩ := Nat.exists_eq_add_of_le' (show 1 ≤ fuel by omega)
  rw [elaborateWithin.eq_def]
  simp only [tag_node, hm, children_node, reading_ok, pure_bind, LedSketch.unary, two]
  refine makes_reading ho.text ?_
  have hawait : op ≠ "await" := by
    rintro rfl
    exact absurd hop (by decide)
  rw [if_neg (by simpa using hawait)]
  refine (hu fuel (by omega)).bind fun v hv => ?_
  rw [if_pos (by simpa [updateOperators] using hop)]
  refine makes_checkTarget (by rw [Node.isAssignable_congr hv, ht]) ?_
  exact makes_pure (by simp only [Node.unplaced, hv])

/-- Counting up or down, with the operator behind. -/
theorem means_updateBehind (ht : x.isAssignable = true)
    (h : Tagged "postfix" [Means p x, Spells "op" op.toList] t) (hop : op ∈ updateOperators) :
    Means p (.update l op false x) t := by
  refine h.means fun m ts fuel hm hts hf => ?_
  obtain ⟨u, o, rfl, hu, ho⟩ := hts.two
  rw [elaborateWithin.eq_def]
  simp only [tag_node, hm, children_node, reading_ok, pure_bind]
  refine (makes_child rfl hu (by omega)).bind fun v hv => ?_
  refine makes_checkTarget (by rw [Node.isAssignable_congr hv, ht]) (makes_reading (Spells.string ho) ?_)
  refine makes_pure ?_
  simp only [updateOperators, List.mem_cons, List.not_mem_nil, or_false] at hop
  rcases hop with rfl | rfl <;> simp only [Node.unplaced, hv] <;> rfl

/-- Waiting for a result. -/
theorem means_await (hp : p.waits = true)
    (h : Tagged "unary" [Spells "op" "await".toList, Means p x] t) : Means p (.await l x) t := by
  refine h.means fun m ts fuel hm hts hf => ?_
  obtain ⟨o, u, rfl, ho, hu⟩ := hts.two
  simp only [reach.reaches] at hf
  obtain ⟨fuel, rfl⟩ := Nat.exists_eq_add_of_le' (show 1 ≤ fuel by omega)
  rw [elaborateWithin.eq_def]
  simp only [tag_node, hm, children_node, reading_ok, pure_bind, LedSketch.unary, two]
  refine makes_reading ho.text ?_
  rw [if_pos (by simp)]
  refine makes_get fun e he => ?_
  rw [if_neg (by rw [he.waits, hp]; decide)]
  exact (hu fuel (by omega)).bind fun v hv => makes_pure (by simp only [Node.unplaced, hv])

theorem unplaced_binaryNode {l l' : Option Loc} {x' y' : Node} (op : String)
    (hx : x.unplaced = x'.unplaced) (hy : y.unplaced = y'.unplaced) :
    (binaryNode l op x y).unplaced = (binaryNode l' op x' y').unplaced := by
  unfold binaryNode
  split <;> simp only [Node.unplaced, hx, hy]

/-- A tree that means an operator with the operand behind it. -/
def MeansTail (p : Setting) (tail : String × Node) : Tree → Prop :=
  Tagged "binary-tail" [Spells "op" tail.1.toList, Means p tail.2]

/-- Operators of one level, taken from left to right. -/
def folded (x : Node) (tails : List (String × Node)) : Node :=
  tails.foldl (fun left tail => binaryNode none tail.1 left tail.2) x

theorem makes_foldTails {tails : List (String × Node)} (hx : x.unplaced = y.unplaced)
    (h : Meet (tails.map (MeansTail p)) ts) (hf : reach.reaches ts < fuel) :
    Makes p (foldTails fuel false x ts) fun m => m.unplaced = (folded y tails).unplaced := by
  induction tails generalizing ts fuel x y with
  | nil =>
    obtain rfl := h.none
    cases fuel with
    | zero => omega
    | succ fuel => exact makes_pure hx
  | cons tail tails ih =>
    obtain ⟨t, us, rfl, ht, hus⟩ := Meet.uncons h
    obtain ⟨vs, hparts, hvs, hreach⟩ := Tagged.parts ht
    obtain ⟨o, v, rfl, ho, hv⟩ := hvs.two
    simp only [reach.reaches] at hf hreach
    cases fuel with
    | zero => omega
    | succ fuel =>
      rw [foldTails]
      refine makes_reading hparts (makes_reading (Tagged.tag ht) ?_)
      rw [if_neg (by decide)]
      simp only [two, pure_bind]
      refine makes_reading ho.text ((hv fuel (by omega)).bind fun b hb => ?_)
      exact ih (unplaced_binaryNode tail.1 hx hb) hus (by omega)

/-- **Operators of one level** are taken from left to right. -/
theorem means_chain {tails : List (String × Node)}
    (h : Tagged "binary" (Means p x :: tails.map (MeansTail p)) t) : Means p (folded x tails) t := by
  refine h.means fun m ts fuel hm hts hf => ?_
  obtain ⟨u, us, rfl, hu, hus⟩ := Meet.uncons hts
  rw [elaborateWithin.eq_def]
  simp only [tag_node, hm, children_node, reading_ok, pure_bind]
  refine (makes_child rfl hu (by omega)).bind fun a ha => ?_
  rw [reach.reaches] at hf
  have rest : Makes p (foldTails fuel false a us) _ := makes_foldTails ha hus (by omega)
  exact rest

/-- An operator between two operands. -/
theorem means_binary (h : Tagged "binary" [Means p x,
      Tagged "binary-tail" [Spells "op" op.toList, Means p y]] t) :
    Means p (binaryNode l op x y) t := by
  have chain : Means p (folded x [(op, y)]) t := means_chain h
  exact fun fuel hf => (chain fuel hf).mono fun _ hm => hm.trans (unplaced_binaryNode op rfl rfl)

/-- Operands of which the last one counts. -/
theorem means_comma (h : Tagged "expression" [Means p x, Tagged "comma-tail" [Means p y]] t) :
    Means p (.binary l "," x y) t := by
  refine h.means fun m ts fuel hm hts hf => ?_
  obtain ⟨u, tail, rfl, hu, htail⟩ := hts.two
  obtain ⟨us, hparts, hus, hreach⟩ := htail.parts
  obtain ⟨v, rfl, hv⟩ := hus.one
  rw [elaborateWithin.eq_def]
  simp only [tag_node, hm, children_node, reading_ok, pure_bind]
  refine (makes_child rfl hu (by omega)).bind fun a ha => ?_
  simp only [reach.reaches] at hf
  obtain ⟨fuel, rfl⟩ := Nat.exists_eq_add_of_le' (show 2 ≤ fuel by omega)
  simp only [List.drop, foldTails]
  refine makes_reading hparts (makes_reading htail.tag ?_)
  rw [if_pos rfl]
  refine (makes_child rfl hv (by omega)).bind fun b hb => ?_
  refine makes_pure ?_
  simp only [tailNode, decide_true, if_true, Node.unplaced, ha, hb]
  rfl

/-- A choice between two operands. -/
theorem means_conditional (h : Tagged "conditional" [Means p x,
      Tagged "conditional-tail" [Means p y, Means p z]] t) : Means p (.conditional l x y z) t := by
  refine h.means fun m ts fuel hm hts hf => ?_
  obtain ⟨u, tail, rfl, hu, htail⟩ := hts.two
  obtain ⟨us, hparts, hus, hreach⟩ := htail.parts
  obtain ⟨v, w, rfl, hv, hw⟩ := hus.two
  rw [elaborateWithin.eq_def]
  simp only [tag_node, hm, children_node, reading_ok, pure_bind]
  refine (makes_child rfl hu (by omega)).bind fun a ha => ?_
  simp only [reach.reaches] at hf hreach
  refine makes_reading hparts ?_
  simp only [two, pure_bind]
  refine (hv fuel (by omega)).bind fun b hb => (hw fuel (by omega)).bind fun c hc => ?_
  exact makes_pure (by simp only [Node.unplaced, ha, hb, hc])

/-- The assignment to a target. -/
theorem means_assign (ht : x.isAssignable = true) (h : Tagged "assignment" [Means p x,
      Tagged "assign-tail" [Spells "op" op.toList, Means p y]] t) :
    Means p (.assign l op x y) t := by
  refine h.means fun m ts fuel hm hts hf => ?_
  obtain ⟨u, tail, rfl, hu, htail⟩ := hts.two
  obtain ⟨us, hparts, hus, hreach⟩ := htail.parts
  obtain ⟨o, v, rfl, ho, hv⟩ := hus.two
  rw [elaborateWithin.eq_def]
  simp only [tag_node, hm, children_node, reading_ok, pure_bind]
  refine (makes_child rfl hu (by omega)).bind fun a ha => ?_
  simp only [reach.reaches] at hf
  refine makes_reading hparts (makes_element rfl ?_)
  refine makes_checkTarget (by rw [Node.isAssignable_congr ha, ht]) (makes_reading ho.text ?_)
  refine (makes_child rfl hv (by omega)).bind fun b hb => ?_
  exact makes_pure (by simp only [Node.unplaced, ha, hb])

/-! ### Accesses -/

/-- A call. -/
theorem means_call (h : Tagged "access" [Means p x, Tagged "call" (ns.map (Means p))] t) :
    Means p (.call l x ns) t := by
  refine h.means fun m ts fuel hm hts hf => ?_
  obtain ⟨u, tail, rfl, hu, htail⟩ := hts.two
  obtain ⟨us, hparts, hus, hreach⟩ := htail.parts
  rw [elaborateWithin.eq_def]
  simp only [tag_node, hm, children_node, reading_ok, pure_bind]
  refine (makes_child rfl hu (by omega)).bind fun a ha => ?_
  simp only [reach.reaches] at hf
  obtain ⟨fuel, rfl⟩ := Nat.exists_eq_add_of_le' (show 2 ≤ fuel by omega)
  simp only [List.drop, accessTails]
  refine makes_reading hparts (makes_reading htail.tag ?_)
  refine (makes_all hus (by omega)).bind fun ms hms => ?_
  exact makes_pure (by simp only [Node.unplaced, ha, hms])

/-- The member of a value. -/
theorem means_member (h : Tagged "access" [Means p x,
      Tagged "member" [Spells "property" name.toList]] t) : Means p (.member l x name) t := by
  refine h.means fun m ts fuel hm hts hf => ?_
  obtain ⟨u, tail, rfl, hu, htail⟩ := hts.two
  obtain ⟨us, hparts, hus, hreach⟩ := htail.parts
  obtain ⟨part, rfl, hpart⟩ := hus.one
  rw [elaborateWithin.eq_def]
  simp only [tag_node, hm, children_node, reading_ok, pure_bind]
  refine (makes_child rfl hu (by omega)).bind fun a ha => ?_
  simp only [reach.reaches] at hf
  obtain ⟨fuel, rfl⟩ := Nat.exists_eq_add_of_le' (show 2 ≤ fuel by omega)
  simp only [List.drop, accessTails]
  refine makes_reading hparts (makes_reading htail.tag (makes_element rfl ?_))
  refine makes_reading hpart.text (makes_pure ?_)
  simp only [Node.unplaced, ha]

/-- An element of a value. -/
theorem means_index (h : Tagged "access" [Means p x, Tagged "index" [Means p y]] t) :
    Means p (.index l x y) t := by
  refine h.means fun m ts fuel hm hts hf => ?_
  obtain ⟨u, tail, rfl, hu, htail⟩ := hts.two
  obtain ⟨us, hparts, hus, hreach⟩ := htail.parts
  obtain ⟨v, rfl, hv⟩ := hus.one
  rw [elaborateWithin.eq_def]
  simp only [tag_node, hm, children_node, reading_ok, pure_bind]
  refine (makes_child rfl hu (by omega)).bind fun a ha => ?_
  simp only [reach.reaches] at hf
  obtain ⟨fuel, rfl⟩ := Nat.exists_eq_add_of_le' (show 2 ≤ fuel by omega)
  simp only [List.drop, accessTails]
  refine makes_reading hparts (makes_reading htail.tag ?_)
  refine (makes_child rfl hv (by omega)).bind fun b hb => makes_pure ?_
  simp only [Node.unplaced, ha, hb]

/-! ### Templates -/

/-- A tree that means a part of a template: text behind its escapes, or an interpolation. -/
def MeansPart (p : Setting) : String ⊕ Node → Tree → Prop
  | .inl s, t => ∃ cs, Spells "chunk" cs t ∧ Escape.decodeText (String.ofList cs) = s
  | .inr n, t => Tagged "interpolation" [Means p n] t

theorem makes_templateParts {parts : List (String ⊕ Node)} (h : Meet (parts.map (MeansPart p)) ts)
    (hf : reach.reaches ts < fuel) : Makes p (templateParts fuel ts) fun ps =>
      Node.unplacedParts ps = Node.unplacedParts parts := by
  induction parts generalizing ts fuel with
  | nil =>
    obtain rfl := h.none
    cases fuel with
    | zero => omega
    | succ fuel => exact makes_pure rfl
  | cons part parts ih =>
    obtain ⟨t, us, rfl, ht, hus⟩ := Meet.uncons h
    rw [reach.reaches] at hf
    cases fuel with
    | zero => omega
    | succ fuel =>
      have hfuel : reach.reaches us < fuel := by omega
      have hrest := ih hus hfuel
      rw [templateParts]
      cases part with
      | inl s =>
        obtain ⟨cs, ⟨m, rfl, hm, htext⟩, rfl⟩ := ht
        simp only [Tree.tag, hm, reading_ok, pure_bind, if_true, string_eq_text, Tree.text,
          htext]
        exact hrest.bind fun ps hps => makes_pure (by simp only [Node.unplacedParts, hps])
      | inr n =>
        obtain ⟨vs, hparts, hvs, hreach⟩ := Tagged.parts ht
        obtain ⟨v, rfl, hv⟩ := hvs.one
        refine makes_reading (Tagged.tag ht) ?_
        rw [if_neg (by decide)]
        refine makes_reading hparts ((makes_child rfl hv (by omega)).bind fun a ha => ?_)
        exact hrest.bind fun ps hps => makes_pure (by simp only [Node.unplacedParts, ha, hps])

theorem means_template {parts : List (String ⊕ Node)}
    (h : Tagged "template" (parts.map (MeansPart p)) t) : Means p (.template l parts) t := by
  refine h.means fun m ts fuel hm hts hf => ?_
  rw [elaborateWithin.eq_def]
  simp only [tag_node, hm, children_node, reading_ok, pure_bind]
  exact (makes_templateParts hts (by omega)).bind fun ps hps =>
    makes_pure (by simp only [Node.unplaced, hps])

end Tree
end LedSketch
