import LedSketch.Proofs.Grammar.Places
import LedSketch.Proofs.Grammar.Walk
import LedSketch.Proofs.Syntax.Attending

/-!
# The trees that rules build

What the grammar alone says about the trees of a rule: how many they are, where they begin, and which
of them only the node around them takes apart.

* `onward`: the parser only moves on.
* `obeys_lone`: the rules that build exactly one tree.
* `linked_parts`: in such a node the first child is one tree, and the others are tails.
* `obeys_primary`, `obeys_links`: what an access starts with, and what comes behind it.
-/

namespace LedSketch.Grammar

open Text Scan Scanner Dialect

variable {n : Nat} {w name : Rule} {c d e : Cursor} {ts us : List Tree} {φ : Tree → Bool}
  {p : Peg Rule} {ps : List (Peg Rule)}

/-! ## Moving on -/

/-- The passage that moves on by some characters. -/
def Onward : Passage Rule := fun c _ _ d => ∃ k, d = c.advance k

theorem Onward.closed : Onward.Closed where
  nil c := ⟨0, (Cursor.advance_zero c).symm⟩
  append := by
    rintro c _ _ _ _ _ _ ⟨k, rfl⟩ ⟨l, rfl⟩
    exact ⟨k + l, (Cursor.advance_add c k l).symm⟩

/-- **Every run only moves on.** -/
theorem onward (n : Nat) (w : Rule) (p : Peg Rule) : Obeys hostForm n w p Onward := by
  have rules (n : Nat) : ∀ w name, Obeys hostForm n w (.rule name) Onward := by
    induction n with
    | zero => exact fun _ _ => Obeys.zero _ _ _
    | succ n ih =>
      exact fun w name => obeys_rule (obeys_any Onward.closed (fun _ _ _ _ _ h => h)
        (fun _ _ k _ => ⟨k, rfl⟩) (ih name) _)
  exact obeys_any Onward.closed (fun _ _ _ _ _ h => h) (fun _ _ k _ => ⟨k, rfl⟩) (rules n w) p

/-- The text between a place and a later one. -/
theorem upTo_advance (c : Cursor) (k : Nat) :
    c.upTo (c.advance k) = String.ofList (c.rest.take k) := by
  by_cases hk : k ≤ c.rest.length
  · rw [Cursor.upTo, offset_advance k c hk, Nat.add_sub_cancel_left]
  · obtain ⟨j, rfl⟩ := Nat.exists_eq_add_of_le (Nat.le_of_not_le hk)
    have hnil : (c.advance c.rest.length).rest = [] := by rw [rest_advance, List.drop_length]
    rw [Cursor.advance_add, Cursor.advance_of_nil hnil, Cursor.upTo, offset_advance _ c le_rfl,
      Nat.add_sub_cancel_left, List.take_length, List.take_of_length_le (Nat.le_add_right _ _)]

/-! ## One tree -/

/-- The passage that builds one tree. -/
def Lone : Passage Rule := fun _ ts _ _ => ∃ t, ts = [t]

/-- The rules that build one tree. -/
def isLone : Rule → Bool
  | .assignment | .conditional | .binary _ | .unary | .postfixed | .access | .primary | .array
  | .group | .string | .template | .identifier => true
  | _ => false

theorem obeys_loneNode (tag : String) (p : Peg Rule) : Obeys hostForm n w (.node tag p) Lone :=
  obeys_node (.true w p) fun _ _ _ _ _ => ⟨_, rfl⟩

theorem obeys_loneLeaf (tag : String) (p : Peg Rule) : Obeys hostForm n w (.leaf tag p) Lone :=
  obeys_leaf (.true w p) fun _ _ _ _ _ => ⟨_, rfl⟩

/-- **Expressions are one tree each.** -/
theorem obeys_lone (n : Nat) : ∀ w name, isLone name = true →
    Obeys hostForm n w (.rule name) Lone := by
  induction n with
  | zero => exact fun _ _ _ => Obeys.zero _ _ _
  | succ n ih =>
    intro w name h
    refine obeys_rule ?_
    cases name with
    | unary =>
      refine obeys_choice fun p hp => ?_
      simp only [List.mem_cons, List.not_mem_nil, or_false] at hp
      rcases hp with rfl | rfl
      · exact obeys_loneNode _ _
      · exact ih _ _ rfl
    | primary =>
      refine obeys_choice fun p hp => ?_
      simp only [List.mem_cons, List.not_mem_nil, or_false] at hp
      rcases hp with rfl | rfl | rfl | rfl | rfl | rfl | rfl | rfl | rfl
      all_goals first
        | exact obeys_loneLeaf _ _
        | exact ih _ _ rfl
    | assignment | conditional | binary | postfixed | access | array | group | template =>
      exact obeys_loneNode _ _
    | string | identifier => exact obeys_loneLeaf _ _
    | _ => cases h

/-! ## Tails -/

/-- The passage whose trees all satisfy `φ`. -/
def Every (φ : Tree → Bool) : Passage Rule := fun _ ts _ _ => ∀ t ∈ ts, φ t = true

theorem Every.closed (φ : Tree → Bool) : (Every φ).Closed where
  nil := by simp [Every]
  append h h' t ht := (List.mem_append.mp ht).elim (h t) (h' t)

theorem every_drop (p : Peg Rule) : Obeys hostForm n w (.drop p) (Every φ) :=
  obeys_drop (.true w p) fun _ _ _ _ _ => by simp [Every]

theorem every_blank : Obeys hostForm n w blank (Every φ) :=
  obeys_reference fun _ => every_drop _

theorem every_node {tag : String} (h : ∀ m ts, m.tag = tag → φ (.node m ts) = true) (p : Peg Rule) :
    Obeys hostForm n w (.node tag p) (Every φ) :=
  obeys_node (.true w p) fun _ _ _ _ _ t ht => by
    obtain rfl := List.mem_singleton.mp ht
    exact h _ _ rfl

theorem every_leaf {tag : String} (h : ∀ m, φ (.leaf m) = true) (p : Peg Rule) :
    Obeys hostForm n w (.leaf tag p) (Every φ) :=
  obeys_leaf (.true w p) fun _ _ _ _ _ t ht => by
    obtain rfl := List.mem_singleton.mp ht
    exact h _

theorem every_seq (h : ∀ p ∈ ps, Obeys hostForm n w p (Every φ)) :
    Obeys hostForm n w (.seq ps) (Every φ) :=
  obeys_seq (ObeysSeq.of_closed (Every.closed φ) h)

theorem every_tail {tag : String} (h : tag ∈ Tree.tailTags) (p : Peg Rule) :
    Obeys hostForm n w (.node tag p) (Every Tree.isTail) :=
  every_node (fun m ts hm => by simpa [Tree.isTail, hm] using h) p

/-- Behind the first tree there are only tails. -/
def Linked : Passage Rule := fun _ ts _ _ => ∀ t ∈ ts.drop 1, t.isTail = true

theorem obeys_linked (hp : Obeys hostForm n w p Lone)
    (hps : ∀ q ∈ ps, Obeys hostForm n w q (Every Tree.isTail)) :
    Obeys hostForm n w (.seq (p :: ps)) Linked := by
  refine obeys_seq ((ObeysSeq.cons hp (ObeysSeq.of_closed (Every.closed _) hps)).weaken ?_)
  rintro c ts rs d ⟨e, ts₁, ts₂, _, _, ⟨t, rfl⟩, h₂, rfl, -⟩
  exact h₂

/-- The rules whose node takes the later ones of its children apart. -/
def isLinked : Rule → Bool
  | .expression | .assignment | .conditional | .binary _ | .varDecl => true
  | _ => false

/-- **The children of such a node** are a tree and its tails. -/
theorem linked_parts (h : isLinked name = true) : ∃ tag p, hostForm name = .node tag p ∧
    tag ∈ Tree.linked ∧ ∀ n w, Obeys hostForm n w p Linked := by
  have single {q p : Peg Rule} (h : q ∈ [p]) : q = p := List.mem_singleton.mp h
  have lone {name : Rule} (h : isLone name = true) (n : Nat) (w : Rule) :
      Obeys hostForm n w (.rule name) Lone := obeys_lone n w name h
  have optionalTail {tag : String} (h : tag ∈ Tree.tailTags) (p : Peg Rule) (n : Nat) (w : Rule) :
      Obeys hostForm n w (.optional (.node tag p)) (Every Tree.isTail) :=
    obeys_optional (Every.closed _).nil (every_tail h p)
  have manyTails {tag : String} (h : tag ∈ Tree.tailTags) (p : Peg Rule) (n : Nat) (w : Rule) :
      Obeys hostForm n w (.many (.node tag p)) (Every Tree.isTail) :=
    obeys_many (Every.closed _) (every_tail h p)
  cases name with
  | expression =>
    refine ⟨_, _, rfl, by decide, fun n w => obeys_linked (lone rfl n w) fun q hq => ?_⟩
    obtain rfl := single hq
    exact manyTails (by decide) _ n w
  | assignment =>
    refine ⟨_, _, rfl, by decide, fun n w => obeys_linked (lone rfl n w) fun q hq => ?_⟩
    obtain rfl := single hq
    exact optionalTail (by decide) _ n w
  | conditional =>
    refine ⟨_, _, rfl, by decide, fun n w => obeys_linked (lone rfl n w) fun q hq => ?_⟩
    obtain rfl := single hq
    exact optionalTail (by decide) _ n w
  | binary l =>
    have first (n : Nat) (w : Rule) : Obeys hostForm n w (operand l) Lone := by
      cases l <;> exact lone rfl n w
    refine ⟨_, _, rfl, by decide, fun n w => obeys_linked (first n w) fun q hq => ?_⟩
    obtain rfl := single hq
    exact manyTails (by decide) _ n w
  | varDecl =>
    have declarator (n : Nat) (w : Rule) :
        Obeys hostForm n w (.rule .declarator) (Every Tree.isTail) :=
      obeys_reference fun _ => every_tail (by decide) _
    refine ⟨_, _, rfl, by decide, fun n w => obeys_linked (obeys_loneLeaf _ _) fun q hq => ?_⟩
    simp only [List.mem_cons, List.not_mem_nil, or_false] at hq
    rcases hq with rfl | rfl | rfl
    · exact every_blank
    · exact declarator n w
    · refine obeys_many (Every.closed _) (every_seq fun q hq => ?_)
      simp only [List.mem_cons, List.not_mem_nil, or_false] at hq
      rcases hq with rfl | rfl | rfl | rfl
      · exact every_blank
      · exact every_drop _
      · exact every_blank
      · exact declarator n w
  | _ => cases h

/-! ## Accesses -/

/-- What an access starts with: a tree of the text that it takes, which is a group only if it ends
with a parenthesis. -/
def Primary : Passage Rule := fun c ts _ d =>
  ∃ t tag, ts = [t] ∧ t.tag = .ok tag ∧ t.text = .ok (c.upTo d) ∧
    (tag ∈ Tree.firstTags ∨ ∃ xs, c.rest = xs ++ ')' :: d.rest)

theorem obeys_primaryLeaf {tag : String} (h : tag ∈ Tree.firstTags) (p : Peg Rule) :
    Obeys hostForm n w (.leaf tag p) Primary :=
  obeys_leaf (.true w p) fun _ _ _ _ _ => ⟨_, tag, rfl, rfl, rfl, Or.inl h⟩

theorem obeys_primaryNode {tag : String} (h : tag ∈ Tree.firstTags) (p : Peg Rule) :
    Obeys hostForm n w (.node tag p) Primary :=
  obeys_node (.true w p) fun _ _ _ _ _ => ⟨_, tag, rfl, rfl, rfl, Or.inl h⟩

/-- The passage that ends with a parenthesis. -/
def Closes : Passage Rule := fun c _ _ d => ∃ xs, c.rest = xs ++ ')' :: d.rest

theorem closes_cons (h : ObeysSeq hostForm n w ps Closes) :
    ObeysSeq hostForm n w (p :: ps) Closes := by
  refine (ObeysSeq.cons (onward n w p) h).weaken ?_
  rintro c ts rs d ⟨e, _, _, _, _, ⟨k, rfl⟩, ⟨xs, hxs⟩, rfl, rfl⟩
  refine ⟨c.rest.take k ++ xs, ?_⟩
  rw [List.append_assoc, ← hxs, rest_advance, List.take_append_drop]

theorem closes_punct : ObeysSeq hostForm n w [punct ")"] Closes := by
  have last : Obeys hostForm n w (punct ")") Closes := by
    refine obeys_drop (A := Closes) (obeys_token fun c k hk => ?_) fun _ _ _ _ h => h
    obtain ⟨hcs, rfl⟩ := literal_eq_some hk
    refine ⟨[], ?_⟩
    rw [rest_advance]
    exact hcs
  refine (ObeysSeq.cons last (ObeysSeq.nil (A := fun c _ _ d => d = c) fun _ => rfl)).weaken ?_
  rintro c ts rs d ⟨e, _, _, _, _, h, rfl, -, -⟩
  exact h

theorem obeys_primaryRule (n : Nat) (w : Rule) :
    Obeys hostForm n w (.rule .primary) Primary := by
  refine obeys_reference fun n => obeys_choice fun p hp => ?_
  simp only [List.mem_cons, List.not_mem_nil, or_false] at hp
  rcases hp with rfl | rfl | rfl | rfl | rfl | rfl | rfl | rfl | rfl
  · exact obeys_primaryLeaf (by decide) _
  · exact obeys_reference fun _ => obeys_primaryLeaf (by decide) _
  · exact obeys_reference fun _ => obeys_primaryNode (by decide) _
  · exact obeys_primaryLeaf (by decide) _
  · exact obeys_primaryLeaf (by decide) _
  · exact obeys_primaryLeaf (by decide) _
  · exact obeys_reference fun _ => obeys_primaryNode (by decide) _
  · refine obeys_reference fun _ => obeys_node (obeys_seq (closes_cons (closes_cons (closes_cons
      (closes_cons closes_punct))))) fun c ts rs d h => ⟨_, "group", rfl, rfl, rfl, Or.inr h⟩
  · exact obeys_reference fun _ => obeys_primaryLeaf (by decide) _

/-- What comes behind the start of an access: the first of the links begins right there. -/
def Links : Passage Rule := fun c ts _ d =>
  (ts = [] → d = c) ∧ (∀ t ∈ ts.head?, Elab.locOf t = some c.loc) ∧ ∀ t ∈ ts, t.isLink = true

theorem Links.closed : Links.Closed where
  nil := by simp [Links]
  append := by
    rintro c ts rs d us ss e ⟨hnil, hhead, hlink⟩ ⟨hnil', hhead', hlink'⟩
    refine ⟨?_, ?_, fun t ht => (List.mem_append.mp ht).elim (hlink t) (hlink' t)⟩
    · intro h
      obtain ⟨rfl, rfl⟩ := List.append_eq_nil_iff.mp h
      rw [hnil' rfl, hnil rfl]
    · cases ts with
      | nil =>
        rw [← hnil rfl]
        exact hhead'
      | cons t ts => exact hhead

theorem obeys_links (n : Nat) (w : Rule) : Obeys hostForm n w
    (.many (.choice [.rule .callArguments, .rule .memberAccess, .rule .indexAccess])) Links := by
  have link {n : Nat} {w : Rule} {tag : String} (h : tag ∈ Tree.linkTags) (p : Peg Rule) :
      Obeys hostForm n w (.node tag p) Links := by
    refine obeys_node (.true w p) fun c ts rs d _ => ⟨nofun, ?_, ?_⟩
    · rintro t ⟨⟩
      rfl
    · intro t ht
      obtain rfl := List.mem_singleton.mp ht
      simpa [Tree.isLink, Cursor.mark] using h
  refine obeys_many Links.closed (obeys_choice fun p hp => ?_)
  simp only [List.mem_cons, List.not_mem_nil, or_false] at hp
  rcases hp with rfl | rfl | rfl
  · exact obeys_reference fun _ => link (by decide) _
  · exact obeys_reference fun _ => link (by decide) _
  · exact obeys_reference fun _ => link (by decide) _

end LedSketch.Grammar
