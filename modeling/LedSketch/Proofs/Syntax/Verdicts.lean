import LedSketch.Proofs.Grammar.Numerals
import LedSketch.Proofs.Syntax.Judging
import LedSketch.Proofs.Syntax.Runnable
import LedSketch.Proofs.Syntax.TreeRules

/-!
# What becomes of an expression

A tree of the shape that the grammar gives it is either elaborated to something that can be run, or
it breaks a static rule and is refused for that. Nothing else happens, apart from an integer that is
too long.

* `Tree.Accounts`: why a tree is not elaborated.
* `Tree.Is`: a tree that stands for a phrase of some kind, or accounts for it.
* `is_folded`, `is_assignment`, `is_access`, …: one lemma for each shape of an expression.
-/

namespace LedSketch

open HostText (Setting)
open Grammar (Cursor)

namespace Tree

open Elab

/-- **Why a tree is not elaborated**: a static rule is broken in it, or an integer is too long. -/
def Accounts (p : Setting) (t : Tree) : Fault → Prop
  | .sketch e => t.Violates p e
  | .mishap _ => t.Overlong

/-- What a tree becomes in a setting, with as much fuel as it needs. -/
def Gives (p : Setting) (V : Fault → Prop) (Q : Node → Prop) (t : Tree) : Prop :=
  ∀ fuel, t.reach ≤ fuel → Judges p V Q (elaborateWithin fuel t)

/-- The kinds of phrases. -/
inductive Phrase where
  | expression
  | statement
  | block
  | bindings

/-- A node for a phrase of some kind, read off a tree in the setting `p`. -/
def Phrase.Allows (p : Setting) (t : Tree) (n : Node) : Phrase → Prop
  | expression => n.Evaluable ∧ n.isAssignable = t.isTarget
  | statement => n.Runnable p
  | block => n.Runnable p ∧ ∃ l body, n = .block l body
  | bindings => n.Runnable p ∧ ∃ l kind ds, n = .varDecl l kind ds

/-- **A tree stands for a phrase of some kind**, or accounts for why it does not. -/
def Is (k : Phrase) (t : Tree) : Prop := ∀ p, t.Gives p (t.Accounts p) (k.Allows p t)

variable {p q : Setting} {t u v : Tree} {ts : List Tree} {V : Fault → Prop} {Q : Node → Prop}
  {k : Phrase} {c d c' d' : Cursor} {m : Mark} {fuel i : Nat} {tag : String}

/-! ## Accounts -/

theorem mem_of_places (h : (q, u) ∈ t.places p) : ∃ cs, t.children = .ok cs ∧ u ∈ cs := by
  cases t with
  | node m ts =>
    refine ⟨ts, rfl, ?_⟩
    have map {r : Setting} {us : List Tree} (hx : (q, u) ∈ us.map (r, ·)) : u ∈ us := by
      obtain ⟨_, hv, heq⟩ := List.mem_map.mp hx
      cases heq
      exact hv
    rw [places] at h
    split_ifs at h
    · exact map h
    · rcases List.mem_append.mp h with h | h
      · exact List.dropLast_subset _ (map h)
      · exact List.mem_of_getLast? (by simpa using map h)
    · rcases List.mem_append.mp h with h | h
      · exact List.mem_of_mem_take (map h)
      · exact List.mem_of_mem_drop (map h)
    · exact map h
  | leaf m => cases h
  | foreign d _ => cases h

/-- What a part accounts for, the whole does. -/
theorem Accounts.step {f : Fault} (h : (q, u) ∈ t.places p) (hf : u.Accounts q f) :
    t.Accounts p f := by
  cases f with
  | sketch e =>
    obtain ⟨r, w, c, v, hbelow, hbreaks, hreports⟩ := hf
    exact ⟨r, w, c, v, .step h hbelow, hbreaks, hreports⟩
  | mishap m =>
    obtain ⟨w, s, hpart, hw⟩ := hf
    obtain ⟨cs, hcs, hmem⟩ := mem_of_places h
    exact ⟨w, s, .step hcs hmem hpart, hw⟩

/-- A tree is refused for a rule that it breaks itself. -/
theorem judges_refuse {α : Type} {Q : α → Prop} {complaint : Complaint} {line col : Option Int}
    (h : t.Breaks p complaint v) (hv : v.position = .ok (line, col)) :
    Judges p (t.Accounts p) Q (refuse complaint v : Elab α) := by
  unfold refuse
  rw [hv]
  exact judges_throw ⟨p, t, complaint, v, .refl p t, h, line, col, hv, rfl⟩

theorem tag_mark (c d : Cursor) (tag : String) : (c.mark d tag).tag = tag := rfl

theorem text_mark (c d : Cursor) (tag : String) : (leaf (c.mark d tag)).text = .ok (c.upTo d) := rfl

/-- The tags of the nodes that change the setting. -/
def setters : List String := ["function-decl", "while", "for", "do-while"]

/-- The parts of most nodes stand in the setting of the node. -/
theorem mem_places (htag : tag ∉ setters) (hu : u ∈ ts) :
    (p, u) ∈ (node (c.mark d tag) ts).places p := by
  simp only [setters, List.mem_cons, List.not_mem_nil, or_false, not_or] at htag
  rw [places, tag_mark, if_neg htag.1, if_neg (not_or.mpr ⟨htag.2.1, htag.2.2.1⟩), if_neg htag.2.2.2]
  exact List.mem_map_of_mem hu

theorem Gives.mono {V' : Fault → Prop} {Q' : Node → Prop} (h : t.Gives p V Q)
    (hV : ∀ f, V f → V' f) (hQ : ∀ n, Q n → Q' n) : t.Gives p V' Q' :=
  fun fuel hf => (h fuel hf).mono hV hQ

/-- A part, as what it is for the whole. -/
theorem Is.part (h : u.Is k) (hu : (q, u) ∈ t.places p) :
    u.Gives q (t.Accounts p) (k.Allows q u) :=
  (h q).mono (fun _ => Accounts.step hu) fun _ => id

/-- A part of a part. -/
theorem Is.within {r : Setting} (h : v.Is k) (hv : (r, v) ∈ u.places q)
    (hu : (q, u) ∈ t.places p) : v.Gives r (t.Accounts p) (k.Allows r v) :=
  (h r).mono (fun _ hf => .step hu (.step hv hf)) fun _ => id

/-! ## Pieces -/

theorem gives_of_step (h : ∀ fuel, reach.reaches ts + 3 ≤ fuel →
    Judges p V Q (elaborateWithin (fuel + 1) (node m ts))) : (node m ts).Gives p V Q := by
  intro fuel hf
  rw [reach] at hf
  cases fuel with
  | zero => omega
  | succ fuel => exact h fuel (by omega)

theorem gives_leaf (h : ∀ fuel, Judges p V Q (elaborateWithin (fuel + 1) (leaf m))) :
    (leaf m).Gives p V Q := by
  intro fuel hf
  rw [reach] at hf
  cases fuel with
  | zero => omega
  | succ fuel => exact h fuel

theorem judges_child (hu : ts[i]? = some u) (h : u.Gives p V Q) (hf : reach.reaches ts ≤ fuel) :
    Judges p V Q (child fuel ts i) := by
  have := reach_lt_of_mem (List.mem_of_getElem? hu)
  cases fuel with
  | zero => omega
  | succ fuel =>
    rw [child, element, hu]
    exact h fuel (by omega)

theorem judges_all (h : ∀ t ∈ ts, t.Gives p V Q) (hf : reach.reaches ts < fuel) :
    Judges p V (fun ns : List Node => ∀ n ∈ ns, Q n) (elaborateAll fuel ts) := by
  induction ts generalizing fuel with
  | nil =>
    cases fuel with
    | zero => omega
    | succ fuel =>
      rw [elaborateAll]
      exact Judges.pure (by simp)
  | cons t ts ih =>
    obtain ⟨ht, hts⟩ := List.forall_mem_cons.mp h
    rw [reach.reaches] at hf
    cases fuel with
    | zero => omega
    | succ fuel =>
      rw [elaborateAll]
      refine (ht fuel (by omega)).bind fun n hn => (ih hts (by omega)).bind fun ns hns => ?_
      exact Judges.pure (List.forall_mem_cons.mpr ⟨hn, hns⟩)

/-! ## Literals and names -/

/-- **A numeral** is read, unless it is too long. -/
theorem is_number (h : Grammar.numeral?.Takes (c.upTo d)) :
    (leaf (c.mark d "number")).Is .expression := by
  intro p
  refine gives_leaf fun fuel => ?_
  rw [elaborateWithin.eq_def]
  simp only [tag_leaf, tag_mark, children_leaf, reading_ok, pure_bind, text_mark]
  have hvalue : Judges p (Accounts p (leaf (c.mark d "number"))) (fun _ => True)
      (numeral (c.upTo d)) := by
    refine (judges_reading fun m hm => ?_).bind fun v _ => Judges.pure trivial
    by_contra hlong
    have hnum := Grammar.numeral_of_takes h
    obtain ⟨v, hv⟩ := Grammar.ofNumeral_numeral hnum fun hall => Nat.not_lt.mp fun hlt =>
      hlong ⟨_, _, .refl _, rfl, rfl, hall, by rwa [String.length_toList] at hlt⟩
    rw [String.ofList_toList] at hv
    rw [hv] at hm
    cases hm
  exact hvalue.bind fun v _ => Judges.pure ⟨.literal, rfl⟩

/-- The tags of the other leaves that stand for a value. -/
def literalTags : List String := ["string", "boolean", "null", "undefined"]

theorem is_literal (htag : tag ∈ literalTags) : (leaf (c.mark d tag)).Is .expression := by
  intro p
  refine gives_leaf fun fuel => ?_
  simp only [literalTags, List.mem_cons, List.not_mem_nil, or_false] at htag
  rcases htag with rfl | rfl | rfl | rfl <;> exact Judges.pure ⟨.literal, rfl⟩

theorem is_name : (leaf (c.mark d "name")).Is .expression :=
  fun _ => gives_leaf fun _ => Judges.pure ⟨.identifier, rfl⟩

/-! ## Compound expressions -/

/-- What an expression becomes. -/
abbrev Yields (u : Tree) (n : Node) : Prop := n.Evaluable ∧ n.isAssignable = u.isTarget

theorem judges_expressions {us : List Tree} (h : ∀ u ∈ us, u.Is .expression)
    (hu : ∀ u ∈ us, (p, u) ∈ t.places p) (hf : reach.reaches us < fuel) :
    Judges p (t.Accounts p) (fun ns : List Node => ∀ n ∈ ns, n.Evaluable) (elaborateAll fuel us) :=
  judges_all (fun u hmem => ((h u hmem).part (hu u hmem)).mono (fun _ => id) fun _ hn => hn.1) hf

theorem is_array (h : ∀ u ∈ ts, u.Is .expression) : (node (c.mark d "array") ts).Is .expression := by
  intro p
  refine gives_of_step fun fuel hf => ?_
  rw [elaborateWithin.eq_def]
  simp only [tag_node, tag_mark, children_node, reading_ok, pure_bind]
  exact (judges_expressions h (fun u => mem_places (by decide)) (by omega)).bind fun ns hns =>
    Judges.pure ⟨.array hns, rfl⟩

theorem is_group (h : u.Is .expression) : (node (c.mark d "group") [u]).Is .expression := by
  intro p
  refine gives_of_step fun fuel hf => ?_
  have hplace : (p, u) ∈ (node (c.mark d "group") [u]).places p := mem_places (by decide) (by simp)
  have hu := h.part hplace
  exact (judges_child rfl hu (by omega)).imp fun n hn => ⟨hn.1, hn.2⟩

/-- What a template is made of. -/
inductive IsChunk : Tree → Prop
  | text {a b : Cursor} : IsChunk (leaf (a.mark b "chunk"))
  | interpolation {a b : Cursor} {u : Tree} (h : u.Is .expression) :
    IsChunk (node (a.mark b "interpolation") [u])

theorem judges_templateParts (h : ∀ u ∈ ts, IsChunk u) (hu : ∀ u ∈ ts, (p, u) ∈ t.places p)
    (hf : reach.reaches ts < fuel) : Judges p (t.Accounts p)
      (fun ps : List (String ⊕ Node) => ∀ n, .inr n ∈ ps → n.Evaluable)
      (templateParts fuel ts) := by
  induction ts generalizing fuel with
  | nil =>
    cases fuel with
    | zero => omega
    | succ fuel =>
      rw [templateParts]
      exact Judges.pure (by simp)
  | cons u ts ih =>
    obtain ⟨hchunk, hts⟩ := List.forall_mem_cons.mp h
    obtain ⟨hplace, hplaces⟩ := List.forall_mem_cons.mp hu
    rw [reach.reaches] at hf
    cases fuel with
    | zero => omega
    | succ fuel =>
      have hrest := ih hts hplaces (show reach.reaches ts < fuel by omega)
      rw [templateParts]
      cases hchunk with
      | text =>
        simp only [tag_leaf, tag_mark, reading_ok, pure_bind, if_true]
        exact hrest.bind fun ps hps => Judges.pure (by simpa using hps)
      | @interpolation c d v hv =>
        rw [reach] at hf
        simp only [tag_node, tag_mark, children_node, reading_ok, pure_bind,
          show ("interpolation" = "chunk") = False by decide, if_false]
        refine (judges_child rfl (hv.within (mem_places (by decide)
          List.mem_cons_self) hplace) (by omega)).bind fun e he => hrest.bind fun ps hps => ?_
        refine Judges.pure fun n hn => ?_
        rcases List.mem_cons.mp hn with hn | hn
        · cases hn
          exact he.1
        · exact hps n hn

theorem is_template (h : ∀ u ∈ ts, IsChunk u) : (node (c.mark d "template") ts).Is .expression := by
  intro p
  refine gives_of_step fun fuel hf => ?_
  rw [elaborateWithin.eq_def]
  simp only [tag_node, tag_mark, children_node, reading_ok, pure_bind]
  exact (judges_templateParts h (fun u => mem_places (by decide)) (by omega)).bind fun ps hps =>
    Judges.pure ⟨.template hps, rfl⟩

/-! ## Operators -/

/-- An operand behind an operator or a comma. -/
inductive IsTail : Tree → Prop
  | comma {a b : Cursor} {u : Tree} (h : u.Is .expression) : IsTail (node (a.mark b "comma-tail") [u])
  | operator {a b a' b' : Cursor} {u : Tree}
    (ho : a'.upTo b' ∈ HostText.binaryOperators ++ HostText.logicalOperators)
    (h : u.Is .expression) : IsTail (node (a.mark b "binary-tail") [leaf (a'.mark b' "op"), u])

theorem evaluable_operator {commas : Bool} {loc : Option Loc} {op : String} {x y : Node}
    (ho : op ∈ "," :: (HostText.binaryOperators ++ HostText.logicalOperators))
    (hx : x.Evaluable) (hy : y.Evaluable) :
    (tailNode commas loc op x y).Evaluable ∧ (tailNode commas loc op x y).isAssignable = false := by
  unfold tailNode binaryNode
  split_ifs with hc hop
  · exact ⟨.binary List.mem_cons_self hx hy, rfl⟩
  · exact ⟨.logical (by simpa [HostText.logicalOperators, or_comm] using hop) hx hy, rfl⟩
  · refine ⟨.binary ?_ hx hy, rfl⟩
    simp only [Wording.spells_string, Bool.or_eq_true, decide_eq_true_eq, not_or] at hop
    simpa [HostText.logicalOperators, hop] using ho

theorem judges_foldTails {commas : Bool} {left : Node} (h : ∀ u ∈ ts, IsTail u)
    (hu : ∀ u ∈ ts, (p, u) ∈ t.places p) (hl : left.Evaluable) (hf : reach.reaches ts < fuel) :
    Judges p (t.Accounts p)
      (fun n => n.Evaluable ∧ n.isAssignable = (ts.isEmpty && left.isAssignable))
      (foldTails fuel commas left ts) := by
  induction ts generalizing fuel left with
  | nil =>
    cases fuel with
    | zero => omega
    | succ fuel =>
      rw [foldTails]
      exact Judges.pure ⟨hl, by simp⟩
  | cons u ts ih =>
    obtain ⟨htail, hts⟩ := List.forall_mem_cons.mp h
    obtain ⟨hplace, hplaces⟩ := List.forall_mem_cons.mp hu
    rw [reach.reaches] at hf
    cases fuel with
    | zero => omega
    | succ fuel =>
      have hrest {n : Node} (hn : n.Evaluable ∧ n.isAssignable = false) :=
        (ih hts hplaces hn.1 (show reach.reaches ts < fuel by omega)).imp fun k hk =>
          (⟨hk.1, by rw [hk.2, hn.2]; simp⟩ : k.Evaluable ∧
            k.isAssignable = ((u :: ts).isEmpty && left.isAssignable))
      rw [foldTails]
      cases htail with
      | @comma c d v hv =>
        rw [reach] at hf
        simp only [tag_node, tag_mark, children_node, reading_ok, pure_bind, if_true]
        refine (judges_child rfl (hv.within (mem_places (by decide)
          List.mem_cons_self) hplace) (by omega)).bind fun y hy => ?_
        exact hrest (evaluable_operator List.mem_cons_self hl hy.1)
      | @operator c d c' d' v ho hv =>
        rw [reach, reach.reaches, reach.reaches] at hf
        simp only [tag_node, tag_mark, children_node, reading_ok, pure_bind, two, text_mark,
          show ("binary-tail" = "comma-tail") = False by decide, if_false]
        refine (hv.within (mem_places (by decide) (by simp)) hplace
          fuel (by omega)).bind fun y hy => ?_
        exact hrest (evaluable_operator (List.mem_cons_of_mem _ ho) hl hy.1)

/-- **Operands with operators between them.** -/
theorem is_folded (htag : tag = "expression" ∨ tag = "binary") (hu : u.Is .expression)
    (h : ∀ v ∈ ts, IsTail v) : (node (c.mark d tag) (u :: ts)).Is .expression := by
  intro p
  refine gives_of_step fun fuel hf => ?_
  have hplaces : ∀ v ∈ u :: ts, (p, v) ∈ (node (c.mark d tag) (u :: ts)).places p :=
    fun v => mem_places (by rcases htag with rfl | rfl <;> decide)
  obtain ⟨hplace, hrest⟩ := List.forall_mem_cons.mp hplaces
  have hall : Judges p (Accounts p (node (c.mark d tag) (u :: ts)))
      (fun n => n.Evaluable ∧ n.isAssignable = (node (c.mark d tag) (u :: ts)).isTarget) (do
        let first ← LedSketch.child fuel (u :: ts) 0
        foldTails fuel (tag = "expression") first ts) := by
    refine (judges_child rfl (hu.part hplace) (by omega)).bind fun x hx => ?_
    rw [reach.reaches] at hf
    refine (judges_foldTails h hrest hx.1 (by omega)).imp fun n hn => ⟨hn.1, ?_⟩
    rw [hn.2, hx.2]
    rcases htag with rfl | rfl <;> cases ts <;> simp [isTarget, firstIsTarget, Cursor.mark, levels]
  rw [elaborateWithin.eq_def]
  rcases htag with rfl | rfl
  · simp only [tag_node, tag_mark, children_node, reading_ok, pure_bind]
    exact hall
  · simp only [tag_node, tag_mark, children_node, reading_ok, pure_bind]
    exact hall

/-- **A level without an operator** is what its operand is. -/
theorem is_alone (htag : tag ∈ ["assignment", "conditional", "postfix"]) (hu : u.Is .expression) :
    (node (c.mark d tag) [u]).Is .expression := by
  intro p
  refine gives_of_step fun fuel hf => ?_
  have hplace : (p, u) ∈ (node (c.mark d tag) [u]).places p := by
    refine mem_places ?_ List.mem_cons_self
    simp only [List.mem_cons, List.not_mem_nil, or_false] at htag
    rcases htag with rfl | rfl | rfl <;> decide
  have htarget : (node (c.mark d tag) [u]).isTarget = u.isTarget := by
    simp only [List.mem_cons, List.not_mem_nil, or_false] at htag
    rcases htag with rfl | rfl | rfl <;> simp [isTarget, firstIsTarget, tag_mark, levels]
  have hfirst : Judges p (Accounts p (node (c.mark d tag) [u])) (fun n =>
      n.Evaluable ∧ n.isAssignable = (node (c.mark d tag) [u]).isTarget)
      (LedSketch.child fuel [u] 0) := by
    rw [htarget]
    exact judges_child rfl (hu.part hplace) (by omega)
  rw [elaborateWithin.eq_def]
  simp only [List.mem_cons, List.not_mem_nil, or_false] at htag
  rcases htag with rfl | rfl | rfl
  · simp only [tag_node, tag_mark, children_node, reading_ok, pure_bind]
    exact hfirst.bind fun n hn => Judges.pure hn
  · simp only [tag_node, tag_mark, children_node, reading_ok, pure_bind]
    exact hfirst.bind fun n hn => Judges.pure hn
  · simp only [tag_node, tag_mark, children_node, reading_ok, pure_bind]
    exact hfirst.bind fun n hn => Judges.pure hn

/-- The check of a target, which is right about the tree. -/
theorem judges_target {n : Node} {what : String} {line col : Option Int}
    (hn : n.isAssignable = u.isTarget)
    (h : u.isTarget = false → t.Breaks p (.invalidTarget what) v)
    (hv : v.position = .ok (line, col)) :
    Judges p (t.Accounts p) (fun _ => n.isAssignable = true) (checkTarget n what v) :=
  judges_checkTarget fun hf => judges_refuse (h (hn ▸ hf)) hv

/-- **An assignment** is to a target, or refused. -/
theorem is_assignment {a b : Cursor} (hu : u.Is .expression)
    (ho : c'.upTo d' ∈ HostText.assignOperators) (hv : v.Is .expression) :
    (node (c.mark d "assignment")
      [u, node (a.mark b "assign-tail") [leaf (c'.mark d' "op"), v]]).Is .expression := by
  intro p
  refine gives_of_step fun fuel hf => ?_
  have hplaces : ∀ w ∈ _, (p, w) ∈ Tree.places p (node (c.mark d "assignment")
      [u, node (a.mark b "assign-tail") [leaf (c'.mark d' "op"), v]]) :=
    fun w => mem_places (by decide)
  have hinner : ∀ w ∈ _, (p, w) ∈ Tree.places p
      (node (a.mark b "assign-tail") [leaf (c'.mark d' "op"), v]) := fun w => mem_places (by decide)
  rw [elaborateWithin.eq_def]
  simp only [tag_node, tag_mark, children_node, reading_ok, pure_bind, List.drop_succ_cons,
    List.drop_zero, element, List.getElem?_cons_zero, text_mark]
  refine (judges_child rfl (hu.part (hplaces u (by simp))) (by omega)).bind fun x hx => ?_
  refine (judges_target hx.2 (fun ht => .assign rfl ht) rfl).bind fun _ ht => ?_
  refine (judges_child rfl (hv.within (hinner v (by simp)) (hplaces _ (by simp)))
    (by simp only [reach.reaches, reach] at hf ⊢; omega)).bind fun y hy => ?_
  exact Judges.pure ⟨.assign ho ht hx.1 hy.1, by simp [Node.isAssignable, isTarget, tag_mark, levels]⟩

theorem is_conditional {a b : Cursor} {w : Tree} (hu : u.Is .expression) (hv : v.Is .expression)
    (hw : w.Is .expression) :
    (node (c.mark d "conditional") [u, node (a.mark b "conditional-tail") [v, w]]).Is
      .expression := by
  intro p
  refine gives_of_step fun fuel hf => ?_
  have hplaces : ∀ x ∈ _, (p, x) ∈ Tree.places p (node (c.mark d "conditional")
      [u, node (a.mark b "conditional-tail") [v, w]]) := fun x => mem_places (by decide)
  have hinner : ∀ x ∈ _, (p, x) ∈ Tree.places p (node (a.mark b "conditional-tail") [v, w]) :=
    fun x => mem_places (by decide)
  rw [elaborateWithin.eq_def]
  simp only [tag_node, tag_mark, children_node, reading_ok, pure_bind, List.drop_succ_cons,
    List.drop_zero, two]
  refine (judges_child rfl (hu.part (hplaces u (by simp))) (by omega)).bind fun x hx => ?_
  simp only [reach.reaches, reach] at hf
  refine (hv.within (hinner v (by simp)) (hplaces _ (by simp)) fuel (by omega)).bind
    fun y hy => ?_
  refine (hw.within (hinner w (by simp)) (hplaces _ (by simp)) fuel (by omega)).bind
    fun z hz => ?_
  exact Judges.pure ⟨.conditional hx.1 hy.1 hz.1,
    by simp [Node.isAssignable, isTarget, tag_mark, levels]⟩

/-- The operators in front of an operand, the `await` with them. -/
def frontOperators : List String := "await" :: HostText.updateOperators ++ HostText.unaryOperators

/-- **An operator in front of an operand**: an `await` where one may stand, a count of a target, or
any other. -/
theorem is_unary (ho : c'.upTo d' ∈ frontOperators) (hu : u.Is .expression) :
    (node (c.mark d "unary") [leaf (c'.mark d' "op"), u]).Is .expression := by
  intro p
  refine gives_of_step fun fuel hf => ?_
  have hplace : (p, u) ∈ (node (c.mark d "unary") [leaf (c'.mark d' "op"), u]).places p :=
    mem_places (by decide) (by simp)
  have hoperand := hu.part hplace
  have htarget : Tree.isTarget (node (c.mark d "unary") [leaf (c'.mark d' "op"), u]) = false := by
    simp [isTarget, tag_mark, levels]
  simp only [reach.reaches] at hf
  obtain ⟨fuel, rfl⟩ := Nat.exists_eq_add_of_le' (show 1 ≤ fuel by omega)
  rw [elaborateWithin.eq_def]
  simp only [tag_node, tag_mark, children_node, reading_ok, pure_bind, LedSketch.unary, two,
    text_mark]
  split_ifs with hawait hupdate
  · refine judges_get.bind fun e he => judges_guard (fun hc => ?_) fun _ => ?_
    · refine judges_refuse (.await rfl (by rw [text_mark, of_decide_eq_true hawait]) fun hf => ?_) rfl
      exact absurd (he.headD_iff.mpr hf) (by simpa using hc)
    · refine (hoperand fuel (by omega)).bind fun x hx => Judges.pure ⟨.await hx.1, ?_⟩
      rw [htarget]
      rfl
  · refine (hoperand fuel (by omega)).bind fun x hx => ?_
    have hop : c'.upTo d' ∈ HostText.updateOperators := by
      simpa [HostText.updateOperators] using hupdate
    refine (judges_target hx.2 (fun ht => .countBefore rfl (text_mark _ _ _) hop ht) rfl).bind
      fun _ ht => Judges.pure ⟨.update hop ht hx.1, ?_⟩
    rw [htarget]
    rfl
  · refine (hoperand fuel (by omega)).bind fun x hx => Judges.pure ⟨.unary ?_ hx.1, ?_⟩
    · simp only [Wording.spells_string, Bool.or_eq_true, decide_eq_true_eq, not_or] at hawait hupdate
      simpa [frontOperators, HostText.updateOperators, hawait, hupdate] using ho
    · rw [htarget]
      rfl

/-- **A count behind a target**, or a refusal. -/
theorem is_postfix (hu : u.Is .expression)
    (ho : String.ofList (Text.trim (c'.upTo d').toList) ∈ HostText.updateOperators) :
    (node (c.mark d "postfix") [u, leaf (c'.mark d' "op")]).Is .expression := by
  intro p
  refine gives_of_step fun fuel hf => ?_
  have hplaces : ∀ x ∈ _, (p, x) ∈ Tree.places p (node (c.mark d "postfix")
      [u, leaf (c'.mark d' "op")]) := fun x => mem_places (by decide)
  rw [elaborateWithin.eq_def]
  simp only [tag_node, tag_mark, children_node, reading_ok, pure_bind, List.drop_succ_cons,
    List.drop_zero]
  refine (judges_child rfl (hu.part (hplaces u (by simp))) (by omega)).bind fun x hx => ?_
  refine (judges_target hx.2 (fun ht => .countBehind rfl ht) rfl).bind fun _ ht => ?_
  exact Judges.pure ⟨.update ho ht hx.1, by simp [Node.isAssignable, isTarget, tag_mark, levels]⟩

/-! ## Accesses -/

/-- A call, a member or an element of what comes before it. -/
inductive IsAccess : Tree → Prop
  | call {a b : Cursor} {us : List Tree} (h : ∀ u ∈ us, u.Is .expression) :
    IsAccess (node (a.mark b "call") us)
  | member {a b a' b' : Cursor} :
    IsAccess (node (a.mark b "member") [leaf (a'.mark b' "property")])
  | index {a b : Cursor} {u : Tree} (h : u.Is .expression) : IsAccess (node (a.mark b "index") [u])

/-- Whether the last of some links, if there is one, is no call. -/
def lastIsPlace : List Tree → Bool → Bool
  | [], b => b
  | u :: us, _ => lastIsPlace us (u.tag.toOption != some "call")

theorem judges_accessTails {object : Node} {b : Bool} (h : ∀ u ∈ ts, IsAccess u)
    (hu : ∀ u ∈ ts, (p, u) ∈ t.places p) (ho : object.Evaluable) (hb : object.isAssignable = b)
    (hf : reach.reaches ts < fuel) : Judges p (t.Accounts p)
      (fun n => n.Evaluable ∧ n.isAssignable = lastIsPlace ts b) (accessTails fuel object ts) := by
  induction ts generalizing fuel object b with
  | nil =>
    cases fuel with
    | zero => omega
    | succ fuel =>
      rw [accessTails]
      exact Judges.pure ⟨ho, hb⟩
  | cons u ts ih =>
    obtain ⟨hlink, hts⟩ := List.forall_mem_cons.mp h
    obtain ⟨hplace, hplaces⟩ := List.forall_mem_cons.mp hu
    rw [reach.reaches] at hf
    cases fuel with
    | zero => omega
    | succ fuel =>
      have hrest {n : Node} {b : Bool} (hn : n.Evaluable) (hb : n.isAssignable = b) :=
        ih hts hplaces hn hb (show reach.reaches ts < fuel by omega)
      rw [accessTails]
      cases hlink with
      | @call a b us hus =>
        rw [reach] at hf
        simp only [tag_node, tag_mark, children_node, reading_ok, pure_bind]
        refine (judges_all (fun v hv => ((hus v hv).within (mem_places (by decide) hv) hplace).mono
          (fun _ => id) fun _ hn => hn.1) (by omega)).bind fun args hargs => ?_
        exact hrest (.call ho hargs) rfl
      | member =>
        simp only [tag_node, tag_mark, children_node, reading_ok, pure_bind, element,
          List.getElem?_cons_zero, text_mark]
        exact hrest (.member ho) rfl
      | @index a b v hv =>
        rw [reach] at hf
        simp only [tag_node, tag_mark, children_node, reading_ok, pure_bind]
        refine (judges_child rfl (hv.within (mem_places (by decide) List.mem_cons_self) hplace)
          (by omega)).bind fun k hk => ?_
        exact hrest (.index ho hk.1) rfl

theorem lastIsPlace_concat (us : List Tree) (v : Tree) (b : Bool) :
    lastIsPlace (us ++ [v]) b = (v.tag.toOption != some "call") := by
  induction us generalizing b with
  | nil => rfl
  | cons u us ih => exact ih _

/-- The last link of an access says whether it is a target. -/
theorem isTarget_access (hstart : u.isLink = false) (h : ∀ v ∈ ts, IsAccess v) :
    (node (c.mark d "access") (u :: ts)).isTarget = lastIsPlace ts u.isTarget := by
  have hfirst : firstIsTarget (u :: ts) = u.isTarget := by rw [firstIsTarget]
  rw [isTarget, if_neg (by rw [tag_mark]; decide), if_neg (by rw [tag_mark]; decide),
    if_pos (tag_mark _ _ _), hfirst]
  rcases List.eq_nil_or_concat ts with rfl | ⟨us, v, rfl⟩
  · rw [List.getLast?_singleton]
    cases u with
    | node m us =>
      simp only [isLink, linkTags, List.contains_eq_mem, List.mem_cons, List.not_mem_nil, or_false,
        decide_eq_false_iff_not, not_or] at hstart
      simp [hstart, lastIsPlace]
    | leaf m => rfl
    | foreign d _ => rfl
  · rw [List.concat_eq_append, lastIsPlace_concat, ← List.cons_append, List.getLast?_concat]
    have hv := h v (by simp)
    cases hv with
    | call => simp [tag_mark, tag_node, Except.toOption]
    | member => simp [tag_mark, tag_node, Except.toOption]
    | index => simp [tag_mark, tag_node, Except.toOption]

/-- **Calls, members and elements.** -/
theorem is_access (hu : u.Is .expression) (hstart : u.isLink = false) (h : ∀ v ∈ ts, IsAccess v) :
    (node (c.mark d "access") (u :: ts)).Is .expression := by
  intro p
  refine gives_of_step fun fuel hf => ?_
  have hplaces : ∀ v ∈ u :: ts, (p, v) ∈ (node (c.mark d "access") (u :: ts)).places p :=
    fun v => mem_places (by decide)
  obtain ⟨hplace, hrest⟩ := List.forall_mem_cons.mp hplaces
  rw [elaborateWithin.eq_def]
  simp only [tag_node, tag_mark, children_node, reading_ok, pure_bind, List.drop_succ_cons,
    List.drop_zero]
  refine (judges_child rfl (hu.part hplace) (by omega)).bind fun x hx => ?_
  rw [reach.reaches] at hf
  refine (judges_accessTails h hrest hx.1 hx.2 (by omega)).imp fun n hn => ⟨hn.1, ?_⟩
  rw [hn.2, isTarget_access hstart h]

end Tree
end LedSketch
