import LedSketch.Proofs.Syntax.Verdicts

/-!
# What becomes of a statement

The shapes of statements, each of which is elaborated to a statement that can be run or breaks a
static rule. Bodies of functions stand in a setting of their own, bodies of loops in a loop.

* `is_bindings`: declarations, whose constants need a value.
* `is_functionDecl`, `is_forLoop`, `is_whileLoop`, `is_doWhile`: the statements that change the
  setting.
* `root_program`: the tree of a program.
-/

namespace LedSketch.Tree

open HostText (Setting)
open Grammar (Cursor)
open Elab

variable {p q : Setting} {t u v : Tree} {ts : List Tree} {V : Fault → Prop} {Q : Node → Prop}
  {c d c' d' : Cursor} {fuel : Nat} {tag : String}

theorem is_statement {k : Phrase} (h : u.Is k) (hk : k = .block ∨ k = .bindings) :
    u.Is .statement := by
  intro p
  rcases hk with rfl | rfl
  · exact (h p).mono (fun _ => id) fun _ hn => hn.1
  · exact (h p).mono (fun _ => id) fun _ hn => hn.1

theorem is_exprStmt (h : u.Is .expression) : (node (c.mark d "expr-stmt") [u]).Is .statement := by
  intro p
  refine gives_of_step fun fuel hf => ?_
  rw [elaborateWithin.eq_def]
  simp only [tag_node, tag_mark, children_node, reading_ok, pure_bind]
  exact (judges_child rfl (h.part (mem_places (by decide) (by simp))) (by omega)).bind fun x hx =>
    Judges.pure (.exprStmt hx.1)

theorem is_empty : (leaf (c.mark d "empty")).Is .statement :=
  fun _ => gives_leaf fun _ => Judges.pure .empty

theorem is_block (h : ∀ u ∈ ts, u.Is .statement) : (node (c.mark d "block") ts).Is .block := by
  intro p
  refine gives_of_step fun fuel hf => ?_
  rw [elaborateWithin.eq_def]
  simp only [tag_node, tag_mark, children_node, reading_ok, pure_bind]
  refine (judges_all (fun u hu => (h u hu).part (mem_places (by decide) hu)) (by omega)).bind
    fun ns hns => Judges.pure ⟨?_, _, _, rfl⟩
  exact .block hns

/-! ## Jumps -/

/-- **A jump** in a loop, or a refusal. -/
theorem is_jump (htag : tag ∈ ["break", "continue"]) : (leaf (c.mark d tag)).Is .statement := by
  intro p
  have hjump {n : Node} (hn : p.looping = true → n.Runnable p) :
      Judges p (Accounts p (leaf (c.mark d tag))) (Node.Runnable p) (do
        if (← get).loops = 0 then refuse (.illegalJump tag) (leaf (c.mark d tag))
        return n) := by
    refine judges_get.bind fun e he => judges_guard (fun hc => ?_) fun hc => ?_
    · exact judges_refuse (.jump rfl htag (he.loops_eq_zero_iff.mp hc)) rfl
    · exact Judges.pure (hn (by simpa [he.loops_eq_zero_iff] using hc))
  refine gives_leaf fun fuel => ?_
  simp only [List.mem_cons, List.not_mem_nil, or_false] at htag
  rcases htag with rfl | rfl
  · exact hjump .breakStmt
  · exact hjump .continueStmt

/-- **A return** in a function, or a refusal. -/
theorem is_return (hts : ts = [] ∨ ∃ u, ts = [u] ∧ u.Is .expression) :
    (node (c.mark d "return") ts).Is .statement := by
  intro p
  refine gives_of_step fun fuel hf => ?_
  rw [elaborateWithin.eq_def]
  simp only [tag_node, tag_mark, children_node, reading_ok, pure_bind]
  refine judges_get.bind fun e he => judges_guard (fun hc => ?_) fun hc => ?_
  · exact judges_refuse (.returnStmt rfl (he.isEmpty_iff.mp hc)) rfl
  · have hp : p.function ≠ none := fun hp => hc (he.isEmpty_iff.mpr hp)
    rcases hts with rfl | ⟨u, rfl, hu⟩
    · exact Judges.pure (.returnStmt hp (by rintro _ ⟨⟩))
    · rw [reach.reaches] at hf
      refine (hu.part (mem_places (by decide) (by simp)) fuel (by omega)).bind fun x hx => ?_
      refine Judges.pure (.returnStmt hp ?_)
      rintro _ ⟨⟩
      exact hx.1

/-! ## Declarations -/

/-- A name, with the tree of its value or without one. -/
inductive IsDeclarator : Tree → Prop
  | bare {a b a' b' : Cursor} :
    IsDeclarator (node (a.mark b "declarator") [leaf (a'.mark b' "name")])
  | valued {a b a' b' : Cursor} {u : Tree} (h : u.Is .expression) :
    IsDeclarator (node (a.mark b "declarator") [leaf (a'.mark b' "name"), u])

theorem judges_declarators {kind : Tree} {word : String} {us : List Tree}
    (hk : kind.text = .ok word) (hus : us ⊆ ts) (h : ∀ u ∈ us, IsDeclarator u)
    (hf : reach.reaches us < fuel) :
    Judges p (Accounts p (node (c.mark d "var-decl") (kind :: ts)))
      (fun ds : List (String × Option Node) => ∀ x ∈ ds, ∀ e, x.2 = some e → e.Evaluable)
      (declarators fuel word us) := by
  induction us generalizing fuel with
  | nil =>
    cases fuel with
    | zero => omega
    | succ fuel =>
      rw [declarators]
      exact Judges.pure (by simp)
  | cons u us ih =>
    obtain ⟨hu, hrest⟩ := List.forall_mem_cons.mp h
    obtain ⟨hmem, hsub⟩ := List.cons_subset.mp hus
    rw [reach.reaches] at hf
    cases fuel with
    | zero => omega
    | succ fuel =>
      have hlater := ih hsub hrest (show reach.reaches us < fuel by omega)
      have hplace : (p, u) ∈ places p (node (c.mark d "var-decl") (kind :: ts)) :=
        mem_places (by decide) (List.mem_cons_of_mem _ hmem)
      rw [declarators]
      cases hu with
      | bare =>
        simp only [children_node, reading_ok, pure_bind, List.drop_succ_cons, List.drop_zero,
          Option.isNone_none, Bool.true_and, element, List.getElem?_cons_zero, text_mark]
        refine judges_guard (fun hc => ?_) fun _ => hlater.bind fun ds hds => ?_
        · rw [of_decide_eq_true hc] at hk
          exact judges_refuse (.constant (tag_mark _ _ _) hk hmem) rfl
        · exact Judges.pure (List.forall_mem_cons.mpr ⟨by rintro _ ⟨⟩, hds⟩)
      | @valued a b a' b' v hv =>
        simp only [reach, reach.reaches] at hf
        simp only [children_node, reading_ok, pure_bind, List.drop_succ_cons, List.drop_zero,
          element, List.getElem?_cons_zero, text_mark]
        refine (hv.within (mem_places (by decide) (by simp)) hplace fuel (by omega)).bind
          fun x hx => hlater.bind fun ds hds => ?_
        refine Judges.pure (List.forall_mem_cons.mpr ⟨?_, hds⟩)
        rintro _ ⟨⟩
        exact hx.1

/-- **Declarations of names**: constants have a value, or are refused. -/
theorem is_bindings (h : ∀ u ∈ ts, IsDeclarator u) :
    (node (c.mark d "var-decl") (leaf (c'.mark d' "var-kind") :: ts)).Is .bindings := by
  intro p
  refine gives_of_step fun fuel hf => ?_
  rw [elaborateWithin.eq_def]
  simp only [tag_node, tag_mark, children_node, reading_ok, pure_bind, element,
    List.getElem?_cons_zero, text_mark, List.drop_succ_cons, List.drop_zero]
  rw [reach.reaches] at hf
  refine (judges_declarators (text_mark _ _ _) (List.Subset.refl ts) h (by omega)).bind
    fun ds hds => Judges.pure ⟨?_, _, _, _, rfl⟩
  exact .varDecl hds

/-- A name that is declared. -/
def IsName (t : Tree) : Prop := ∃ a b : Cursor, t = leaf (a.mark b "name")

theorem mapM_names (h : ∀ u ∈ ts, IsName u) : ∃ ss, ts.mapM Tree.text = .ok ss := by
  induction ts with
  | nil => exact ⟨[], rfl⟩
  | cons u ts ih =>
    obtain ⟨⟨a, b, rfl⟩, hts⟩ := List.forall_mem_cons.mp h
    obtain ⟨ss, hss⟩ := ih hts
    exact ⟨a.upTo b :: ss, by rw [List.mapM_cons, text_mark, hss]; rfl⟩

/-- **The body of a function** stands in that function. -/
theorem is_functionDecl {mark params : List Tree} {body : Tree}
    (hmark : mark = [] ∨ ∃ a b : Cursor, mark = [leaf (a.mark b "async")])
    (hparams : ∀ u ∈ params, IsName u) (hbody : body.Is .block) :
    (node (c.mark d "function-decl")
      (mark ++ leaf (c'.mark d' "name") :: (params ++ [body]))).Is .statement := by
  intro p
  refine gives_of_step fun fuel hf => ?_
  generalize hts : mark ++ leaf (c'.mark d' "name") :: (params ++ [body]) = ts at hf ⊢
  have hplace : (⟨some (asyncFirst ts), false⟩, body) ∈
      places p (node (c.mark d "function-decl") ts) := by
    rw [places, tag_mark, if_pos rfl]
    exact List.mem_map_of_mem (by simp [← hts])
  have hreach : reach.reaches (params ++ [body]) < fuel := by
    have := (reaches_append_le mark (leaf (c'.mark d' "name") :: (params ++ [body]))).2
    rw [hts, reach.reaches] at this
    omega
  obtain ⟨ss, hss⟩ := mapM_names hparams
  have hlast : (params ++ [body])[(params ++ [body]).length - 1]? = some body := by
    simp
  have hrest {isAsync : Bool} (ha : asyncFirst ts = isAsync) :
      Judges p (Accounts p (node (c.mark d "function-decl") ts)) (Node.Runnable p) (do
        let result ← inFunction isAsync (LedSketch.child (fuel - 1) (params ++ [body])
          ((params ++ [body]).length - 1))
        let word ← reading (leaf (c'.mark d' "name")).text
        return Node.functionDecl (locOf (node (c.mark d "function-decl") ts)) word
          (← reading ((params ++ [body]).dropLast.mapM Tree.text)) result isAsync) := by
    rw [ha] at hplace
    refine (judges_inFunction (judges_child hlast (hbody.part hplace) (by omega))).bind
      fun n hn => ?_
    rw [List.dropLast_concat, hss, text_mark]
    obtain ⟨hrun, l, ss', rfl⟩ := hn
    cases hrun with
    | block hbody => exact Judges.pure (.functionDecl hbody)
  obtain ⟨fuel, rfl⟩ := Nat.exists_eq_add_of_le' (show 1 ≤ fuel by omega)
  rw [elaborateWithin.eq_def]
  simp only [tag_node, tag_mark, children_node, reading_ok, pure_bind, LedSketch.functionDecl]
  obtain ⟨r, rs, hrs⟩ : ∃ r rs, params ++ [body] = r :: rs := by
    cases params with
    | nil => exact ⟨body, [], rfl⟩
    | cons w ws => exact ⟨w, ws ++ [body], rfl⟩
  rw [hrs] at hrest hts
  rcases hmark with rfl | ⟨a, b, rfl⟩
  · subst hts
    exact hrest rfl
  · subst hts
    exact hrest rfl

/-! ## Branches and loops -/

theorem is_ifThen (hu : u.Is .expression) (hv : v.Is .statement) :
    (node (c.mark d "if") [u, v]).Is .statement := by
  intro p
  refine gives_of_step fun fuel hf => ?_
  rw [elaborateWithin.eq_def]
  simp only [tag_node, tag_mark, children_node, reading_ok, pure_bind, List.drop_succ_cons,
    List.drop_nil]
  refine (judges_child rfl (hu.part (mem_places (by decide) (by simp))) (by omega)).bind
    fun x hx => ?_
  refine (judges_child rfl (hv.part (mem_places (by decide) (by simp))) (by omega)).bind
    fun y hy => Judges.pure ?_
  exact .ifElse hx.1 hy (by rintro _ ⟨⟩)

theorem is_ifElse {a b : Cursor} {w : Tree} (hu : u.Is .expression) (hv : v.Is .statement)
    (hw : w.Is .statement) :
    (node (c.mark d "if") [u, v, node (a.mark b "else") [w]]).Is .statement := by
  intro p
  refine gives_of_step fun fuel hf => ?_
  have hplaces : ∀ x ∈ _, (p, x) ∈ Tree.places p (node (c.mark d "if")
      [u, v, node (a.mark b "else") [w]]) := fun x => mem_places (by decide)
  have hinner : ∀ x ∈ _, (p, x) ∈ Tree.places p (node (a.mark b "else") [w]) :=
    fun x => mem_places (by decide)
  rw [elaborateWithin.eq_def]
  simp only [tag_node, tag_mark, children_node, reading_ok, pure_bind, List.drop_succ_cons,
    List.drop_zero]
  refine (judges_child rfl (hw.within (hinner w (by simp)) (hplaces _ (by simp)))
    (by simp only [reach.reaches, reach] at hf ⊢; omega)).bind fun z hz => ?_
  refine (judges_child rfl (hu.part (hplaces u (by simp))) (by omega)).bind fun x hx => ?_
  refine (judges_child rfl (hv.part (hplaces v (by simp))) (by omega)).bind fun y hy => ?_
  refine Judges.pure (.ifElse hx.1 hy ?_)
  rintro _ ⟨⟩
  exact hz

theorem judges_loopBody (h : u.Gives p.looped V Q) (hf : u.reach < fuel) :
    Judges p V Q (loopBody fuel u) := by
  cases fuel with
  | zero => omega
  | succ fuel =>
    rw [loopBody]
    exact judges_inLoop (h fuel (by omega))

theorem is_whileLoop (hu : u.Is .expression) (hv : v.Is .statement) :
    (node (c.mark d "while") [u, v]).Is .statement := by
  intro p
  refine gives_of_step fun fuel hf => ?_
  rw [elaborateWithin.eq_def]
  simp only [tag_node, tag_mark, children_node, reading_ok, pure_bind, element,
    List.getElem?_cons_succ, List.getElem?_cons_zero]
  refine (judges_child rfl (hu.part (by simp [places, tag_mark])) (by omega)).bind fun x hx => ?_
  simp only [reach.reaches] at hf
  refine (judges_loopBody (hv.part (by simp [places, tag_mark])) (by omega)).bind fun y hy => ?_
  exact Judges.pure (.whileLoop hx.1 hy)

theorem is_doWhile (hu : u.Is .statement) (hv : v.Is .expression) :
    (node (c.mark d "do-while") [u, v]).Is .statement := by
  intro p
  refine gives_of_step fun fuel hf => ?_
  rw [elaborateWithin.eq_def]
  simp only [tag_node, tag_mark, children_node, reading_ok, pure_bind, element,
    List.getElem?_cons_zero]
  have hreach := reach_lt_of_mem (List.mem_cons_self (a := u) (l := [v]))
  refine (judges_loopBody (hu.part (by simp [places, tag_mark])) (by omega)).bind fun x hx => ?_
  refine (judges_child rfl (hv.part (by simp [places, tag_mark])) (by omega)).bind fun y hy => ?_
  exact Judges.pure (.doWhile hx hy.1)

/-- A clause of a `for` loop. -/
inductive IsClause : Tree → Prop
  | bindings {a b : Cursor} {u : Tree} (h : u.Is .bindings) :
    IsClause (node (a.mark b "for-init") [u])
  | start {a b : Cursor} {u : Tree} (h : u.Is .expression) :
    IsClause (node (a.mark b "for-init") [u])
  | test {a b : Cursor} {u : Tree} (h : u.Is .expression) :
    IsClause (node (a.mark b "for-test") [u])
  | step {a b : Cursor} {u : Tree} (h : u.Is .expression) :
    IsClause (node (a.mark b "for-update") [u])

/-- The clauses of a loop that can be run. -/
structure Clauses (p : Setting) (x : Option Node × Option Node × Option Node) : Prop where
  init : ∀ s, x.1 = some s → s.Runnable p
  test : ∀ e, x.2.1 = some e → e.Evaluable
  step : ∀ e, x.2.2 = some e → e.Evaluable

theorem judges_forClauses {x : Option Node × Option Node × Option Node}
    (h : ∀ u ∈ ts, IsClause u) (hu : ∀ u ∈ ts, (p, u) ∈ t.places p) (hx : Clauses p x)
    (hf : reach.reaches ts < fuel) : Judges p (t.Accounts p) (Clauses p) (forClauses fuel x ts) := by
  obtain ⟨init, test, step⟩ := x
  induction ts generalizing fuel init test step with
  | nil =>
    cases fuel with
    | zero => omega
    | succ fuel =>
      rw [forClauses]
      exact Judges.pure hx
  | cons u ts ih =>
    obtain ⟨hclause, hts⟩ := List.forall_mem_cons.mp h
    obtain ⟨hplace, hplaces⟩ := List.forall_mem_cons.mp hu
    rw [reach.reaches] at hf
    cases fuel with
    | zero => omega
    | succ fuel =>
      have hrest {init test step : Option Node} (hx : Clauses p (init, test, step)) :=
        ih hts hplaces (show reach.reaches ts < fuel by omega) init test step hx
      have hchild {a b : Cursor} {tag : String} {k : Phrase} {v : Tree} (htag : tag ∉ setters)
          (hv : v.Is k) (hplace : (p, node (a.mark b tag) [v]) ∈ t.places p)
          (hf : reach (node (a.mark b tag) [v]) < fuel) :
          Judges p (t.Accounts p) (k.Allows p v) (LedSketch.child fuel [v] 0) := by
        rw [reach] at hf
        exact judges_child rfl (hv.within (mem_places htag List.mem_cons_self) hplace) (by omega)
      rw [forClauses]
      cases hclause with
      | bindings hv =>
        simp only [tag_node, tag_mark, children_node, reading_ok, pure_bind]
        refine (hchild (by decide) hv hplace (by omega)).bind fun n hn => ?_
        obtain ⟨hrun, l, kind, ds, rfl⟩ := hn
        refine hrest ⟨?_, hx.test, hx.step⟩
        rintro _ ⟨⟩
        exact hrun
      | start hv =>
        simp only [tag_node, tag_mark, children_node, reading_ok, pure_bind]
        refine (hchild (by decide) hv hplace (by omega)).bind fun n hn => ?_
        refine hrest ⟨?_, hx.test, hx.step⟩
        rintro _ ⟨⟩
        unfold asStatement
        split
        · cases hn.1
        · exact .exprStmt hn.1
      | test hv =>
        simp only [tag_node, tag_mark, children_node, reading_ok, pure_bind]
        refine (hchild (by decide) hv hplace (by omega)).bind fun n hn => ?_
        refine hrest ⟨hx.init, ?_, hx.step⟩
        rintro _ ⟨⟩
        exact hn.1
      | step hv =>
        simp only [tag_node, tag_mark, children_node, reading_ok, pure_bind]
        refine (hchild (by decide) hv hplace (by omega)).bind fun n hn => ?_
        refine hrest ⟨hx.init, hx.test, ?_⟩
        rintro _ ⟨⟩
        exact hn.1

/-- **A loop with clauses**: its body stands in the loop, its clauses do not. -/
theorem is_forLoop (h : ∀ u ∈ ts, IsClause u) (hv : v.Is .statement) :
    (node (c.mark d "for") (ts ++ [v])).Is .statement := by
  intro p
  refine gives_of_step fun fuel hf => ?_
  have hplaces : ∀ u ∈ ts, (p, u) ∈ places p (node (c.mark d "for") (ts ++ [v])) := by
    intro u hu
    rw [places, tag_mark, if_neg (by decide), if_pos (Or.inr rfl), List.dropLast_concat]
    exact List.mem_append_left _ (List.mem_map_of_mem hu)
  have hbody : (p.looped, v) ∈ places p (node (c.mark d "for") (ts ++ [v])) := by
    rw [places, tag_mark, if_neg (by decide), if_pos (Or.inr rfl), List.getLast?_concat]
    exact List.mem_append_right _ (by simp)
  have hreach := reach_lt_of_mem (List.mem_append_right ts (List.mem_singleton_self v))
  have hinit := (reaches_append_le ts [v]).1
  have hlast : (ts ++ [v])[(ts ++ [v]).length - 1]? = some v := by simp
  obtain ⟨fuel, rfl⟩ := Nat.exists_eq_add_of_le' (show 1 ≤ fuel by omega)
  rw [elaborateWithin.eq_def]
  simp only [tag_node, tag_mark, children_node, reading_ok, pure_bind, LedSketch.forLoop,
    List.dropLast_concat, element, hlast]
  refine (judges_forClauses h hplaces ⟨by simp, by simp, by simp⟩ (by omega)).bind fun x hx => ?_
  refine (judges_loopBody (hv.part hbody) (by omega)).bind fun y hy => ?_
  exact Judges.pure (.forLoop hx.init hx.test hx.step hy)

/-! ## Programs -/

/-- The statements of a program that can be run. -/
def IsRun (n : Node) : Prop := ∃ l body, n = .program l body ∧ ∀ s ∈ body, s.Runnable ⟨none, false⟩

/-- **The tree of a program** becomes one that can be run, or accounts for why it does not. -/
theorem root_program (h : ∀ u ∈ ts, u.Is .statement) :
    match (node (c.mark d "program") ts).elaborate with
    | .ok n => IsRun n
    | .error f => Accounts ⟨none, false⟩ (node (c.mark d "program") ts) f := by
  let x : Elab Node := do
    let ns ← elaborateAll (reach.reaches ts + 3) ts
    return .program (locOf (node (c.mark d "program") ts)) ns
  have hbody : Judges ⟨none, false⟩ (Accounts ⟨none, false⟩ (node (c.mark d "program") ts)) IsRun x :=
    (judges_all (fun u hu => (h u hu).part (mem_places (by decide) hu)) (by omega)).bind
      fun ns hns => Judges.pure ⟨_, ns, rfl, hns⟩
  have hstart := hbody {} ⟨⟨rfl, Int.le_refl 0, nofun⟩, fun _ => rfl⟩
  have hrun : (node (c.mark d "program") ts).elaborate = (x.run {}).map Prod.fst := by
    rw [elaborate, reach, elaborateWithin.eq_def]
    simp only [tag_node, tag_mark, children_node, reading_ok, pure_bind]
    rfl
  rw [hrun]
  cases hr : x.run {} with
  | error f => rw [hr] at hstart; exact hstart
  | ok r => rw [hr] at hstart; exact hstart.1

end LedSketch.Tree
