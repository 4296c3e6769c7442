import LedSketch.Proofs.Syntax.Meanings

/-!
# What the trees of statements mean

For each kind of statement, the shape of the trees that mean it. Bodies of loops and functions mean
what they do in a setting of their own.

* `elaborate_program`: the tree of a program.
-/

namespace LedSketch.Tree

open HostText Elab

variable {p : Setting} {x y z : Node} {t : Tree} {ts : List Tree} {ns : List Node} {fuel : Nat}
  {l : Option Loc} {cs : List Char}

theorem means_block (h : Tagged "block" (ns.map (Means p)) t) : Means p (.block l ns) t := by
  refine h.means fun m ts fuel hm hts hf => ?_
  rw [elaborateWithin.eq_def]
  simp only [tag_node, hm, children_node, reading_ok, pure_bind]
  exact (makes_all hts (by omega)).bind fun ms hms => makes_pure (by simp only [Node.unplaced, hms])

/-- A tree that means a declaration. -/
def MeansDeclaration (p : Setting) (d : String × Option Node) : Tree → Prop :=
  Tagged "declarator" (Spells "name" d.1.toList :: d.2.toList.map (Means p))

theorem makes_declarators {kind : String} {ds : List (String × Option Node)}
    (hc : kind = "const" → ∀ d ∈ ds, d.2 ≠ none) (h : Meet (ds.map (MeansDeclaration p)) ts)
    (hf : reach.reaches ts < fuel) : Makes p (declarators fuel kind ts) fun es =>
      Node.unplacedDeclarations es = Node.unplacedDeclarations ds := by
  induction ds generalizing ts fuel with
  | nil =>
    obtain rfl := h.none
    cases fuel with
    | zero => omega
    | succ fuel => exact makes_pure rfl
  | cons d ds ih =>
    obtain ⟨t, us, rfl, ht, hus⟩ := Meet.uncons h
    rw [reach.reaches] at hf
    cases fuel with
    | zero => omega
    | succ fuel =>
      have hfuel : reach.reaches us < fuel := by omega
      have hrest := ih (fun hk d hd => hc hk d (List.mem_cons_of_mem _ hd)) hus hfuel
      rw [declarators]
      obtain ⟨vs, hparts, hvs, hreach⟩ := Tagged.parts ht
      obtain ⟨v, ws, rfl, hv, hws⟩ := Meet.uncons hvs
      refine makes_reading hparts ?_
      obtain ⟨name, init⟩ := d
      cases init with
      | none =>
        obtain rfl := Meet.none hws
        have hk : kind ≠ "const" := fun hk => hc hk _ List.mem_cons_self rfl
        simp only [List.drop, pure_bind, Option.isNone_none, Bool.true_and, Wording.spells_string,
          decide_eq_true_eq, hk, if_false]
        refine makes_element rfl (makes_reading hv.text (hrest.bind fun es hes => ?_))
        exact makes_pure (by simp only [Node.unplacedDeclarations, hes])
      | some n =>
        obtain ⟨w, rfl, hw⟩ := Meet.one hws
        simp only [reach.reaches] at hreach
        simp only [List.drop, pure_bind]
        refine (hw fuel (by omega)).bind fun a ha => ?_
        refine makes_element rfl (makes_reading hv.text (hrest.bind fun es hes => ?_))
        exact makes_pure (by simp only [Node.unplacedDeclarations, ha, hes])

theorem means_varDecl {kind : String} {ds : List (String × Option Node)}
    (hc : kind = "const" → ∀ d ∈ ds, d.2 ≠ none)
    (h : Tagged "var-decl" (Spells "var-kind" kind.toList :: ds.map (MeansDeclaration p)) t) :
    Means p (.varDecl l kind ds) t := by
  refine h.means fun m ts fuel hm hts hf => ?_
  obtain ⟨u, us, rfl, hu, hus⟩ := Meet.uncons hts
  rw [elaborateWithin.eq_def]
  simp only [tag_node, hm, children_node, reading_ok, pure_bind]
  refine makes_element rfl (makes_reading hu.text ?_)
  simp only [reach.reaches] at hf
  exact (makes_declarators hc hus (by omega)).bind fun es hes =>
    makes_pure (by simp only [Node.unplaced, hes])

theorem means_exprStmt (h : Tagged "expr-stmt" [Means p x] t) : Means p (.exprStmt l x) t := by
  refine h.means fun m ts fuel hm hts hf => ?_
  obtain ⟨u, rfl, hu⟩ := hts.one
  rw [elaborateWithin.eq_def]
  simp only [tag_node, hm, children_node, reading_ok, pure_bind]
  exact (makes_child rfl hu (by omega)).bind fun a ha => makes_pure (by simp only [Node.unplaced, ha])

theorem makes_loopBody (h : Means { p with looping := true } n t) (hf : t.reach < fuel) :
    Makes p (loopBody fuel t) fun m => m.unplaced = n.unplaced := by
  cases fuel with
  | zero => omega
  | succ fuel => exact makes_inLoop (h fuel (by omega))

theorem means_while (h : Tagged "while" [Means p x, Means { p with looping := true } y] t) :
    Means p (.whileLoop l x y) t := by
  refine h.means fun m ts fuel hm hts hf => ?_
  obtain ⟨u, v, rfl, hu, hv⟩ := hts.two
  rw [elaborateWithin.eq_def]
  simp only [tag_node, hm, children_node, reading_ok, pure_bind]
  refine (makes_child rfl hu (by omega)).bind fun a ha => makes_element rfl ?_
  simp only [reach.reaches] at hf
  exact (makes_loopBody hv (by omega)).bind fun b hb =>
    makes_pure (by simp only [Node.unplaced, ha, hb])

theorem means_doWhile (h : Tagged "do-while" [Means { p with looping := true } x, Means p y] t) :
    Means p (.doWhile l x y) t := by
  refine h.means fun m ts fuel hm hts hf => ?_
  obtain ⟨u, v, rfl, hu, hv⟩ := hts.two
  rw [elaborateWithin.eq_def]
  simp only [tag_node, hm, children_node, reading_ok, pure_bind]
  have test : Makes p (LedSketch.child fuel [u, v] 1) _ := makes_child rfl hv (by omega)
  simp only [reach.reaches] at hf
  refine makes_element rfl ((makes_loopBody hu (by omega)).bind fun a ha => ?_)
  exact test.bind fun b hb => makes_pure (by simp only [Node.unplaced, ha, hb])

theorem means_ifThen (h : Tagged "if" [Means p x, Means p y] t) :
    Means p (.ifElse l x y none) t := by
  refine h.means fun m ts fuel hm hts hf => ?_
  obtain ⟨u, v, rfl, hu, hv⟩ := hts.two
  rw [elaborateWithin.eq_def]
  simp only [tag_node, hm, children_node, reading_ok, pure_bind]
  refine (makes_child rfl hu (by omega)).bind fun a ha => ?_
  refine (makes_child rfl hv (by omega)).bind fun b hb => ?_
  exact makes_pure (by simp only [Node.unplaced, Node.unplaced?, ha, hb])

theorem means_ifElse (h : Tagged "if" [Means p x, Means p y, Tagged "else" [Means p z]] t) :
    Means p (.ifElse l x y (some z)) t := by
  refine h.means fun m ts fuel hm hts hf => ?_
  obtain ⟨u, us, rfl, hu, hus⟩ := Meet.uncons hts
  obtain ⟨v, w, rfl, hv, hw⟩ := Meet.two hus
  obtain ⟨ws, hparts, hws, hreach⟩ := hw.parts
  obtain ⟨z', rfl, hz⟩ := hws.one
  rw [elaborateWithin.eq_def]
  simp only [tag_node, hm, children_node, reading_ok, pure_bind]
  have test : Makes p (LedSketch.child fuel [u, v, w] 0) _ := makes_child rfl hu (by omega)
  have yes : Makes p (LedSketch.child fuel [u, v, w] 1) _ := makes_child rfl hv (by omega)
  simp only [reach.reaches] at hf
  have no : Makes p (LedSketch.child fuel [z'] 0) _ := makes_child rfl hz (by omega)
  simp only [List.drop]
  refine makes_reading hparts (no.bind fun c hc => ?_)
  refine test.bind fun a ha => yes.bind fun b hb => ?_
  exact makes_pure (by simp only [Node.unplaced, Node.unplaced?, ha, hb, hc])

theorem means_return {value : Option Node} (hf : p.function ≠ none)
    (h : Tagged "return" (value.toList.map (Means p)) t) : Means p (.returnStmt l value) t := by
  refine h.means fun m ts fuel hm hts hf' => ?_
  rw [elaborateWithin.eq_def]
  simp only [tag_node, hm, children_node, reading_ok, pure_bind]
  refine makes_get fun e he => ?_
  have hne : e.functions.isEmpty = false := by
    have := he.function
    cases hfs : e.functions with
    | nil => rw [hfs] at this; exact absurd this.symm hf
    | cons => rfl
  simp only [hne, Bool.false_eq_true, if_false]
  cases value with
  | none =>
    obtain rfl := hts.none
    exact makes_pure rfl
  | some n =>
    obtain ⟨u, rfl, hu⟩ := hts.one
    simp only [reach.reaches] at hf'
    exact (hu fuel (by omega)).bind fun a ha =>
      makes_pure (by simp only [Node.unplaced, Node.unplaced?, ha])

theorem ne_zero_of_looping {e : Enclosing} (hl : p.looping = true) (he : Suits p e) :
    e.loops ≠ 0 := Int.ne_of_gt (he.looping hl)

theorem means_break (hl : p.looping = true) (h : Spells "break" cs t) :
    Means p (.breakStmt l) t := by
  obtain ⟨m, rfl, hm, -⟩ := h
  refine means_leaf fun fuel => ?_
  rw [elaborateWithin.eq_def]
  simp only [tag_leaf, hm, children_leaf, reading_ok, pure_bind]
  refine makes_get fun e he => ?_
  rw [if_neg (ne_zero_of_looping hl he)]
  exact makes_pure rfl

theorem means_continue (hl : p.looping = true) (h : Spells "continue" cs t) :
    Means p (.continueStmt l) t := by
  obtain ⟨m, rfl, hm, -⟩ := h
  refine means_leaf fun fuel => ?_
  rw [elaborateWithin.eq_def]
  simp only [tag_leaf, hm, children_leaf, reading_ok, pure_bind]
  refine makes_get fun e he => ?_
  rw [if_neg (ne_zero_of_looping hl he)]
  exact makes_pure rfl

theorem means_empty (h : Spells "empty" cs t) : Means p (.empty l) t := by
  obtain ⟨⟨_, _, line, col⟩, rfl, rfl, -⟩ := h
  exact means_leaf fun fuel => makes_pure rfl

/-! ### Loops with three clauses -/

/-- The trees of a clause that may be missing. -/
def clause (tag : String) (p : Setting) (n : Option Node) : List (Tree → Prop) :=
  n.toList.map fun n => Tagged tag [Means p n]

theorem makes_update {init test update : Option Node} (h : Meet (clause "for-update" p update) ts)
    (hf : reach.reaches ts < fuel) : Makes p (forClauses fuel (init, test, none) ts) fun r =>
      r.1 = init ∧ r.2.1 = test ∧ Node.unplaced? r.2.2 = Node.unplaced? update := by
  obtain ⟨fuel, rfl⟩ := Nat.exists_eq_add_of_le' (show 1 ≤ fuel by omega)
  cases update with
  | none =>
    obtain rfl := h.none
    exact makes_pure ⟨rfl, rfl, rfl⟩
  | some n =>
    obtain ⟨t, rfl, ht⟩ := h.one
    obtain ⟨us, hparts, hus, hreach⟩ := ht.parts
    obtain ⟨u, rfl, hu⟩ := hus.one
    simp only [reach.reaches] at hf
    rw [forClauses]
    refine makes_reading hparts ((makes_child rfl hu (by omega)).bind fun a ha => ?_)
    refine makes_reading ht.tag ?_
    obtain ⟨fuel, rfl⟩ := Nat.exists_eq_add_of_le' (show 1 ≤ fuel by omega)
    exact makes_pure ⟨rfl, rfl, by simp only [Node.unplaced?, ha]⟩

theorem makes_test {init test update : Option Node}
    (h : Meet (clause "for-test" p test ++ clause "for-update" p update) ts)
    (hf : reach.reaches ts < fuel) : Makes p (forClauses fuel (init, none, none) ts) fun r =>
      r.1 = init ∧ Node.unplaced? r.2.1 = Node.unplaced? test ∧
        Node.unplaced? r.2.2 = Node.unplaced? update := by
  cases test with
  | none => exact (makes_update h hf).mono fun r hr => ⟨hr.1, by rw [hr.2.1], hr.2.2⟩
  | some n =>
    obtain ⟨t, us, rfl, ht, hus⟩ := Meet.uncons h
    obtain ⟨vs, hparts, hvs, hreach⟩ := Tagged.parts ht
    obtain ⟨v, rfl, hv⟩ := hvs.one
    obtain ⟨fuel, rfl⟩ := Nat.exists_eq_add_of_le' (show 1 ≤ fuel by omega)
    rw [reach.reaches] at hf
    rw [forClauses]
    refine makes_reading hparts ((makes_child rfl hv (by omega)).bind fun a ha => ?_)
    refine makes_reading (Tagged.tag ht) ?_
    refine (makes_update hus (by omega)).mono fun r hr => ⟨hr.1, ?_, hr.2.2⟩
    rw [hr.2.1, Node.unplaced?, ha, Node.unplaced?]

/-- What is written of a statement in front of a loop. -/
def written : Node → Node
  | .exprStmt _ x => x
  | n => n

/-- A statement in front of a loop is what it is taken for. -/
theorem unplaced_asStatement {a : Bool} {m n : Node} (hn : Initializer a n)
    (h : m.unplaced = (written n).unplaced) (l : Option Loc) :
    (asStatement l m).unplaced = n.unplaced := by
  cases hn with
  | declaration =>
    simp only [written, Node.unplaced] at h
    cases m with
    | varDecl => simpa only [asStatement, Node.unplaced] using h
    | _ => cases h
  | @expression l' x hx =>
    have hm : asStatement l m = .exprStmt l m := by
      cases m with
      | varDecl => cases hx <;> cases h
      | _ => rfl
    rw [hm, Node.unplaced, h, Node.unplaced]
    rfl

theorem makes_clauses {a : Bool} {init test update : Option Node}
    (hi : ∀ n ∈ init, Initializer a n) (h : Meet (clause "for-init" p (init.map written) ++
      (clause "for-test" p test ++ clause "for-update" p update)) ts)
    (hf : reach.reaches ts < fuel) : Makes p (forClauses fuel (none, none, none) ts) fun r =>
      Node.unplaced? r.1 = Node.unplaced? init ∧ Node.unplaced? r.2.1 = Node.unplaced? test ∧
        Node.unplaced? r.2.2 = Node.unplaced? update := by
  cases init with
  | none => exact (makes_test h hf).mono fun r hr => ⟨by rw [hr.1], hr.2⟩
  | some n =>
    obtain ⟨t, us, rfl, ht, hus⟩ := Meet.uncons h
    obtain ⟨vs, hparts, hvs, hreach⟩ := Tagged.parts ht
    obtain ⟨v, rfl, hv⟩ := hvs.one
    obtain ⟨fuel, rfl⟩ := Nat.exists_eq_add_of_le' (show 1 ≤ fuel by omega)
    rw [reach.reaches] at hf
    rw [forClauses]
    refine makes_reading hparts ((makes_child rfl hv (by omega)).bind fun b hb => ?_)
    refine makes_reading (Tagged.tag ht) ?_
    refine (makes_test hus (by omega)).mono fun r hr => ⟨?_, hr.2⟩
    rw [hr.1, Node.unplaced?, unplaced_asStatement (hi n rfl) hb, Node.unplaced?]

theorem getElem?_last (ts : List Tree) (t : Tree) :
    (ts ++ [t])[(ts ++ [t]).length - 1]? = some t := by simp

theorem means_for {a : Bool} {init test update : Option Node} (hi : ∀ n ∈ init, Initializer a n)
    (h : Tagged "for" ((clause "for-init" p (init.map written) ++ (clause "for-test" p test ++
      clause "for-update" p update)) ++ [Means { p with looping := true } x]) t) :
    Means p (.forLoop l init test update x) t := by
  refine h.means fun m ts fuel hm hts hf => ?_
  obtain ⟨us, _, rfl, hus, hvs⟩ := hts.split
  obtain ⟨v, rfl, hv⟩ := hvs.one
  have hreaches := reaches_append_le us [v]
  have hreach := reach_lt_of_mem (List.mem_append_right us (List.mem_singleton_self v))
  obtain ⟨fuel, rfl⟩ := Nat.exists_eq_add_of_le' (show 1 ≤ fuel by omega)
  have hfuel : reach.reaches us < fuel := by omega
  have clauses := makes_clauses hi hus hfuel
  rw [elaborateWithin.eq_def]
  simp only [tag_node, hm, children_node, reading_ok, pure_bind, forLoop, List.dropLast_concat]
  refine clauses.bind fun r hr => makes_element (getElem?_last us v) ?_
  refine (makes_loopBody hv (by omega)).bind fun b hb => makes_pure ?_
  simp only [Node.unplaced, hr, hb]

/-! ### Functions -/

/-- The trees of a function. -/
def functionParts (name : String) (params : List String) (isAsync : Bool) (body : Node) :
    List (Tree → Prop) :=
  (if isAsync then [Spells "async" "async".toList] else []) ++ Spells "name" name.toList ::
    (params.map (fun x => Spells "name" x.toList) ++ [Means ⟨some isAsync, false⟩ body])

theorem mapM_text {tag : String} {names : List String}
    (h : Meet (names.map fun x => Spells tag x.toList) ts) : ts.mapM Tree.text = .ok names := by
  induction names generalizing ts with
  | nil =>
    obtain rfl := h.none
    rfl
  | cons x xs ih =>
    obtain ⟨t, us, rfl, ht, hus⟩ := Meet.uncons h
    rw [List.mapM_cons, Spells.text ht, ih hus]
    rfl

theorem means_functionDecl {name : String} {params : List String} {isAsync : Bool}
    (h : Tagged "function-decl" (functionParts name params isAsync x) t) :
    Means p (.functionDecl l name params x isAsync) t := by
  refine h.means fun m ts fuel hm hts hf => ?_
  obtain ⟨mark, _, rfl, hmark, hrest⟩ := hts.split
  obtain ⟨u, _, rfl, hu, hrest⟩ := hrest.uncons
  obtain ⟨us, _, rfl, hus, hvs⟩ := Meet.split hrest
  obtain ⟨v, rfl, hv⟩ := hvs.one
  have hreach := (reaches_append_le mark (u :: (us ++ [v]))).2
  rw [reach.reaches] at hreach
  obtain ⟨fuel, rfl⟩ := Nat.exists_eq_add_of_le' (show 1 ≤ fuel by omega)
  -- at least the body comes behind the name
  obtain ⟨r, rs, hrs⟩ : ∃ r rs, us ++ [v] = r :: rs := by
    cases us with
    | nil => exact ⟨v, [], rfl⟩
    | cons w ws => exact ⟨w, ws ++ [v], rfl⟩
  have hlast := getElem?_last us v
  have hinit : (us ++ [v]).dropLast = us := List.dropLast_concat
  rw [hrs] at hlast hinit hreach hf
  have hbody : Makes p (inFunction isAsync (LedSketch.child fuel (r :: rs) ((r :: rs).length - 1)))
      fun m => m.unplaced = x.unplaced := makes_inFunction (makes_child hlast hv (by omega))
  have rest : Makes p (do
      let body ← inFunction isAsync (LedSketch.child fuel (r :: rs) ((r :: rs).length - 1))
      let word ← reading u.text
      return Node.functionDecl (locOf (node m (mark ++ u :: r :: rs))) word
        (← reading ((r :: rs).dropLast.mapM Tree.text)) body isAsync)
      fun m => m.unplaced = (Node.functionDecl l name params x isAsync).unplaced := by
    refine hbody.bind fun b hb => makes_reading hu.text ?_
    rw [hinit]
    exact makes_reading (mapM_text hus) (makes_pure (by simp only [Node.unplaced, hb]))
  rw [elaborateWithin.eq_def]
  simp only [tag_node, hm, children_node, reading_ok, pure_bind, LedSketch.functionDecl]
  cases isAsync with
  | true =>
    obtain ⟨w, rfl, hw⟩ := Meet.one hmark
    refine makes_element rfl (makes_reading hw.tag ?_)
    rw [hrs]
    exact rest
  | false =>
    obtain rfl := Meet.none hmark
    refine makes_element rfl (makes_reading hu.tag ?_)
    rw [hrs]
    exact rest

/-! ## Programs -/

/-- **The tree of a program** is elaborated to the program, places aside. -/
theorem elaborate_program (h : Tagged "program" (ns.map (Means ⟨none, false⟩)) t) :
    ∃ n, t.elaborate = .ok n ∧ n.unplaced = (Node.program l ns).unplaced := by
  obtain ⟨m, ts, rfl, hm, hts⟩ := h
  have hfuel : reach.reaches ts < reach.reaches ts + 3 := by omega
  obtain ⟨ms, hrun, hms⟩ := makes_all hts hfuel {} ⟨rfl, Int.le_refl 0, nofun⟩
  refine ⟨.program (locOf (node m ts)) ms, ?_, by simp only [Node.unplaced, hms]⟩
  rw [elaborate, reach, elaborateWithin.eq_def]
  simp only [tag_node, hm, children_node, reading_ok, pure_bind]
  simp only [StateT.run'_eq, StateT.run_bind, StateT.run_set, pure_bind, hrun]
  rfl

end LedSketch.Tree
