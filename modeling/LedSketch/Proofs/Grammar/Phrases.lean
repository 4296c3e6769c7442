import LedSketch.Proofs.Syntax.StatementVerdicts

/-!
# The trees of the grammar are phrases

Each rule of the grammar builds trees of one shape, and what each shape becomes is known. So the
trees of a source are phrases: they become nodes that can be run, or account for why they do not.

* `Phrases`: the trees of every rule.
* `builds_more`, `builds_node`: lists and nodes are built from the trees of their parts.
* `phrases_hostForm`: the grammar builds phrases, rule by rule.
-/

namespace LedSketch.Grammar

open LedSketch.Tree

/-- What the trees of a rule are. -/
def Phrases : Rule → List Tree → Prop
  | .blank, ts | .endOfStatement, ts => ts = []
  | .program, ts => ∃ (c d : Cursor) (us : List Tree), (∀ u ∈ us, u.Is .statement) ∧
    ts = [node (c.mark d "program") us]
  | .block, ts => ∃ t, t.Is .block ∧ ts = [t]
  | .varDecl, ts => ∃ t, t.Is .bindings ∧ ts = [t]
  | .declarator, ts => ∃ t, IsDeclarator t ∧ ts = [t]
  | .callArguments, ts | .memberAccess, ts | .indexAccess, ts => ∃ t, IsAccess t ∧ ts = [t]
  | .interpolation, ts => ∃ t, IsChunk t ∧ ts = [t]
  | .identifier, ts => ∃ t, IsName t ∧ ts = [t]
  | .expression, ts | .assignment, ts | .conditional, ts | .binary _, ts | .unary, ts
  | .postfixed, ts | .access, ts => ∃ t, t.Is .expression ∧ ts = [t]
  | .primary, ts | .group, ts | .array, ts | .string, ts | .template, ts =>
    ∃ t, (t.Is .expression ∧ t.isLink = false) ∧ ts = [t]
  | .item, ts | .statement, ts | .functionDecl, ts | .ifStatement, ts | .forStatement, ts
  | .whileStatement, ts | .doWhileStatement, ts | .returnStatement, ts
  | .expressionStatement, ts => ∃ t, t.Is .statement ∧ ts = [t]

variable {ts us : List Tree} {p : Peg Rule} {ps : List (Peg Rule)} {s : String} {P : Tree → Prop}

/-! ## Operators -/

theorem takes_level {l : Level} (h : l.operator.Takes s) :
    s ∈ HostText.binaryOperators ++ HostText.logicalOperators := by
  have one {r : String} (hr : r ∈ HostText.binaryOperators ++ HostText.logicalOperators)
      (h : s = r) : s ∈ HostText.binaryOperators ++ HostText.logicalOperators := h ▸ hr
  cases l with
  | logicalOr | logicalAnd => exact one (by decide) (takes_literal h)
  | bitOr | bitXor | bitAnd => exact one (by decide) (takes_notBefore h)
  | equality =>
    obtain ⟨m, hm, h⟩ := takes_firstOf h
    simp only [List.mem_cons, List.not_mem_nil, or_false] at hm
    rcases hm with rfl | rfl | rfl | rfl <;> exact one (by decide) (takes_literal h)
  | relational =>
    obtain ⟨m, hm, h⟩ := takes_firstOf h
    simp only [List.mem_cons, List.not_mem_nil, or_false] at hm
    rcases hm with rfl | rfl | rfl | rfl
    · exact one (by decide) (takes_literal h)
    · exact one (by decide) (takes_literal h)
    · exact one (by decide) (takes_notBefore h)
    · exact one (by decide) (takes_notBefore h)
  | shift | additive =>
    obtain ⟨m, hm, h⟩ := takes_firstOf h
    simp only [List.mem_cons, List.not_mem_nil, or_false] at hm
    rcases hm with rfl | rfl <;> exact one (by decide) (takes_notBefore h)
  | multiplicative =>
    obtain ⟨m, hm, h⟩ := takes_firstOf h
    simp only [List.mem_cons, List.not_mem_nil, or_false] at hm
    rcases hm with rfl | rfl | rfl <;> exact one (by decide) (takes_notBefore h)

theorem takes_assign (h : assignOperator.Takes s) : s ∈ HostText.assignOperators := by
  obtain ⟨m, hm, h⟩ := takes_firstOf h
  obtain ⟨r, hr, rfl⟩ := List.mem_map.mp hm
  rw [takes_notBefore h]
  exact (by decide : ∀ r ∈ (["", "<<", ">>", "-", "+", "*", "/", "%", "&", "|", "^"].map
    fun s => s ++ "="), r ∈ HostText.assignOperators) r hr

theorem takes_unary (h : unaryOperator.Takes s) : s ∈ frontOperators := by
  have one {r : String} (hr : r ∈ frontOperators) (h : s = r) : s ∈ frontOperators := h ▸ hr
  obtain ⟨m, hm, h⟩ := takes_firstOf h
  simp only [List.mem_cons, List.not_mem_nil, or_false] at hm
  rcases hm with rfl | rfl | rfl | rfl | rfl | rfl | rfl | rfl
  · exact one (by decide) (takes_literal h)
  · exact one (by decide) (takes_literal h)
  · exact one (by decide) (takes_literal h)
  · exact one (by decide) (takes_literal h)
  · exact one (by decide) (takes_literal h)
  · exact one (by decide) (takes_literal h)
  · exact one (by decide) (takes_word h)
  · exact one (by decide) (takes_word h)

/-- Blanks may come before an update operator. -/
theorem takes_update (h : updateOperator.Takes s) :
    String.ofList (Text.trim s.toList) ∈ HostText.updateOperators := by
  obtain ⟨cs, k, hk, rfl⟩ := h
  simp only [updateOperator, Lexeme.indented, Option.map_eq_some_iff] at hk
  obtain ⟨j, hj, rfl⟩ := hk
  obtain ⟨m, hm, hword⟩ := takes_firstOf ⟨_, j, hj, rfl⟩
  have hword : String.ofList ((cs.drop (runLength Text.isHorizontal cs)).take j) = "++" ∨
      String.ofList ((cs.drop (runLength Text.isHorizontal cs)).take j) = "--" := by
    simp only [List.mem_cons, List.not_mem_nil, or_false] at hm
    rcases hm with rfl | rfl
    · exact Or.inl (takes_literal hword)
    · exact Or.inr (takes_literal hword)
  have hspace : ∀ c ∈ cs.take (runLength Text.isHorizontal cs), Text.isSpace c = true := by
    rw [take_runLength]
    intro c hc
    have : c = ' ' ∨ c = '\t' := by simpa [Text.isHorizontal] using List.mem_takeWhile_imp hc
    rcases this with rfl | rfl <;> decide
  have htrim {r : String} (hr : (r.toList.all fun c => !Text.isSpace c) = true)
      (h : String.ofList ((cs.drop (runLength Text.isHorizontal cs)).take j) = r) :
      String.ofList (Text.trim (cs.take (runLength Text.isHorizontal cs + j))) = r := by
    have hlist := congrArg String.toList h
    rw [String.toList_ofList] at hlist
    have hmarks : ∀ c ∈ r.toList, Text.isSpace c = false := by simpa using hr
    have haround := Text.trim_around hspace (List.forall_mem_nil _) hmarks
    rw [List.append_nil] at haround
    rw [List.take_add, hlist, haround, String.ofList_toList]
  rw [String.toList_ofList]
  rcases hword with h | h
  · rw [htrim (by decide) h]
    decide
  · rw [htrim (by decide) h]
    decide

/-! ## Sequences -/

theorem buildsSeq_drop :
    BuildsSeq Phrases (.drop p :: ps) ts ↔ BuildsSeq Phrases ps ts := by
  simp [BuildsSeq, Builds]

theorem buildsSeq_blank :
    BuildsSeq Phrases (.rule .blank :: ps) ts ↔ BuildsSeq Phrases ps ts := by
  simp [BuildsSeq, Builds, Phrases]

/-- What holds of the trees of each part holds of those of a sequence. -/
theorem BuildsSeq.forall (h : BuildsSeq Phrases ps ts)
    (hp : ∀ p ∈ ps, ∀ us, Builds Phrases p us → ∀ t ∈ us, P t) : ∀ t ∈ ts, P t := by
  induction ps generalizing ts with
  | nil => rw [BuildsSeq] at h; simp [h]
  | cons p ps ih =>
    rw [BuildsSeq] at h
    obtain ⟨us, vs, hus, hvs, rfl⟩ := h
    intro t ht
    rcases List.mem_append.mp ht with ht | ht
    · exact hp p List.mem_cons_self us hus t ht
    · exact ih hvs (fun q hq => hp q (List.mem_cons_of_mem p hq)) t ht

/-- The trees of the last part come behind those of the others. -/
theorem BuildsSeq.last (ps : List (Peg Rule)) (h : BuildsSeq Phrases (ps ++ [p]) ts) :
    ∃ us vs, BuildsSeq Phrases ps us ∧ Builds Phrases p vs ∧ ts = us ++ vs := by
  induction ps generalizing ts with
  | nil => exact ⟨[], ts, by rw [BuildsSeq], by simpa [BuildsSeq] using h, rfl⟩
  | cons q ps ih =>
    rw [List.cons_append, BuildsSeq] at h
    obtain ⟨us, vs, hus, hvs, rfl⟩ := h
    obtain ⟨ws, xs, hws, hxs, rfl⟩ := ih hvs
    refine ⟨us ++ ws, xs, ?_, hxs, by rw [List.append_assoc]⟩
    rw [BuildsSeq]
    exact ⟨us, ws, hus, hws, rfl⟩

/-- Trees with commas between them. -/
theorem builds_more (hp : ∀ us, Builds Phrases p us → ∀ t ∈ us, P t)
    (h : Builds Phrases (moreBehindCommas p) ts) : ∀ t ∈ ts, P t := by
  refine h.many fun us hus => ?_
  simp only [Builds, punct, silent, blank, buildsSeq_blank, buildsSeq_drop] at hus
  refine hus.forall fun q hq => ?_
  obtain rfl := List.mem_singleton.mp hq
  exact hp

theorem builds_listed (hp : ∀ us, Builds Phrases p us → ∀ t ∈ us, P t)
    (h : Builds Phrases (.optional (.seq [p, moreBehindCommas p])) ts) : ∀ t ∈ ts, P t := by
  rw [Builds] at h
  rcases h with rfl | h
  · simp
  · rw [Builds] at h
    refine h.forall fun q hq => ?_
    simp only [List.mem_cons, List.not_mem_nil, or_false] at hq
    rcases hq with rfl | rfl
    · exact hp
    · exact fun us => builds_more hp

/-- Blanks build nothing. -/
theorem builds_blank : ∀ us, Builds Phrases blank us → ∀ t ∈ us, P t := by
  intro us hus
  rw [show us = [] by simpa only [blank, Builds, Phrases] using hus]
  exact List.forall_mem_nil _

/-- Punctuation and words of the language build nothing. -/
theorem builds_silent (m : Lexeme) : ∀ us, Builds Phrases (silent m) us → ∀ t ∈ us, P t := by
  intro us hus
  rw [show us = [] by simpa only [silent, Builds] using hus]
  exact List.forall_mem_nil _

/-- A rule that builds one tree. -/
theorem builds_rule {name : Rule} (h : ∀ us, Phrases name us ↔ ∃ t, P t ∧ us = [t]) :
    ∀ us, Builds Phrases (.rule name) us → ∀ t ∈ us, P t := by
  intro us hus
  rw [Builds, h] at hus
  obtain ⟨t, ht, rfl⟩ := hus
  simpa using ht

/-! ## Statements -/

/-- A node, and what its children are. -/
theorem builds_node {tag : String} (h : Builds Phrases (.node tag (.seq ps)) ts) :
    ∃ (c d : Cursor) (us : List Tree), BuildsSeq Phrases ps us ∧ ts = [node (c.mark d tag) us] := by
  simpa only [Builds] using h

/-- The items of a program. -/
theorem phrases_program (h : Builds Phrases (hostForm .program) ts) : Phrases .program ts := by
  obtain ⟨c, d, us, hus, rfl⟩ := builds_node h
  refine ⟨c, d, us, hus.forall fun q hq => ?_, rfl⟩
  simp only [List.mem_cons, List.not_mem_nil, or_false] at hq
  rcases hq with rfl | rfl
  · exact fun us hus => hus.many (builds_rule fun _ => Iff.rfl)
  · exact builds_blank

/-- The statements between the braces of a block. -/
theorem phrases_block (h : Builds Phrases (hostForm .block) ts) : Phrases .block ts := by
  obtain ⟨c, d, us, hus, rfl⟩ := builds_node h
  refine ⟨_, is_block (hus.forall fun q hq => ?_), rfl⟩
  simp only [List.mem_cons, List.not_mem_nil, or_false] at hq
  rcases hq with rfl | rfl | rfl | rfl
  · exact builds_silent _
  · exact fun us hus => hus.many (builds_rule fun _ => Iff.rfl)
  · exact builds_blank
  · exact builds_silent _

/-- The names between the parentheses of a function, and its body. -/
theorem phrases_functionDecl (h : Builds Phrases (hostForm .functionDecl) ts) :
    Phrases .functionDecl ts := by
  simp [hostForm, Builds, BuildsSeq, spaced, punct, keyword, silent, blank, Phrases,
    moreBehindCommas] at h
  obtain ⟨c, d, us, hus, rfl⟩ := h
  have hrest {x : List Tree} (hx : (∃ t, t.Is .block ∧ x = [t]) ∨ ∃ t, ∃ tss : List (List Tree),
      (t.IsName ∧ ∀ us ∈ tss, ∃ t, t.IsName ∧ us = [t]) ∧
        ∃ u, u.Is .block ∧ x = t :: (tss.flatten ++ [u])) :
      ∃ params body, (∀ u ∈ params, IsName u) ∧ body.Is .block ∧ x = params ++ [body] := by
    rcases hx with ⟨t, ht, rfl⟩ | ⟨t, tss, ⟨ht, htss⟩, u, hu, rfl⟩
    · exact ⟨[], t, by simp, ht, rfl⟩
    · refine ⟨t :: tss.flatten, u, ?_, hu, rfl⟩
      intro v hv
      rcases List.mem_cons.mp hv with rfl | hv
      · exact ht
      · obtain ⟨us, hus, hv⟩ := List.mem_flatten.mp hv
        obtain ⟨w, hw, rfl⟩ := htss us hus
        obtain rfl := List.mem_singleton.mp hv
        exact hw
  rcases hus with ⟨_, x, ⟨⟨a, b, rfl⟩, hx⟩, rfl⟩ | ⟨a', b', -, _, x, ⟨⟨a, b, rfl⟩, hx⟩, rfl⟩
  · obtain ⟨params, body, hparams, hbody, rfl⟩ := hrest hx
    exact ⟨_, is_functionDecl (Or.inl (rfl : ([] : List Tree) = [])) hparams hbody, rfl⟩
  · obtain ⟨params, body, hparams, hbody, rfl⟩ := hrest hx
    exact ⟨_, is_functionDecl (Or.inr ⟨a', b', rfl⟩) hparams hbody, rfl⟩

/-- A declaration has its kind in front of its declarators. -/
theorem phrases_varDecl (h : Builds Phrases (hostForm .varDecl) ts) : Phrases .varDecl ts := by
  obtain ⟨c, d, us, hus, rfl⟩ := builds_node h
  rw [BuildsSeq] at hus
  obtain ⟨_, us, hkind, hus, rfl⟩ := hus
  rw [Builds] at hkind
  obtain ⟨a, b, -, rfl⟩ := hkind
  refine ⟨_, is_bindings ?_, rfl⟩
  rw [blank, buildsSeq_blank] at hus
  refine hus.forall fun q hq => ?_
  simp only [List.mem_cons, List.not_mem_nil, or_false] at hq
  rcases hq with rfl | rfl
  · exact builds_rule fun _ => Iff.rfl
  · exact fun us => builds_more (builds_rule fun _ => Iff.rfl)

/-- A name, which may have a value. -/
theorem phrases_declarator (h : Builds Phrases (hostForm .declarator) ts) :
    Phrases .declarator ts := by
  obtain ⟨c, d, us, hus, rfl⟩ := builds_node h
  simp only [BuildsSeq, Builds, blank, silent, Phrases] at hus
  obtain ⟨_, _, ⟨_, ⟨a, b, rfl⟩, rfl⟩, ⟨us, _, hinit, rfl, rfl⟩, rfl⟩ := hus
  rcases hinit with rfl | hinit
  · exact ⟨_, .bare, rfl⟩
  · obtain ⟨u, hu, rfl⟩ : ∃ u, u.Is .expression ∧ us = [u] := by simpa using hinit
    exact ⟨_, .valued hu, rfl⟩

/-- A test, a statement, and perhaps another one. -/
theorem phrases_ifStatement (h : Builds Phrases (hostForm .ifStatement) ts) :
    Phrases .ifStatement ts := by
  simp [hostForm, Builds, BuildsSeq, spaced, inParens, punct, keyword, silent, blank,
    Phrases] at h
  obtain ⟨c, d, us, ⟨t, u, ⟨ht, hu⟩, hus⟩, rfl⟩ := h
  rcases hus with rfl | ⟨a, b, v, hv, rfl⟩
  · exact ⟨_, is_ifThen ht hu, rfl⟩
  · exact ⟨_, is_ifElse ht hu hv, rfl⟩

/-- The clauses of a loop, each of which may be missing, and its body. -/
theorem phrases_forStatement (h : Builds Phrases (hostForm .forStatement) ts) :
    Phrases .forStatement ts := by
  obtain ⟨c, d, us, hus, rfl⟩ := builds_node h
  -- the parts in front of the body build clauses only
  obtain ⟨clauses, body, hclauses, hbody, rfl⟩ : ∃ clauses body, (∀ u ∈ clauses, IsClause u) ∧
      body.Is .statement ∧ us = clauses ++ [body] := by
    obtain ⟨clauses, _, hclauses, hlast, rfl⟩ := hus.last [keyword "for", blank, punct "(",
      blank, .optional (.node "for-init" (.choice [.rule .varDecl, .rule .expression])), blank,
      punct ";", blank, .optional (.node "for-test" (.rule .expression)), blank, punct ";", blank,
      .optional (.node "for-update" (.rule .expression)), blank, punct ")", blank]
    obtain ⟨body, hbody, rfl⟩ : Phrases .statement _ := by rwa [Builds] at hlast
    refine ⟨clauses, body, hclauses.forall fun q hq => ?_, hbody, rfl⟩
    simp only [List.mem_cons, List.not_mem_nil, or_false] at hq
    rcases hq with rfl | rfl | rfl | rfl | rfl | rfl | rfl | rfl | rfl | rfl | rfl | rfl | rfl | rfl
      | rfl | rfl
    all_goals first
      | exact builds_blank
      | exact builds_silent _
      | skip
    · intro us hus
      simp [Builds, BuildsAny, Phrases] at hus
      rcases hus with rfl | ⟨c, d, _, (⟨t, ht, rfl⟩ | ⟨t, ht, rfl⟩), rfl⟩
      · simp
      · simpa using IsClause.bindings ht
      · simpa using IsClause.start ht
    · intro us hus
      simp [Builds, Phrases] at hus
      rcases hus with rfl | ⟨c, d, t, ht, rfl⟩
      · simp
      · simpa using IsClause.test ht
    · intro us hus
      simp [Builds, Phrases] at hus
      rcases hus with rfl | ⟨c, d, t, ht, rfl⟩
      · simp
      · simpa using IsClause.step ht
  exact ⟨_, is_forLoop hclauses hbody, rfl⟩

theorem phrases_whileStatement (h : Builds Phrases (hostForm .whileStatement) ts) :
    Phrases .whileStatement ts := by
  simp [hostForm, Builds, BuildsSeq, spaced, inParens, punct, keyword, silent, blank,
    Phrases] at h
  obtain ⟨c, d, t, u, ⟨ht, hu⟩, rfl⟩ := h
  exact ⟨_, is_whileLoop ht hu, rfl⟩

theorem phrases_doWhileStatement (h : Builds Phrases (hostForm .doWhileStatement) ts) :
    Phrases .doWhileStatement ts := by
  simp [hostForm, Builds, BuildsSeq, spaced, inParens, punct, keyword, silent, blank,
    Phrases, endOfStatement] at h
  obtain ⟨c, d, t, u, ⟨ht, hu⟩, rfl⟩ := h
  exact ⟨_, is_doWhile ht hu, rfl⟩

theorem phrases_returnStatement (h : Builds Phrases (hostForm .returnStatement) ts) :
    Phrases .returnStatement ts := by
  simp [hostForm, Builds, BuildsSeq, keyword, silent, Phrases, endOfStatement] at h
  obtain ⟨c, d, rfl | ⟨u, hu, rfl⟩⟩ := h
  · exact ⟨_, is_return (Or.inl rfl), rfl⟩
  · exact ⟨_, is_return (Or.inr ⟨u, rfl, hu⟩), rfl⟩

theorem phrases_expressionStatement (h : Builds Phrases (hostForm .expressionStatement) ts) :
    Phrases .expressionStatement ts := by
  simp [hostForm, Builds, BuildsSeq, Phrases, endOfStatement] at h
  obtain ⟨c, d, t, ht, rfl⟩ := h
  exact ⟨_, is_exprStmt ht, rfl⟩

/-- A statement is a block, a declaration or one of the other forms. -/
theorem phrases_statement (h : Builds Phrases (hostForm .statement) ts) :
    Phrases .statement ts := by
  simp only [hostForm, Builds, buildsAny_iff] at h
  obtain ⟨p, hp, h⟩ := h
  simp only [List.mem_cons, List.not_mem_nil, or_false] at hp
  rcases hp with rfl | rfl | rfl | rfl | rfl | rfl | rfl | rfl | rfl | rfl | rfl | rfl
  · obtain ⟨t, ht, rfl⟩ := h
    exact ⟨t, is_statement ht (Or.inl rfl), rfl⟩
  · exact h
  · simp only [Builds, BuildsSeq, endOfStatement, Phrases] at h
    obtain ⟨_, _, ⟨t, ht, rfl⟩, ⟨_, _, rfl, rfl, rfl⟩, rfl⟩ := h
    exact ⟨t, is_statement ht (Or.inr rfl), rfl⟩
  · exact h
  · exact h
  · exact h
  · exact h
  · exact h
  · rw [Builds] at h
    obtain ⟨c, d, -, rfl⟩ := h
    exact ⟨_, is_jump (by simp), rfl⟩
  · rw [Builds] at h
    obtain ⟨c, d, -, rfl⟩ := h
    exact ⟨_, is_jump (by simp), rfl⟩
  · rw [Builds] at h
    obtain ⟨c, d, -, rfl⟩ := h
    exact ⟨_, is_empty, rfl⟩
  · exact h

/-! ## Expressions -/

/-- Assignments with commas between them. -/
theorem phrases_expression (h : Builds Phrases (hostForm .expression) ts) :
    Phrases .expression ts := by
  obtain ⟨c, d, us, hus, rfl⟩ := builds_node h
  simp only [BuildsSeq] at hus
  obtain ⟨_, _, hfirst, ⟨tails, _, htails, rfl, rfl⟩, rfl⟩ := hus
  obtain ⟨t, ht, rfl⟩ : Phrases .assignment _ := by rwa [Builds] at hfirst
  refine ⟨_, is_folded (Or.inl rfl) ht ?_, rfl⟩
  rw [List.append_nil]
  refine htails.many fun us hus => ?_
  simp [blank, punct, silent, BuildsSeq, Builds, Phrases] at hus
  obtain ⟨c, d, x, hx, rfl⟩ := hus
  simpa using IsTail.comma hx

/-- An assignment has a target in front of its operator. -/
theorem phrases_assignment (h : Builds Phrases (hostForm .assignment) ts) :
    Phrases .assignment ts := by
  simp [hostForm, Builds, BuildsSeq, Phrases, op, blank] at h
  obtain ⟨c, d, _, ⟨t, ht, rfl | ⟨a, b, a', b', v, ⟨hop, hv⟩, rfl⟩⟩, rfl⟩ := h
  · exact ⟨_, is_alone (by simp) ht, rfl⟩
  · exact ⟨_, is_assignment ht (takes_assign hop) hv, rfl⟩

theorem phrases_conditional (h : Builds Phrases (hostForm .conditional) ts) :
    Phrases .conditional ts := by
  simp [hostForm, Builds, BuildsSeq, Phrases, punct, silent, blank] at h
  obtain ⟨c, d, _, ⟨t, ht, rfl | ⟨a, b, u, v, ⟨hu, hv⟩, rfl⟩⟩, rfl⟩ := h
  · exact ⟨_, is_alone (by simp) ht, rfl⟩
  · exact ⟨_, is_conditional ht hu hv, rfl⟩

/-- Operands with operators between them, at any level. -/
theorem phrases_binary {l : Level} (h : Builds Phrases (hostForm (.binary l)) ts) :
    Phrases (.binary l) ts := by
  have hoperand (us : List Tree) :
      Builds Phrases (operand l) us ↔ ∃ t, t.Is .expression ∧ us = [t] := by
    cases l <;> simp [operand, Level.tighter?, Builds, Phrases]
  obtain ⟨c, d, us, hus, rfl⟩ := builds_node h
  simp only [BuildsSeq, hoperand] at hus
  obtain ⟨_, _, ⟨t, ht, rfl⟩, ⟨tails, _, htails, rfl, rfl⟩, rfl⟩ := hus
  refine ⟨_, is_folded (Or.inr rfl) ht ?_, rfl⟩
  rw [List.append_nil]
  refine htails.many fun us hus => ?_
  simp [op, blank, BuildsSeq, Builds, hoperand, Phrases] at hus
  obtain ⟨c, d, a, b, x, ⟨hop, hx⟩, rfl⟩ := hus
  simpa using IsTail.operator (takes_level hop) hx

theorem phrases_unary (h : Builds Phrases (hostForm .unary) ts) : Phrases .unary ts := by
  simp [hostForm, Builds, BuildsSeq, BuildsAny, Phrases, op, blank] at h
  rcases h with ⟨c, d, a, b, t, ⟨hop, ht⟩, rfl⟩ | h
  · exact ⟨_, is_unary (takes_unary hop) ht, rfl⟩
  · exact h

theorem phrases_postfixed (h : Builds Phrases (hostForm .postfixed) ts) :
    Phrases .postfixed ts := by
  simp [hostForm, Builds, BuildsSeq, Phrases, op] at h
  obtain ⟨c, d, _, ⟨t, ht, rfl | ⟨a, b, hop, rfl⟩⟩, rfl⟩ := h
  · exact ⟨_, is_alone (by simp) ht, rfl⟩
  · exact ⟨_, is_postfix ht (takes_update hop), rfl⟩

/-- What an access starts with, and its links. -/
theorem phrases_access (h : Builds Phrases (hostForm .access) ts) : Phrases .access ts := by
  obtain ⟨c, d, us, hus, rfl⟩ := builds_node h
  simp only [BuildsSeq] at hus
  obtain ⟨_, _, hfirst, ⟨links, _, hlinks, rfl, rfl⟩, rfl⟩ := hus
  obtain ⟨t, ⟨ht, hlink⟩, rfl⟩ : Phrases .primary _ := by rwa [Builds] at hfirst
  refine ⟨_, is_access ht hlink ?_, rfl⟩
  rw [List.append_nil]
  refine hlinks.many fun us hus => ?_
  simp [Builds, BuildsAny, Phrases] at hus
  obtain ⟨u, hu, rfl⟩ := hus
  simpa using hu

/-- The arguments between the parentheses of a call. -/
theorem phrases_callArguments (h : Builds Phrases (hostForm .callArguments) ts) :
    Phrases .callArguments ts := by
  obtain ⟨c, d, us, hus, rfl⟩ := builds_node h
  refine ⟨_, .call (hus.forall fun q hq => ?_), rfl⟩
  simp only [List.mem_cons, List.not_mem_nil, or_false] at hq
  rcases hq with rfl | rfl | rfl | rfl | rfl | rfl
  · exact builds_blank
  · exact builds_silent _
  · exact builds_blank
  · exact fun us => builds_listed (builds_rule fun _ => Iff.rfl)
  · exact builds_blank
  · exact builds_silent _

theorem phrases_memberAccess (h : Builds Phrases (hostForm .memberAccess) ts) :
    Phrases .memberAccess ts := by
  simp [hostForm, Builds, BuildsSeq, Phrases, punct, silent, blank] at h
  obtain ⟨c, d, a, b, -, rfl⟩ := h
  exact ⟨_, .member, rfl⟩

theorem phrases_indexAccess (h : Builds Phrases (hostForm .indexAccess) ts) :
    Phrases .indexAccess ts := by
  simp [hostForm, Builds, BuildsSeq, Phrases, punct, silent, blank] at h
  obtain ⟨c, d, t, ht, rfl⟩ := h
  exact ⟨_, .index ht, rfl⟩

/-- What an access starts with. -/
theorem phrases_primary (h : Builds Phrases (hostForm .primary) ts) : Phrases .primary ts := by
  simp only [hostForm, Builds, buildsAny_iff] at h
  obtain ⟨p, hp, h⟩ := h
  have literal {tag : String} (htag : tag ∈ literalTags) {q : Peg Rule}
      (h : Builds Phrases (.leaf tag q) ts) : Phrases .primary ts := by
    rw [Builds] at h
    obtain ⟨c, d, -, rfl⟩ := h
    exact ⟨_, ⟨is_literal htag, rfl⟩, rfl⟩
  simp only [List.mem_cons, List.not_mem_nil, or_false] at hp
  rcases hp with rfl | rfl | rfl | rfl | rfl | rfl | rfl | rfl | rfl
  · rw [Builds] at h
    obtain ⟨c, d, htext, rfl⟩ := h
    exact ⟨_, ⟨is_number htext, rfl⟩, rfl⟩
  · exact h
  · exact h
  · exact literal (by decide) h
  · exact literal (by decide) h
  · exact literal (by decide) h
  · exact h
  · exact h
  · obtain ⟨_, ⟨a, b, rfl⟩, rfl⟩ := h
    exact ⟨_, ⟨is_name, rfl⟩, rfl⟩

theorem phrases_group (h : Builds Phrases (hostForm .group) ts) : Phrases .group ts := by
  simp [hostForm, Builds, BuildsSeq, Phrases, spaced, inParens, punct, silent, blank] at h
  obtain ⟨c, d, t, ht, rfl⟩ := h
  exact ⟨_, ⟨is_group ht, rfl⟩, rfl⟩

/-- The items between the brackets of an array. -/
theorem phrases_array (h : Builds Phrases (hostForm .array) ts) : Phrases .array ts := by
  obtain ⟨c, d, us, hus, rfl⟩ := builds_node h
  refine ⟨_, ⟨is_array (hus.forall fun q hq => ?_), rfl⟩, rfl⟩
  have item : ∀ us, Builds Phrases (.rule .assignment) us → ∀ t ∈ us, t.Is .expression :=
    builds_rule fun _ => Iff.rfl
  simp only [List.mem_cons, List.not_mem_nil, or_false] at hq
  rcases hq with rfl | rfl | rfl | rfl | rfl
  · exact builds_silent _
  · exact builds_blank
  · intro us hus
    rw [Builds] at hus
    rcases hus with rfl | hus
    · simp
    rw [Builds] at hus
    refine hus.forall fun q hq => ?_
    simp only [List.mem_cons, List.not_mem_nil, or_false] at hq
    rcases hq with rfl | rfl | rfl
    · exact item
    · exact fun us => builds_more item
    · simp [silent, Builds]
  · exact builds_blank
  · exact builds_silent _

/-- The chunks between the marks of a template. -/
theorem phrases_template (h : Builds Phrases (hostForm .template) ts) : Phrases .template ts := by
  obtain ⟨c, d, us, hus, rfl⟩ := builds_node h
  refine ⟨_, ⟨is_template (hus.forall fun q hq => ?_), rfl⟩, rfl⟩
  simp only [List.mem_cons, List.not_mem_nil, or_false] at hq
  rcases hq with rfl | rfl | rfl
  · exact builds_silent _
  · refine fun us hus => hus.many fun us hus => ?_
    simp [Builds, BuildsAny, Phrases] at hus
    rcases hus with ⟨c, d, -, rfl⟩ | ⟨t, ht, rfl⟩
    · simpa using IsChunk.text
    · simpa using ht
  · exact builds_silent _

theorem phrases_interpolation (h : Builds Phrases (hostForm .interpolation) ts) :
    Phrases .interpolation ts := by
  simp [hostForm, Builds, BuildsSeq, Phrases, punct, silent, blank] at h
  obtain ⟨c, d, t, ht, rfl⟩ := h
  exact ⟨_, .interpolation ht, rfl⟩

/-! ## All rules -/

/-- **The rules build phrases**, if the rules that they refer to do. -/
theorem phrases_hostForm (name : Rule) (ts : List Tree)
    (h : Builds Phrases (hostForm name) ts) : Phrases name ts := by
  cases name with
  | blank | endOfStatement => simpa only [hostForm, silent, Builds, Phrases] using h
  | program => exact phrases_program h
  | item => simpa [hostForm, blank, Builds, buildsSeq_blank, BuildsSeq, Phrases] using h
  | statement => exact phrases_statement h
  | block => exact phrases_block h
  | functionDecl => exact phrases_functionDecl h
  | varDecl => exact phrases_varDecl h
  | declarator => exact phrases_declarator h
  | ifStatement => exact phrases_ifStatement h
  | forStatement => exact phrases_forStatement h
  | whileStatement => exact phrases_whileStatement h
  | doWhileStatement => exact phrases_doWhileStatement h
  | returnStatement => exact phrases_returnStatement h
  | expressionStatement => exact phrases_expressionStatement h
  | expression => exact phrases_expression h
  | assignment => exact phrases_assignment h
  | conditional => exact phrases_conditional h
  | binary l => exact phrases_binary h
  | unary => exact phrases_unary h
  | postfixed => exact phrases_postfixed h
  | access => exact phrases_access h
  | callArguments => exact phrases_callArguments h
  | memberAccess => exact phrases_memberAccess h
  | indexAccess => exact phrases_indexAccess h
  | primary => exact phrases_primary h
  | group => exact phrases_group h
  | array => exact phrases_array h
  | string =>
    simp only [hostForm, Builds] at h
    obtain ⟨c, d, -, rfl⟩ := h
    exact ⟨_, ⟨is_literal (by decide), rfl⟩, rfl⟩
  | template => exact phrases_template h
  | interpolation => exact phrases_interpolation h
  | identifier =>
    simp only [hostForm, Builds] at h
    obtain ⟨c, d, -, rfl⟩ := h
    exact ⟨_, ⟨c, d, rfl⟩, rfl⟩

end LedSketch.Grammar
