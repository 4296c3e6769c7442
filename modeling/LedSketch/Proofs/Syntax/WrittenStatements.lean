import LedSketch.Proofs.Syntax.Statements

/-!
# Written statements are read back

The text of a statement that obeys the static rules is read as a statement, and the tree means the
statement: there is one lemma for each kind of statement, about parts that are read back themselves.

* `line_statement`: all statements are read back.
-/

namespace LedSketch.HostText

open Text Scan Scanner Dialect Grammar Lexeme LedSketch.Tree

variable {cs ds es w : List Char} {s op name : String} {c : Char} {p : Setting} {loose : Bool}
  {n x y z : Node} {ns ms : List Node} {l l' l'' : Option Loc} {q : Peg Rule}
  {Ps : List (Tree → Prop)}

/-! ## Ends of statements and words -/

theorem reads_end (ds : List Char) : Reads endOfStatement (';' :: ds) ds [] := by
  have : endOfStatement? (';' :: ds) = some 1 := by
    rw [endOfStatement?]
    · rfl
    all_goals simp
  have token : Reads (hostForm .endOfStatement) (';' :: ds) ds [] := (reads_token this).drop
  exact token.rule

theorem stopsRun_semicolon (cs : List Char) : StopsRun isNameChar (';' :: cs) :=
  stopsRun_cons (isNameChar_of_isAsciiMark (by decide)) cs

/-- **A statement with a word of its own** is read as a statement. -/
theorem reads_word {k : Nat} {ws : List String} (s : String) (hk : headed[k]? = some (q, ws))
    (hw : isName s.toList = true ∧ ∀ t ∈ ((headed.take k).map Prod.snd).flatten, s ≠ t)
    (hds : StopsRun isNameChar ds) (h : Reads q (s.toList ++ ds) es Ps) :
    Reads (.rule .statement) (s.toList ++ ds) es Ps := by
  refine reads_headed hk (solid_name hw.1 ds) (literal_name hw.1 rfl (by decide) ds)
    (fun t ht => ?_) h
  have all : ∀ t ∈ (headed.map Prod.snd).flatten, isName t.toList = true := by decide
  refine word_other hw.1 hds (all t ?_) fun he => hw.2 t ht (String.toList_inj.mp he)
  obtain ⟨ts, hts, ht⟩ := List.mem_flatten.mp ht
  exact List.mem_flatten.mpr ⟨ts, List.map_subset _ (List.take_subset k headed) hts, ht⟩

/-- A statement whose text is known in front of what comes behind it. -/
theorem line_of_text (f : List Char → List Char)
    (htext : ∀ ds, n.text loose ++ n.terminator ++ ds = f ds) (hs : ∀ ds, Starts (f ds))
    (hr : ∀ ds, Unelse ds → Reads (.rule .statement) (f ds) ds [Means p n]) : Line p loose n where
  starts ds := by
    rw [htext]
    exact hs ds
  reads ds hd := by
    rw [htext]
    exact hr ds hd

/-! ## Small statements -/

theorem line_expression (hx : Written p loose x) : Line p loose (.exprStmt l x) := by
  refine line_of_text (fun ds => x.text loose ++ ';' :: ds) (fun ds => List.append_assoc _ [';'] ds)
    (fun ds => (hx.opens _ (ends_semicolon ds)).starts) fun ds _ => ?_
  have hend := ends_semicolon ds
  have parts := (hx.reads _ hend).cons ((reads_end ds).cons (reads_nil ds))
  have statement : Reads (.rule .expressionStatement) _ ds [Means p (.exprStmt l x)] :=
    .rule ((parts.node "expr-stmt").mono fun _ => means_exprStmt)
  exact reads_expressionStatement (hx.opens _ hend) statement

theorem line_empty : Line p loose (.empty l) := by
  refine line_of_text (fun ds => ';' :: ds) (fun ds => rfl)
    (fun ds => starts_mark (by decide) (by decide) (by decide) ds) fun ds _ => ?_
  have hsolid : Solid (';' :: ds) := solid_cons (by decide) (by decide) ds
  have lexeme : literal ";" ([';'] ++ ds) = some [';'].length := literal_append ";" ds
  refine .rule ?_
  rw [statement_eq]
  refine Reads.among (((reads_lexeme lexeme).leaf "empty").mono fun _ => means_empty) _ _
    (refuses_heads hsolid rfl fun s hs => word_mark (isName_statementWords s hs) (by decide) ds)

/-- A word and the end of the statement. -/
theorem reads_wordStatement (s : String) (ds : List Char) (tag : String) :
    Reads (.leaf tag (.seq [.token (word s), endOfStatement])) (s.toList ++ ';' :: ds) ds
      [Spells tag (s.toList ++ [';'])] := by
  have parts := (reads_lexeme (word_append s (stopsRun_semicolon ds))).cons
    ((reads_end ds).cons (reads_nil ds))
  have htext : (s.toList ++ [';']) ++ ds = s.toList ++ ';' :: ds := List.append_assoc _ [';'] ds
  rw [← htext] at parts ⊢
  exact parts.leaf tag

theorem line_break (hl : p.looping = true) : Line p loose (.breakStmt l) :=
  line_of_text (fun ds => "break".toList ++ ';' :: ds) (fun ds => List.append_assoc _ [';'] ds)
    (fun ds => starts_word (by decide) (by decide) (stopsRun_semicolon ds)) fun ds _ =>
    reads_word "break" (k := 7) rfl (by decide) (stopsRun_semicolon ds)
      ((reads_wordStatement "break" ds "break").mono fun _ => means_break hl)

theorem line_continue (hl : p.looping = true) : Line p loose (.continueStmt l) :=
  line_of_text (fun ds => "continue".toList ++ ';' :: ds) (fun ds => List.append_assoc _ [';'] ds)
    (fun ds => starts_word (by decide) (by decide) (stopsRun_semicolon ds)) fun ds _ =>
    reads_word "continue" (k := 8) rfl (by decide) (stopsRun_semicolon ds)
      ((reads_wordStatement "continue" ds "continue").mono fun _ => means_continue hl)

/-- What comes behind a word, if it is an expression on the same line. -/
theorem sameLine?_space (h : Opens cs) : sameLine? (' ' :: cs) = some 1 := by
  obtain ⟨c, es, rfl, hw, hc⟩ := h.head
  simp only [List.mem_cons, List.not_mem_nil, or_false, not_or] at hc
  have hline : isHorizontal c = false := by
    rw [← Bool.not_eq_true]
    intro hline
    rw [isHorizontal, Bool.or_eq_true, beq_iff_eq, beq_iff_eq] at hline
    rcases hline with rfl | rfl <;> exact absurd hw (by decide)
  have hrun : runLength isHorizontal (' ' :: c :: es) = 1 := by
    rw [runLength, List.takeWhile_cons_of_pos rfl, List.takeWhile_cons_of_neg (by simp [hline])]
    rfl
  rw [sameLine?, hrun]
  simp [startsWith, hw, hc]

theorem line_return {value : Option Node} (hf : p.function ≠ none)
    (hv : ∀ n ∈ value, Written p loose n) : Line p loose (.returnStmt l value) := by
  cases value with
  | none =>
    refine line_of_text (fun ds => "return".toList ++ ';' :: ds)
      (fun ds => List.append_assoc _ [';'] ds)
      (fun ds => starts_word (by decide) (by decide) (stopsRun_semicolon ds)) fun ds _ => ?_
    have hnone : sameLine? (';' :: ds) = none := rfl
    have parts := (reads_keyword "return" (stopsRun_semicolon ds)).cons <|
      (Refuses.optional ((refuses_token hnone).drop.first [.rule .expression])).cons <|
      (reads_end ds).cons (reads_nil ds)
    have node : Reads (hostForm .returnStatement) _ ds
      [Tagged "return" ((none : Option Node).toList.map (Means p))] := parts.node "return"
    have statement := Reads.rule (node.mono fun _ => means_return (l := l) hf)
    exact reads_word "return" (k := 6) rfl (by decide) (stopsRun_semicolon ds) statement
  | some x =>
    have hx := hv x rfl
    refine line_of_text (fun ds => "return".toList ++ ' ' :: (x.text loose ++ ';' :: ds)) (fun ds => ?_)
      (fun ds => starts_word (by decide) (by decide) (stopsRun_space _)) fun ds _ => ?_
    · show ("return ".toList ++ x.text loose ++ [';']) ++ ds = _
      rw [List.append_assoc, List.append_assoc]
      rfl
    · have hend := ends_semicolon ds
      have value := (reads_token (sameLine?_space (hx.opens _ hend))).drop.cons
        ((hx.reads _ hend).cons (reads_nil _))
      have parts := (reads_keyword "return" (stopsRun_space _)).cons <|
        value.optional.cons ((reads_end ds).cons (reads_nil ds))
      have node : Reads (hostForm .returnStatement) _ ds
        [Tagged "return" ((some x).toList.map (Means p))] := parts.node "return"
      have statement := Reads.rule (node.mono fun _ => means_return (l := l) hf)
      exact reads_word "return" (k := 6) rfl (by decide) (stopsRun_space _) statement

/-! ## Declarations -/

/-- The text of a declaration. -/
def declared (loose : Bool) (d : String × Option Node) : List Char :=
  d.1.toList ++ match d.2 with
    | none => []
    | some n => ' ' :: '=' :: ' ' :: parens (n.text loose)

theorem declarationTexts_eq (loose : Bool) (ds : List (String × Option Node)) :
    Node.declarationTexts loose ds = ds.map (declared loose) := by
  induction ds with
  | nil => rfl
  | cons d ds ih =>
    obtain ⟨name, init⟩ := d
    cases init with
    | none => rw [Node.declarationTexts, ih, List.map_cons, declared, List.append_nil]
    | some n => rw [Node.declarationTexts, ih, List.map_cons, declared]

theorem reads_declarator {d : String × Option Node} (hn : IsIdentifier d.1)
    (hi : ∀ n ∈ d.2, Written p loose n) (hd : Closing ds) :
    Reads (.rule .declarator) (declared loose d ++ ds) ds [MeansDeclaration p d] := by
  obtain ⟨name, init⟩ := d
  cases init with
  | none =>
    have hsolid := solid_closing hd
    have none : notBefore "=" "=" (behindGap ds) = none := by
      rw [hsolid]
      exact hd.cases (fun _ => rfl) (fun _ => rfl) (fun _ => rfl) (fun _ => rfl) fun _ => rfl
    have parts := (reads_identifier hn hd.stopsRun).cons
      ((Refuses.optional (refuses_spaced (refuses_token none).drop
        [blank, .rule .assignment])).cons (reads_nil ds))
    rw [declared, List.append_nil]
    exact .rule (parts.node "declarator")
  | some n =>
    have hsolid : Solid ('=' :: ' ' :: (parens (n.text loose) ++ ds)) :=
      solid_cons (by decide) (by decide) _
    have init := (reads_blank (behindGap_space hsolid)).cons <|
      (reads_token (m := notBefore "=" "=") rfl).drop.cons <| (reads_space _ ds).cons <|
      ((hi n rfl).assignment (unassigned_closing hd)).cons (reads_nil ds)
    have parts := (reads_identifier hn (stopsRun_space _)).cons (init.optional.cons (reads_nil ds))
    rw [declared, List.append_assoc]
    exact .rule (parts.node "declarator")

/-- A declaration of names, up to its end. -/
theorem reads_varDecl {kind : String} {decls : List (String × Option Node)}
    (hk : kind ∈ ["let", "const", "var"]) (hne : decls ≠ []) (hn : ∀ d ∈ decls, IsIdentifier d.1)
    (hi : ∀ d ∈ decls, ∀ n ∈ d.2, Written p loose n)
    (hc : kind = "const" → ∀ d ∈ decls, d.2 ≠ none) (hd : Ends ds) :
    Reads (.rule .varDecl) (kind.toList ++ ' ' :: (listed (decls.map (declared loose)) ++ ds)) ds
      [Means p (.varDecl l kind decls)] := by
  have hspace := stopsRun_space (listed (decls.map (declared loose)) ++ ds)
  have hword : firstOf [word "let", word "const", word "var"]
      (kind.toList ++ ' ' :: (listed (decls.map (declared loose)) ++ ds))
        = some kind.toList.length := by
    have other {s t : String} (h : isName s.toList = true ∧ isName t.toList = true ∧
        t.toList ≠ s.toList) := word_other h.2.1 hspace h.1 h.2.2
    simp only [List.mem_cons, List.not_mem_nil, or_false] at hk
    simp only [firstOf, List.findSome?_cons]
    rcases hk with rfl | rfl | rfl
    · rw [word_append "let" hspace]
    · rw [other (by decide), word_append "const" hspace]
    · rw [other (by decide), other (by decide), word_append "var" hspace]
  obtain ⟨d, decls, rfl⟩ := List.exists_cons_of_ne_nil hne
  have hlisted := reads_listed (P := MeansDeclaration p)
    (fun d hd es => reads_declarator (hn d hd) (hi d hd))
    (fun d hd es => by
      rw [declared, List.append_assoc]
      exact solid_name (hn d hd).1 _) hd (reads_nil ds)
  have hsolid : Solid (listed ((d :: decls).map (declared loose)) ++ ds) := by
    rw [List.map_cons, listed, declared, List.append_assoc, List.append_assoc]
    exact solid_name (hn d List.mem_cons_self).1 _
  have parts := ((reads_lexeme hword).leaf "var-kind").cons <|
    (reads_blank (behindGap_space hsolid)).cons hlisted
  exact .rule ((parts.node "var-decl").mono fun _ => means_varDecl hc)

/-- What may stand in front of a loop is a statement. -/
theorem line_initializer (h : Initializer p.waits n) (loose : Bool) : Line p loose n := by
  cases h with
  | expression hx => exact line_expression (written_expression hx loose).1
  | @declaration l kind decls hk hne hn hi hc =>
    refine line_of_text
      (fun ds => kind.toList ++ ' ' :: (listed (decls.map (declared loose)) ++ ';' :: ds))
      (fun ds => ?_) (fun ds => ?_) fun ds _ => ?_
    · show (kind.toList ++ ' ' :: listed (Node.declarationTexts loose decls) ++ [';']) ++ ds = _
      rw [declarationTexts_eq, List.append_assoc, List.append_assoc, List.cons_append]
      rfl
    · simp only [List.mem_cons, List.not_mem_nil, or_false] at hk
      rcases hk with rfl | rfl | rfl <;>
        exact starts_word (by decide) (by decide) (stopsRun_space _)
    · have decl := reads_varDecl (l := l) hk hne hn
        (fun d hd n hn => (written_expression (hi d hd n hn) loose).1) hc (ends_semicolon ds)
      have parts := decl.cons ((reads_end ds).cons (reads_nil ds))
      simp only [List.mem_cons, List.not_mem_nil, or_false] at hk
      rcases hk with rfl | rfl | rfl
      all_goals exact reads_word _ (k := 1) rfl (by decide) (stopsRun_space _) parts

/-! ## Branches and loops -/

/-- A word, a test in parentheses and a block. -/
theorem reads_guarded {p' : Setting} (s : String) (hx : Written p loose x)
    (h : ∀ n ∈ ns, Line p' loose n) (ds : List Char) :
    Reads (spaced (keyword s :: inParens (.rule .expression) ++ [.rule .statement]))
      (s.toList ++ ' ' :: (parens (x.text loose) ++ ' ' :: ((Node.block l ns).text loose ++ ds))) ds
      [Means p x, Means p' (.block l ns)] := by
  have hsolid : Solid ((Node.block l ns).text loose ++ ds) := solid_cons (by decide) (by decide) _
  have hspace := reads_space (x.text loose) (' ' :: ((Node.block l ns).text loose ++ ds))
  rw [parens_append] at hspace ⊢
  have hend := ends_paren (' ' :: ((Node.block l ns).text loose ++ ds))
  exact (reads_keyword s (stopsRun_space _)).cons <| hspace.cons <| (reads_punct "(" _).cons <|
    (reads_blank (hx.opens _ hend).solid).cons <| (hx.reads _ hend).cons <|
    (reads_blank (solid_closing hend.closing)).cons <| (reads_punct ")" _).cons <|
    (reads_blank (behindGap_space hsolid)).cons ((reads_body h ds).cons (reads_nil ds))

theorem line_ifThen (hx : Written p loose x) (h : ∀ n ∈ ns, Line p loose n) :
    Line p loose (.ifElse l x (.block l' ns) none) := by
  refine line_of_text (fun ds => "if".toList ++ ' ' :: (parens (x.text loose) ++
    ' ' :: ((Node.block l' ns).text loose ++ ds))) (fun ds => ?_)
    (fun ds => starts_word (by decide) (by decide) (stopsRun_space _)) fun ds hd => ?_
  · show ("if ".toList ++ parens _ ++ ' ' :: (Node.block l' ns).text loose ++ []) ++ [] ++ ds = _
    simp only [List.append_nil, List.append_assoc, List.cons_append]
    rfl
  · have other : Reads (.optional (.node "else" (.seq [blank, keyword "else", blank,
        .rule .statement]))) ds ds [] :=
      Refuses.optional ((refuses_spaced (refuses_keyword hd) _).node _)
    have parts := (reads_guarded (l := l') "if" hx h ds).cons (other.cons (reads_nil ds))
    have statement : Reads (.rule .ifStatement) _ ds [Means p (.ifElse l x (.block l' ns) none)] :=
      .rule ((parts.node "if").mono fun _ => means_ifThen)
    exact reads_word "if" (k := 2) rfl (by decide) (stopsRun_space _) statement

theorem line_ifElse (hx : Written p loose x) (h : ∀ n ∈ ns, Line p loose n)
    (h' : ∀ n ∈ ms, Line p loose n) :
    Line p loose (.ifElse l x (.block l' ns) (some (.block l'' ms))) := by
  refine line_of_text (fun ds => "if".toList ++ ' ' :: (parens (x.text loose) ++
    ' ' :: ((Node.block l' ns).text loose ++ ' ' :: ("else".toList ++
    ' ' :: ((Node.block l'' ms).text loose ++ ds))))) (fun ds => ?_)
    (fun ds => starts_word (by decide) (by decide) (stopsRun_space _)) fun ds _ => ?_
  · show ("if ".toList ++ parens _ ++ ' ' :: (Node.block l' ns).text loose ++ (" else ".toList ++
      (Node.block l'' ms).text loose)) ++ [] ++ ds = _
    simp only [List.append_nil, List.append_assoc, List.cons_append]
    rfl
  · have hsolid : Solid ((Node.block l'' ms).text loose ++ ds) :=
      solid_cons (by decide) (by decide) _
    have helse : Solid ("else".toList ++ ' ' :: ((Node.block l'' ms).text loose ++ ds)) :=
      solid_name (by decide) _
    have other := (reads_blank (behindGap_space helse)).cons <|
      (reads_keyword "else" (stopsRun_space _)).cons <|
      (reads_blank (behindGap_space hsolid)).cons ((reads_body h' ds).cons (reads_nil ds))
    have parts := (reads_guarded (l := l') "if" hx h _).cons
      ((other.node "else").optional.cons (reads_nil ds))
    have statement : Reads (.rule .ifStatement) _ ds
        [Means p (.ifElse l x (.block l' ns) (some (.block l'' ms)))] :=
      .rule ((parts.node "if").mono fun _ => means_ifElse)
    exact reads_word "if" (k := 2) rfl (by decide) (stopsRun_space _) statement

theorem line_while (hx : Written p loose x)
    (h : ∀ n ∈ ns, Line { p with looping := true } loose n) :
    Line p loose (.whileLoop l x (.block l' ns)) := by
  refine line_of_text (fun ds => "while".toList ++ ' ' :: (parens (x.text loose) ++
    ' ' :: ((Node.block l' ns).text loose ++ ds))) (fun ds => ?_)
    (fun ds => starts_word (by decide) (by decide) (stopsRun_space _)) fun ds _ => ?_
  · show ("while ".toList ++ parens _ ++ ' ' :: (Node.block l' ns).text loose) ++ [] ++ ds = _
    simp only [List.append_nil, List.append_assoc, List.cons_append]
    rfl
  · have statement : Reads (.rule .whileStatement) _ ds
        [Means p (.whileLoop l x (.block l' ns))] :=
      .rule (((reads_guarded "while" hx h ds).node "while").mono fun _ => means_while)
    exact reads_word "while" (k := 4) rfl (by decide) (stopsRun_space _) statement

theorem line_doWhile (hx : Written p loose x)
    (h : ∀ n ∈ ns, Line { p with looping := true } loose n) :
    Line p loose (.doWhile l (.block l' ns) x) := by
  refine line_of_text (fun ds => "do".toList ++ ' ' :: ((Node.block l' ns).text loose ++
    ' ' :: ("while".toList ++ ' ' :: (parens (x.text loose) ++ ';' :: ds)))) (fun ds => ?_)
    (fun ds => starts_word (by decide) (by decide) (stopsRun_space _)) fun ds _ => ?_
  · show ("do ".toList ++ (Node.block l' ns).text loose ++ " while ".toList ++ parens _) ++ [';']
      ++ ds = _
    simp only [List.append_assoc, List.cons_append]
    rfl
  · have hspace := reads_space (x.text loose) (';' :: ds)
    rw [parens_append] at hspace ⊢
    have hend := ends_paren (';' :: ds)
    have hwhile : Solid ("while".toList ++ ' ' :: '(' :: (x.text loose ++ ')' :: ';' :: ds)) :=
      solid_name (by decide) _
    have hbody : Solid ((Node.block l' ns).text loose ++ ' ' :: ("while".toList ++
      ' ' :: '(' :: (x.text loose ++ ')' :: ';' :: ds))) := solid_cons (by decide) (by decide) _
    have inner := (reads_keyword "do" (stopsRun_space _)).cons <|
      (reads_blank (behindGap_space hbody)).cons <| (reads_body h _).cons <|
      (reads_blank (behindGap_space hwhile)).cons <|
      (reads_keyword "while" (stopsRun_space _)).cons <| hspace.cons <| (reads_punct "(" _).cons <|
      (reads_blank (hx.opens _ hend).solid).cons <| (hx.reads _ hend).cons <|
      (reads_blank (solid_closing hend.closing)).cons ((reads_punct ")" _).cons (reads_nil _))
    have parts := inner.cons ((reads_end ds).optional.cons (reads_nil ds))
    have statement : Reads (.rule .doWhileStatement) _ ds
        [Means p (.doWhile l (.block l' ns) x)] :=
      .rule ((parts.node "do-while").mono fun _ => means_doWhile)
    exact reads_word "do" (k := 5) rfl (by decide) (stopsRun_space _) statement

/-- A clause of a loop that may be missing. -/
theorem reads_clause (tag : String) {m : Option Node} (hm : ∀ n ∈ m, Written p loose n)
    (hd : Ends ds) : Solid (Node.clauseText loose m ++ ds) ∧
      Reads (.optional (.node tag (.rule .expression))) (Node.clauseText loose m ++ ds) ds
        (clause tag p m) := by
  cases m with
  | none =>
    exact ⟨solid_closing hd.closing, ((void_ends hd).expression.node tag).optional⟩
  | some x =>
    have hx := hm x rfl
    exact ⟨(hx.opens ds hd).solid, ((hx.reads ds hd).node tag).optional⟩

/-- What stands in front of a loop, or nothing. -/
theorem reads_init {init : Option Node} (hi : ∀ n ∈ init, Initializer p.waits n) (loose : Bool)
    (hd : Ends ds) : Solid (Node.clauseText loose init ++ ds) ∧
      Reads (.optional (.node "for-init" (.choice [.rule .varDecl, .rule .expression])))
        (Node.clauseText loose init ++ ds) ds (clause "for-init" p (init.map written)) := by
  cases init with
  | none =>
    have hwords : ∀ s ∈ ["let", "const", "var"], word s ds = none := by
      obtain ⟨c, hc, es, rfl⟩ := hd
      simp only [List.mem_cons, List.not_mem_nil, or_false] at hc
      have hn : isNameStart c = false := by rcases hc with rfl | rfl | rfl | rfl <;> decide
      intro s hs
      have all : ∀ s ∈ ["let", "const", "var"], isName s.toList = true := by decide
      exact word_mark (all s hs) hn es
    have none : Refuses (.choice [.rule .varDecl, .rule .expression]) ds :=
      (refuses_varDecl hwords).cons ((void_ends hd).expression.cons (refuses_nil ds))
    exact ⟨solid_closing hd.closing, (none.node _).optional⟩
  | some n =>
    cases hi n rfl with
    | @expression l x hx =>
      have hx := (written_expression hx loose).1
      have hopens := hx.opens ds hd
      have none : Refuses (.rule .varDecl) (x.text loose ++ ds) := refuses_varDecl fun s hs => by
        have all : ∀ s ∈ ["let", "const", "var"], s ∈ statementWords := by decide
        exact hopens.word s (all s hs)
      exact ⟨hopens.solid, ((none.reads ((hx.reads ds hd).here [])).node _).optional⟩
    | @declaration l kind decls hk hne hn hx hc =>
      have decl := reads_varDecl (l := l) hk hne hn
        (fun d hd n hn => (written_expression (hx d hd n hn) loose).1) hc hd
      have htext : Node.clauseText loose (some (.varDecl l kind decls)) ++ ds
          = kind.toList ++ ' ' :: (listed (decls.map (declared loose)) ++ ds) := by
        show (kind.toList ++ ' ' :: listed (Node.declarationTexts loose decls)) ++ ds = _
        rw [declarationTexts_eq, List.append_assoc, List.cons_append]
      rw [htext]
      refine ⟨?_, ((decl.here [.rule .expression]).node "for-init").optional⟩
      have all : ∀ kind ∈ ["let", "const", "var"], isName kind.toList = true := by decide
      exact solid_name (all kind hk) _

theorem line_for {init test update : Option Node} (hi : ∀ n ∈ init, Initializer p.waits n)
    (ht : ∀ n ∈ test, Written p loose n) (hu : ∀ n ∈ update, Written p loose n)
    (h : ∀ n ∈ ns, Line { p with looping := true } loose n) :
    Line p loose (.forLoop l init test update (.block l' ns)) := by
  refine line_of_text (fun ds => "for".toList ++ ' ' :: '(' :: (Node.clauseText loose init ++
    ';' :: ' ' :: (Node.clauseText loose test ++ ';' :: ' ' :: (Node.clauseText loose update ++
    ')' :: ' ' :: ((Node.block l' ns).text loose ++ ds))))) (fun ds => ?_)
    (fun ds => starts_word (by decide) (by decide) (stopsRun_space _)) fun ds _ => ?_
  · show ("for (".toList ++ _ ++ ';' :: ' ' :: _ ++ ';' :: ' ' :: _ ++ ')' :: ' ' ::
      (Node.block l' ns).text loose) ++ [] ++ ds = _
    simp only [List.append_nil, List.append_assoc, List.cons_append]
    rfl
  · have hbody : Solid ((Node.block l' ns).text loose ++ ds) := solid_cons (by decide) (by decide) _
    have hparen : Solid ('(' :: (Node.clauseText loose init ++ ';' :: ' ' ::
      (Node.clauseText loose test ++ ';' :: ' ' :: (Node.clauseText loose update ++
      ')' :: ' ' :: ((Node.block l' ns).text loose ++ ds))))) := solid_cons (by decide) (by decide) _
    obtain ⟨hsolid₁, hinit⟩ := reads_init hi loose (ends_semicolon (' ' ::
      (Node.clauseText loose test ++ ';' :: ' ' :: (Node.clauseText loose update ++
      ')' :: ' ' :: ((Node.block l' ns).text loose ++ ds)))))
    obtain ⟨hsolid₂, htest⟩ := reads_clause "for-test" ht (ends_semicolon (' ' ::
      (Node.clauseText loose update ++ ')' :: ' ' :: ((Node.block l' ns).text loose ++ ds))))
    obtain ⟨hsolid₃, hupdate⟩ := reads_clause "for-update" hu
      (ends_paren (' ' :: ((Node.block l' ns).text loose ++ ds)))
    have hsemicolon (es : List Char) : Reads blank (';' :: es) (';' :: es) [] :=
      reads_blank (solid_cons (by decide) (by decide) es)
    have parts := (reads_keyword "for" (stopsRun_space _)).cons <|
      (reads_blank (behindGap_space hparen)).cons <| (reads_punct "(" _).cons <|
      (reads_blank hsolid₁).cons <| hinit.cons <| (hsemicolon _).cons <| (reads_punct ";" _).cons <|
      (reads_blank (behindGap_space hsolid₂)).cons <| htest.cons <| (hsemicolon _).cons <|
      (reads_punct ";" _).cons <| (reads_blank (behindGap_space hsolid₃)).cons <| hupdate.cons <|
      (reads_blank (solid_cons (by decide) (by decide) _)).cons <| (reads_punct ")" _).cons <|
      (reads_blank (behindGap_space hbody)).cons ((reads_body h ds).cons (reads_nil ds))
    simp only [List.nil_append, List.append_nil] at parts
    have statement : Reads (.rule .forStatement) _ ds
        [Means p (.forLoop l init test update (.block l' ns))] :=
      .rule ((parts.node "for").mono fun t ht =>
        means_for hi (by simpa only [List.append_assoc] using ht))
    exact reads_word "for" (k := 3) rfl (by decide) (stopsRun_space _) statement

/-! ## Functions -/

/-- The parameters of a function. -/
theorem reads_params {params : List String} (hp : ∀ x ∈ params, IsIdentifier x) (hd : Ends ds) :
    Solid (listed (params.map String.toList) ++ ds) ∧
      Reads (.optional (.seq [.rule .identifier, moreBehindCommas (.rule .identifier)]))
        (listed (params.map String.toList) ++ ds) ds
        (params.map fun x => Spells "name" x.toList) := by
  cases params with
  | nil =>
    have none : Refuses (.rule .identifier) ds := by
      obtain ⟨c, hc, es, rfl⟩ := hd
      simp only [List.mem_cons, List.not_mem_nil, or_false] at hc
      rcases hc with rfl | rfl | rfl | rfl <;> exact .rule ((refuses_token rfl).leaf _)
    exact ⟨solid_closing hd.closing, (none.first _).optional⟩
  | cons x xs =>
    have hlisted := reads_listed (P := fun x => Spells "name" x.toList)
      (fun y hy es hes => reads_identifier (hp y hy) hes.stopsRun)
      (fun y hy es => solid_name (hp y hy).1 es) hd (reads_nil ds)
    refine ⟨?_, hlisted.optional⟩
    rw [List.map_cons, listed, List.append_assoc]
    exact solid_name (hp x List.mem_cons_self).1 _

/-- The text of a function, from its word on. -/
def functionText (name : String) (params : List String) (body : List Char) : List Char :=
  "function".toList ++ ' ' :: (name.toList ++ '(' :: (listed (params.map String.toList) ++
    ')' :: ' ' :: body))

theorem reads_function {params : List String} {isAsync : Bool} (hn : IsIdentifier name)
    (hp : ∀ x ∈ params, IsIdentifier x) (h : ∀ n ∈ ns, Line ⟨some isAsync, false⟩ loose n)
    (ds : List Char) :
    Reads (.seq [keyword "function", blank, .rule .identifier, blank, punct "(", blank,
      .optional (.seq [.rule .identifier, moreBehindCommas (.rule .identifier)]), blank,
      punct ")", blank, .rule .block]) (functionText name params ((Node.block l' ns).text loose ++ ds)) ds
      (Spells "name" name.toList :: (params.map (fun x => Spells "name" x.toList) ++
        [Means ⟨some isAsync, false⟩ (.block l' ns)])) := by
  have hbody : Solid ((Node.block l' ns).text loose ++ ds) := solid_cons (by decide) (by decide) _
  have hparen (es : List Char) : Solid ('(' :: es) := solid_cons (by decide) (by decide) es
  have hend := ends_paren (' ' :: ((Node.block l' ns).text loose ++ ds))
  obtain ⟨hsolid, hparams⟩ := reads_params hp hend
  have parts := (reads_keyword "function" (stopsRun_space _)).cons <|
    (reads_blank (behindGap_space (solid_name hn.1 _))).cons <|
    (reads_identifier hn (stopsRun_cons (isNameChar_of_isAsciiMark (by decide)) _)).cons <|
    (reads_blank (hparen _)).cons <| (reads_punct "(" _).cons <| (reads_blank hsolid).cons <|
    hparams.cons <| (reads_blank (solid_closing hend.closing)).cons <| (reads_punct ")" _).cons <|
    (reads_blank (behindGap_space hbody)).cons ((reads_block h ds).cons (reads_nil ds))
  simp only [List.nil_append, List.append_nil, List.cons_append] at parts
  exact parts

/-- The words before a head and a body, with the blank behind the last of them apart. -/
theorem headed_append {v w : List Char} (hv : v = w ++ [' ']) (cs name head body ds : List Char) :
    cs ++ v ++ name ++ parens head ++ ' ' :: body ++ [] ++ ds =
      cs ++ (w ++ ' ' :: (name ++ '(' :: (head ++ ')' :: ' ' :: (body ++ ds)))) := by
  simp only [hv, parens, List.append_nil, List.append_assoc, List.cons_append, List.nil_append]

theorem line_functionDecl {params : List String} {isAsync : Bool} (hn : IsIdentifier name)
    (hp : ∀ x ∈ params, IsIdentifier x) (h : ∀ n ∈ ns, Line ⟨some isAsync, false⟩ loose n) :
    Line p loose (.functionDecl l name params (.block l' ns) isAsync) := by
  have hsolid (body : List Char) : Solid (functionText name params body) :=
    solid_name (by decide) _
  have htext (cs body ds : List Char) : cs ++ "function ".toList ++ name.toList ++
      parens (listed (params.map String.toList)) ++ ' ' :: body ++ [] ++ ds
        = cs ++ functionText name params (body ++ ds) :=
    headed_append (w := "function".toList) rfl ..
  cases isAsync with
  | true =>
    refine line_of_text
      (fun ds => "async".toList ++ ' ' :: functionText name params ((Node.block l' ns).text loose ++ ds))
      (fun ds => htext "async ".toList _ ds)
      (fun ds => starts_word (by decide) (by decide) (stopsRun_space _)) fun ds _ => ?_
    have mark := (reads_lexeme (word_append "async" (stopsRun_space
      (functionText name params ((Node.block l' ns).text loose ++ ds))))).leaf "async"
    have parts := mark.optional.cons <| (reads_blank (behindGap_space (hsolid _))).cons <|
      reads_function hn hp h ds
    have node : Reads (hostForm .functionDecl) _ ds
      [Tagged "function-decl" (functionParts name params true (.block l' ns))] := parts.node _
    have statement := Reads.rule (node.mono fun _ => means_functionDecl (p := p) (l := l))
    exact reads_word "async" (k := 0) rfl (by decide) (stopsRun_space _) statement
  | false =>
    refine line_of_text (fun ds => functionText name params ((Node.block l' ns).text loose ++ ds))
      (fun ds => htext [] _ ds)
      (fun ds => starts_word (by decide) (by decide) (stopsRun_space _)) fun ds _ => ?_
    have none (body : List Char) : word "async" (functionText name params body) = none :=
      word_other (by decide) (stopsRun_space _) (by decide) (by decide)
    have mark := (refuses_token (none ((Node.block l' ns).text loose ++ ds))).leaf "async"
    have parts := mark.optional.cons <| (reads_blank (hsolid _)).cons (reads_function hn hp h ds)
    have node : Reads (hostForm .functionDecl) _ ds
      [Tagged "function-decl" (functionParts name params false (.block l' ns))] := parts.node _
    have statement := Reads.rule (node.mono fun _ => means_functionDecl (p := p) (l := l))
    exact reads_word "function" (k := 0) rfl (by decide) (stopsRun_space _) statement

/-! ## All statements -/

/-- **Every statement that obeys the static rules is read back.** -/
theorem line_statement (h : Statement p n) (loose : Bool) : Line p loose n := by
  induction h with
  | plain h => exact line_initializer h loose
  | block _ ih => exact line_block ih
  | functionDecl hn hp _ ih => exact line_functionDecl hn hp ih
  | ifThen ht _ ih => exact line_ifThen (written_expression ht loose).1 ih
  | ifElse ht _ _ ihy ihn => exact line_ifElse (written_expression ht loose).1 ihy ihn
  | forLoop hi ht hu _ ih =>
    exact line_for hi (fun n hn => (written_expression (ht n hn) loose).1)
      (fun n hn => (written_expression (hu n hn) loose).1) ih
  | whileLoop ht _ ih => exact line_while (written_expression ht loose).1 ih
  | doWhile _ ht ih => exact line_doWhile (written_expression ht loose).1 ih
  | returnStmt hf hv => exact line_return hf fun n hn => (written_expression (hv n hn) loose).1
  | breakStmt hl => exact line_break hl
  | continueStmt hl => exact line_continue hl
  | empty => exact line_empty

end LedSketch.HostText
