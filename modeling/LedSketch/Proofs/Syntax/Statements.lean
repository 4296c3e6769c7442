import LedSketch.Proofs.Syntax.StatementMeanings
import LedSketch.Proofs.Syntax.WrittenExpressions

/-!
# How statements start and end

Each kind of statement but blocks, empty statements and expressions starts with a word of its own, so
the rule of statements finds the one that is written.

* `headed`: the kinds of statements that start with words.
* `reads_headed`, `reads_plain`: what is read by its own rule is read as a statement.
* `Expected`: what is read back as a statement; `reads_body`: a list of such statements.
-/

namespace LedSketch.HostText

open Text Scan Scanner Dialect Grammar Lexeme LedSketch.Tree

variable {cs ds es w : List Char} {s op name : String} {c : Char} {p : Setting} {loose : Bool}
  {n x y z : Node} {ns : List Node} {l : Option Loc} {q : Peg Rule} {Ps : List (Tree → Prop)}

/-! ## Words that start statements -/

/-- The statements that start with words, in the order of the grammar. -/
def headed : List (Peg Rule × List String) :=
  [(.rule .functionDecl, ["async", "function"]),
    (.seq [.rule .varDecl, endOfStatement], ["let", "const", "var"]),
    (.rule .ifStatement, ["if"]), (.rule .forStatement, ["for"]),
    (.rule .whileStatement, ["while"]), (.rule .doWhileStatement, ["do"]),
    (.rule .returnStatement, ["return"]),
    (.leaf "break" (.seq [.token (word "break"), endOfStatement]), ["break"]),
    (.leaf "continue" (.seq [.token (word "continue"), endOfStatement]), ["continue"])]

theorem refuses_functionDecl (hs : Solid cs) (ha : word "async" cs = none)
    (hf : word "function" cs = none) : Refuses (.rule .functionDecl) cs := by
  have hword : Refuses (keyword "function") (behindGap cs) := by
    rw [hs]
    exact refuses_keyword hf
  exact .rule (.node (((refuses_token ha).leaf _).optional.refuses (refuses_spaced hword _)) _)

theorem refuses_varDecl (h : ∀ s ∈ ["let", "const", "var"], word s cs = none) :
    Refuses (.rule .varDecl) cs := by
  simp only [List.forall_mem_cons] at h
  refine refuses_first rfl ((refuses_token ?_).leaf _)
  simp only [firstOf, List.findSome?_cons, List.findSome?_nil, h.1, h.2.1, h.2.2.1]

/-- A statement refuses where none of its words come next. -/
theorem refuses_headed {ws : List String} (hq : (q, ws) ∈ headed) (hs : Solid cs)
    (h : ∀ s ∈ ws, word s cs = none) : Refuses q cs := by
  simp only [headed, List.mem_cons, Prod.mk.injEq, List.not_mem_nil, or_false] at hq
  rcases hq with ⟨rfl, rfl⟩ | ⟨rfl, rfl⟩ | ⟨rfl, rfl⟩ | ⟨rfl, rfl⟩ | ⟨rfl, rfl⟩ | ⟨rfl, rfl⟩ |
    ⟨rfl, rfl⟩ | ⟨rfl, rfl⟩ | ⟨rfl, rfl⟩
  · exact refuses_functionDecl hs (h _ (by simp)) (h _ (by simp))
  · exact (refuses_varDecl h).first _
  · exact refuses_first rfl ((refuses_keyword (h _ (by simp))).first _)
  · exact refuses_first rfl (refuses_keyword (h _ (by simp)))
  · exact refuses_first rfl (refuses_keyword (h _ (by simp)))
  · exact refuses_first rfl ((refuses_keyword (h _ (by simp))).first _)
  · exact refuses_first rfl (refuses_keyword (h _ (by simp)))
  · exact (.leaf (.first (refuses_token (h _ (by simp))) _) _)
  · exact (.leaf (.first (refuses_token (h _ (by simp))) _) _)

theorem statement_eq : hostForm .statement = .choice ((.rule .block :: headed.map Prod.fst) ++
    [.leaf "empty" (.token (literal ";")), .rule .expressionStatement]) := rfl

/-- **A statement with a word of its own** is read as a statement. -/
theorem reads_headed {k : Nat} {ws : List String} (hk : headed[k]? = some (q, ws))
    (hs : Solid cs) (hb : literal "\x7b" cs = none)
    (hw : ∀ s ∈ ((headed.take k).map Prod.snd).flatten, word s cs = none)
    (h : Reads q cs ds Ps) : Reads (.rule .statement) cs ds Ps := by
  obtain ⟨hlt, hget⟩ := List.getElem?_eq_some_iff.mp hk
  have hsplit : headed.map Prod.fst
      = (headed.take k).map Prod.fst ++ q :: (headed.drop (k + 1)).map Prod.fst := by
    conv_lhs => rw [← List.take_append_drop k headed, List.drop_eq_getElem_cons hlt, hget]
    rw [List.map_append, List.map_cons]
  refine .rule ?_
  rw [statement_eq, hsplit, ← List.cons_append, List.append_assoc]
  refine h.among _ _ fun r hr => ?_
  rcases List.mem_cons.mp hr with rfl | hr
  · exact refuses_first rfl (refuses_punct hb)
  · obtain ⟨⟨r, ws'⟩, hmem, rfl⟩ := List.mem_map.mp hr
    refine refuses_headed (List.mem_of_mem_take hmem) hs fun s hs => hw s ?_
    exact List.mem_flatten.mpr ⟨ws', List.mem_map.mpr ⟨_, hmem, rfl⟩, hs⟩

/-- Neither a block nor a statement with a word of its own starts here. -/
theorem refuses_heads (hs : Solid cs) (hb : literal "\x7b" cs = none)
    (hw : ∀ s ∈ statementWords, word s cs = none) :
    ∀ r ∈ (.rule .block :: headed.map Prod.fst), Refuses r cs := by
  intro r hr
  rcases List.mem_cons.mp hr with rfl | hr
  · exact refuses_first rfl (refuses_punct hb)
  · obtain ⟨⟨r, ws⟩, hmem, rfl⟩ := List.mem_map.mp hr
    refine refuses_headed hmem hs fun s hs => hw s ?_
    have all : ∀ s ∈ (headed.map Prod.snd).flatten, s ∈ statementWords := by decide
    exact all s (List.mem_flatten.mpr ⟨ws, List.mem_map.mpr ⟨_, hmem, rfl⟩, hs⟩)

/-- An expression is read as a statement. -/
theorem reads_expressionStatement (hcs : Opens cs)
    (h : Reads (.rule .expressionStatement) cs ds Ps) : Reads (.rule .statement) cs ds Ps := by
  refine .rule ?_
  rw [statement_eq, List.append_cons]
  refine h.among _ [] fun r hr => ?_
  rcases List.mem_append.mp hr with hr | hr
  · exact refuses_heads hcs.solid (hcs.other rfl (by decide)) hcs.word r hr
  · obtain rfl := List.mem_singleton.mp hr
    exact (refuses_token (hcs.other rfl (by decide))).leaf _

/-- No statement starts where no expression does, no word, and no mark of a statement. -/
theorem refuses_statement (hv : Void cs) (hs : Solid cs) (hb : literal "\x7b" cs = none)
    (he : literal ";" cs = none) (hw : ∀ s ∈ statementWords, word s cs = none) :
    Refuses (.rule .statement) cs := by
  refine .rule ?_
  rw [statement_eq]
  refine refuses_choice fun r hr => ?_
  rcases List.mem_append.mp hr with hr | hr
  · exact refuses_heads hs hb hw r hr
  · simp only [List.mem_cons, List.not_mem_nil, or_false] at hr
    rcases hr with rfl | rfl
    · exact (refuses_token he).leaf _
    · exact refuses_first rfl hv.expression

/-! ## Lists of statements -/

/-- What does not go on an `if` that has no other branch. -/
def Unelse (ds : List Char) : Prop := word "else" (behindGap ds) = none

/-- A text that starts as a statement does, but not as the other branch of one. -/
structure Starts (cs : List Char) : Prop where
  solid : Solid cs
  word : word "else" cs = none

theorem Opens.starts (h : Opens cs) : Starts cs := ⟨h.solid, h.word _ (by decide)⟩

theorem starts_mark (hn : isNameStart c = false) (hw : isWhiteSpace c = false) (hc : c ≠ '/')
    (cs : List Char) : Starts (c :: cs) :=
  ⟨solid_cons hw hc cs, word_mark (by decide) hn cs⟩

theorem starts_word (hs : isName s.toList = true) (hne : s ≠ "else") (hds : StopsRun isNameChar ds) :
    Starts (s.toList ++ ds) :=
  ⟨solid_name hs ds, word_other hs hds (by decide) fun h => hne (String.toList_inj.mp h)⟩

/-- **What is read back as a statement**, on a line of its own. -/
structure Line (p : Setting) (loose : Bool) (n : Node) : Prop where
  starts : ∀ ds, Starts (n.text loose ++ n.terminator ++ ds)
  reads : ∀ ds, Unelse ds → Reads (.rule .statement) (n.text loose ++ n.terminator ++ ds) ds
    [Means p n]

/-- The end of a list of statements. -/
structure Stops (ds : List Char) : Prop where
  item : Refuses (.rule .item) ds
  unelse : Unelse ds

theorem stops_nil : Stops [] := by
  have hsolid := solid_nil
  refine ⟨.rule ((reads_blank rfl).refuses (.first ?_ _)), ?_⟩
  · rw [hsolid]
    refine refuses_statement void_nil hsolid rfl rfl fun s hs => ?_
    have all : ∀ s ∈ statementWords, word s [] = none := by decide
    exact all s hs
  · rw [Unelse, hsolid]
    rfl

theorem stops_brace (es : List Char) : Stops ('\n' :: '}' :: es) := by
  have hsolid : Solid ('}' :: es) := solid_cons (by decide) (by decide) es
  have hgap := behindGap_newline hsolid
  have hw {s : String} (hs : isName s.toList = true) : word s ('}' :: es) = none :=
    word_mark hs (by decide) es
  refine ⟨.rule ((reads_blank rfl).refuses (.first ?_ _)), ?_⟩
  · rw [hgap]
    exact refuses_statement (void_ends (ends_brace es)) hsolid rfl rfl fun s hs =>
      hw (isName_statementWords s hs)
  · rw [Unelse, hgap]
    exact hw (by decide)

/-- **A list of statements** is read up to its end, and goes on no `if`. -/
theorem reads_items (h : ∀ n ∈ ns, Line p loose n) (hd : Stops ds) :
    Reads (.many (.rule .item)) (Node.bodyText loose ns ++ ds) ds (ns.map (Means p)) ∧
      Unelse (Node.bodyText loose ns ++ ds) := by
  induction ns with
  | nil => exact ⟨hd.item.many, hd.unelse⟩
  | cons n ns ih =>
    obtain ⟨hrest, helse⟩ := ih fun m hm => h m (List.mem_cons_of_mem n hm)
    have hn := h n List.mem_cons_self
    have hstart := hn.starts (Node.bodyText loose ns ++ ds)
    have hgap := behindGap_newline hstart.solid
    rw [Node.bodyText, List.append_assoc, List.cons_append, List.cons_append]
    refine ⟨?_, by rw [Unelse, hgap]; exact hstart.word⟩
    have parts := (reads_blank hgap).cons ((hn.reads _ helse).cons (reads_nil _))
    have item : Reads (.rule .item) _ _ [Means p n] := .rule parts
    exact item.many hrest

/-- Statements in braces. -/
theorem reads_block (h : ∀ n ∈ ns, Line p loose n) (ds : List Char) :
    Reads (.rule .block) ((Node.block l ns).text loose ++ ds) ds [Means p (.block l ns)] := by
  show Reads _ (('{' :: Node.bodyText loose ns ++ ['\n', '}']) ++ ds) ds _
  rw [List.append_assoc]
  have hsolid : Solid ('}' :: ds) := solid_cons (by decide) (by decide) ds
  have parts := (reads_punct "\x7b" _).cons <| (reads_items h (stops_brace ds)).1.cons <|
    (reads_blank (behindGap_newline hsolid)).cons ((reads_punct "\x7d" ds).cons (reads_nil ds))
  simp only [List.nil_append, List.append_nil] at parts
  exact .rule ((parts.node "block").mono fun _ => means_block)

/-- A block is a statement. -/
theorem reads_body (h : ∀ n ∈ ns, Line p loose n) (ds : List Char) :
    Reads (.rule .statement) ((Node.block l ns).text loose ++ ds) ds [Means p (.block l ns)] :=
  .rule ((reads_block h ds).here _)

theorem line_block (h : ∀ n ∈ ns, Line p loose n) : Line p loose (.block l ns) where
  starts _ := starts_mark (by decide) (by decide) (by decide) _
  reads ds _ := by
    show Reads _ ((Node.block l ns).text loose ++ [] ++ ds) ds _
    rw [List.append_nil]
    exact reads_body h ds

end LedSketch.HostText
