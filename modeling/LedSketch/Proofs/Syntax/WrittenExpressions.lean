import LedSketch.Proofs.Syntax.Operands

/-!
# Written expressions are read back

The text of an expression that obeys the static rules is read by the rule of expressions, up to the
mark that ends it, and the tree means the expression: there is one lemma for each kind of
expression, about operands that are read back themselves.

* `written_expression`: all expressions are read back.
-/

namespace LedSketch.HostText

open Text Scan Scanner Dialect Grammar Lexeme LedSketch.Tree

variable {cs ds es w : List Char} {s op name : String} {c : Char} {p : Setting} {loose : Bool}
  {n x y z : Node} {ns : List Node} {l : Option Loc}

/-! ## Literals, arrays and templates -/

/-- A literal that is written as a name. -/
theorem written_word {v : Value} (hw : isName (ofValue v) = true)
    (hne : ∀ s ∈ statementWords ++ ["typeof", "await"], ofValue v ≠ s.toList)
    (hr : ∀ ds, StopsRun isNameChar ds → Reads (.rule .primary) (ofValue v ++ ds) ds
      [Means p (.literal l v)]) : Written p loose (.literal l v) where
  opens ds hd := opens_name hw (fun s hs => hne s (List.mem_append_left _ hs)) hd.closing.stopsRun
  reads ds hd := expression_of_primary hd (hr ds hd.closing.stopsRun)
    (unaryOperator_name hw ⟨hne _ (by simp), hne _ (by simp)⟩ hd.closing.stopsRun)

theorem written_literal {v : Value} (hv : IsLiteral v) : Written p loose (.literal l v) := by
  cases hv with
  | number k hk =>
    refine ⟨fun ds _ => opens_digits k ds, fun ds hd => ?_⟩
    exact expression_of_primary hd (reads_number hk hd.closing) (unaryOperator_digits k ds)
  | text t =>
    refine ⟨fun ds _ => ?_, fun ds hd => expression_of_primary hd
      (reads_quoted .double t ds) (unaryOperator_quoted .double t ds)⟩
    show Opens (quotedText .double t ++ ds)
    rw [quotedText_append]
    exact opens_mark (by decide) (by decide) (by decide) _
  | truth b =>
    cases b with
    | true => exact written_word (by decide) (by decide) fun ds => reads_boolean true
    | false => exact written_word (by decide) (by decide) fun ds => reads_boolean false
  | null => exact written_word (by decide) (by decide) fun ds => reads_null

theorem written_array (h : ∀ n ∈ ns, Written p loose n) : Written p loose (.array l ns) := by
  refine ⟨fun ds _ => opens_mark (by decide) (by decide) (by decide) _, fun ds hd => ?_⟩
  refine expression_of_primary hd ?_ rfl
  show Reads _ (('[' :: listed (Node.operandTexts loose ns) ++ [']']) ++ ds) ds _
  rw [List.append_assoc]
  have hend := ends_bracket ds
  have trailing : Reads (.seq [.optional (silent trailingComma?)]) (']' :: ds) (']' :: ds) [] :=
    .cons (Refuses.optional (refuses_token rfl).drop) (reads_nil _)
  have parts := (reads_punct "[" _).cons <|
    (reads_blank (solid_operandTexts loose ns hend)).cons <|
    (reads_operands h hend trailing).cons <| (reads_blank (solid_closing hend.closing)).cons <|
    (reads_punct "]" ds).cons (reads_nil ds)
  simp only [List.nil_append, List.append_nil] at parts
  have whole : Reads (.rule .array) ('[' :: (listed (Node.operandTexts loose ns) ++ ']' :: ds)) ds
    [Means p (.array l ns)] := .rule ((parts.node "array").mono fun _ => means_array)
  refine .rule (Refuses.reads ?_ <| Refuses.reads ?_ <| Refuses.reads ?_ <| Refuses.reads ?_ <|
    Refuses.reads ?_ <| Refuses.reads ?_ <| whole.here _)
  · exact (refuses_token (numeral?_other (by decide) (by decide) _)).leaf _
  · exact .rule ((refuses_token rfl).leaf _)
  · exact .rule (((refuses_punct rfl).first _).node _)
  · exact (refuses_token rfl).leaf _
  · exact (refuses_token rfl).leaf _
  · exact (refuses_token rfl).leaf _

/-- The parts of a template, up to its end. -/
theorem reads_parts {parts : List (String ⊕ Node)} (hc : Chunked parts)
    (hp : ∀ n, .inr n ∈ parts → Written p loose n) (ds : List Char) :
    Reads (.many (.choice [.leaf "chunk" (.token chunk?), .rule .interpolation]))
      (Node.partsText loose parts ++ '\x60' :: ds) ('\x60' :: ds) (parts.map (MeansPart p)) := by
  induction parts with
  | nil =>
    refine Refuses.many (.cons ((refuses_token rfl).leaf _) (.cons ?_ (refuses_nil _)))
    exact refuses_first rfl (refuses_punct rfl)
  | cons part parts ih =>
    have hp' : ∀ n, .inr n ∈ parts → Written p loose n := fun n hn => hp n (List.mem_cons_of_mem _ hn)
    cases part with
    | inl t =>
      obtain ⟨hne, hnext, hc⟩ := hc
      have hcut : Cut (Node.partsText loose parts ++ '\x60' :: ds) := by
        match parts, hnext with
        | [], _ => exact .inl ⟨_, rfl⟩
        | .inr n :: _, _ => exact .inr ⟨_, rfl⟩
        | .inl u :: _, hnext => exact absurd rfl (hnext u)
      rw [Node.partsText, List.append_assoc]
      have chunk := (reads_lexeme (chunk?_written hne hcut)).leaf "chunk"
      have first : Reads _ _ _ [MeansPart p (.inl t)] :=
        (chunk.here [.rule .interpolation]).mono fun _ ht =>
          ⟨_, ht, decodeText_flatMap escapes_chunkChar t⟩
      exact first.many (ih hc hp')
    | inr n =>
      have hn := hp n List.mem_cons_self
      rw [Node.partsText, List.cons_append, List.cons_append, List.append_assoc, List.cons_append]
      have hend := ends_brace (Node.partsText loose parts ++ '\x60' :: ds)
      have inner := (reads_punct "$\x7b" _).cons <| (reads_blank (hn.opens _ hend).solid).cons <|
        (hn.reads _ hend).cons <| (reads_blank (solid_closing hend.closing)).cons <|
        (reads_punct "\x7d" _).cons (reads_nil _)
      have whole : Reads (.rule .interpolation) _ _ [MeansPart p (.inr n)] :=
        .rule (inner.node "interpolation")
      have first := Refuses.reads (.leaf (refuses_token (m := chunk?) rfl) "chunk") (whole.here [])
      exact first.many (ih hc hp')

/-- A template is a primary expression, whatever comes behind it. -/
theorem reads_template {parts : List (String ⊕ Node)} (hc : Chunked parts)
    (hp : ∀ n, .inr n ∈ parts → Written p loose n) (ds : List Char) :
    Reads (.rule .primary) ((Node.template l parts).text loose ++ ds) ds
      [Means p (.template l parts)] := by
  show Reads _ (('\x60' :: Node.partsText loose parts ++ ['\x60']) ++ ds) ds _
  rw [List.append_assoc]
  have inner := (reads_punct "\x60" _).cons <| (reads_parts hc hp ds).cons <|
    (reads_punct "\x60" ds).cons (reads_nil ds)
  simp only [List.nil_append, List.append_nil] at inner
  have whole : Reads (.rule .template) _ ds [Means p (.template l parts)] :=
    .rule ((inner.node "template").mono fun _ => means_template)
  refine .rule (Refuses.reads ?_ <| Refuses.reads ?_ <| whole.here _)
  · exact (refuses_token (numeral?_other (by decide) (by decide) _)).leaf _
  · exact .rule ((refuses_token rfl).leaf _)

theorem written_template {parts : List (String ⊕ Node)} (hc : Chunked parts)
    (hp : ∀ n, .inr n ∈ parts → Written p loose n) : Written p loose (.template l parts) where
  opens _ _ := opens_mark (by decide) (by decide) (by decide) _
  reads ds hd := expression_of_primary hd (reads_template hc hp ds) rfl

/-! ## Operators -/

/-- What an operator in front of an operand is followed by. -/
theorem Target.operand (h : Target p x cs) (hd : Ends ds) :
    Reads (.seq [blank, .rule .unary]) (cs ++ ds) ds [Means p x] :=
  .cons (reads_blank (h.opens ds hd.closing.stopsRun).solid) <|
    .cons (h.unary (hd.final.unassigned.unasked.still.mono (Nat.zero_le _)) hd.closing.stopsRun)
      (reads_nil ds)

/-- **An operator in front of an operand.** -/
theorem written_before (op : String) (hx : Target p x cs) (htext : n.text loose = op.toList ++ cs)
    (hopens : ∀ ds, Opens (op.toList ++ (cs ++ ds)))
    (hop : ∀ ds, unaryOperator (op.toList ++ (cs ++ ds)) = some op.toList.length)
    (hmeans : ∀ t, Tagged "unary" [Spells "op" op.toList, Means p x] t → Means p n t) :
    Written p loose n := by
  refine ⟨fun ds _ => ?_, fun ds hd => expression_of_unary hd ?_⟩
  all_goals rw [htext, List.append_assoc]
  · exact hopens ds
  · have parts := (reads_op (hop ds)).cons (hx.operand hd)
    exact .rule (((parts.node "unary").mono hmeans).here _)

theorem written_unary (ho : op ∈ unaryOperators) (hx : Written p loose x) :
    Written p loose (.unary l op x) := by
  have hne : op ≠ "await" ∧ op ≠ "++" ∧ op ≠ "--" := by
    revert op
    decide
  have hparen (ds : List Char) : StopsRun isNameChar ('(' :: ds) :=
    stopsRun_cons (isNameChar_of_isAsciiMark (by decide)) ds
  simp only [unaryOperators, List.mem_cons, List.not_mem_nil, or_false] at ho
  refine written_before op hx.target rfl (fun ds => ?_) (fun ds => ?_)
    fun t ht => means_unary ht hne.1 hne.2
  all_goals
    rw [parens_append]
    rcases ho with rfl | rfl | rfl | rfl | rfl
  · exact opens_mark (by decide) (by decide) (by decide) _
  · exact opens_mark (by decide) (by decide) (by decide) _
  · exact opens_mark (by decide) (by decide) (by decide) _
  · exact opens_mark (by decide) (by decide) (by decide) _
  · exact opens_name (by decide) (by decide) (hparen _)
  · rfl
  · rfl
  · rfl
  · rfl
  · exact unaryOperator_word (.inl rfl) (hparen _)

theorem written_await (hp : p.waits = true) (hx : Written p loose x) :
    Written p loose (.await l x) := by
  have hparen (ds : List Char) : StopsRun isNameChar (parens (x.text loose) ++ ds) :=
    stopsRun_cons (isNameChar_of_isAsciiMark (by decide)) _
  refine written_before "await" hx.target rfl (fun ds => ?_) (fun ds => ?_)
    fun t ht => means_await hp ht
  · exact opens_name (by decide) (by decide) (hparen ds)
  · exact unaryOperator_word (.inr rfl) (hparen ds)

theorem written_updateBefore (ho : op ∈ updateOperators) (ht : x.isAssignable = true)
    (hx : Target p x cs) (htext : (Node.update l op true x).text loose = op.toList ++ cs) :
    Written p loose (.update l op true x) := by
  refine written_before op hx htext (fun ds => ?_) (fun ds => ?_)
    fun t h => means_updateBefore ht h ho
  all_goals
    simp only [updateOperators, List.mem_cons, List.not_mem_nil, or_false] at ho
    rcases ho with rfl | rfl
  · exact opens_mark (by decide) (by decide) (by decide) _
  · exact opens_mark (by decide) (by decide) (by decide) _
  · rfl
  · rfl

theorem written_updateBehind (ho : op ∈ updateOperators) (ht : x.isAssignable = true)
    (hx : Target p x cs) (htext : (Node.update l op false x).text loose = cs ++ op.toList) :
    Written p loose (.update l op false x) := by
  have hop (ds : List Char) : updateOperator (op.toList ++ ds) = some op.toList.length ∧
      StopsRun isNameChar (op.toList ++ ds) ∧ Unlinked (op.toList ++ ds) := by
    simp only [updateOperators, List.mem_cons, List.not_mem_nil, or_false] at ho
    have hsolid : behindGap (op.toList ++ ds) = op.toList ++ ds := by
      rcases ho with rfl | rfl <;> exact solid_cons (by decide) (by decide) _
    refine ⟨?_, ?_, ?_, ?_, ?_⟩
    · rcases ho with rfl | rfl <;> rfl
    · rcases ho with rfl | rfl <;> exact stopsRun_cons (isNameChar_of_isAsciiMark (by decide)) _
    all_goals
      rw [hsolid]
      rcases ho with rfl | rfl <;> rfl
  refine ⟨fun ds _ => ?_, fun ds hd => expression_of_unary hd (reads_unary ?_ ?_)⟩
  all_goals
    obtain ⟨hupdate, hstop, hunlinked⟩ := hop ds
    rw [htext, List.append_assoc]
  · exact hx.opens _ hstop
  · have parts := (hx.reads _ hunlinked hstop).cons ((reads_op hupdate).optional.cons (reads_nil ds))
    exact .rule ((parts.node "postfix").mono fun _ h => means_updateBehind ht h ho)
  · exact hx.quiet _ hstop

/-- An operator with operands on both sides. -/
theorem written_between {k : Level} (ho : op ∈ spelled k) (hx : Written p loose x)
    (hy : Written p loose y) (hn : n = Elab.binaryNode l op x y)
    (htext : n.text loose
      = parens (x.text loose) ++ ' ' :: op.toList ++ ' ' :: parens (y.text loose)) :
    Written p loose n := by
  refine ⟨fun ds _ => ?_, fun ds hd => expression_of_binary (l := k) hd ?_⟩
  all_goals rw [htext]; simp only [List.append_assoc, List.cons_append]
  · exact opens_parens _ _
  · obtain ⟨hsolid, hop, hstill⟩ := operator_spelled ho (parens (y.text loose) ++ ds)
    have hend := hd.final.unassigned.unasked.still
    have left := reads_operand k (hx.unary (hstill.mono (Nat.zero_le _))) hstill
    have right := reads_operand k (hy.unary (hend.mono (Nat.zero_le _)))
      (hend.mono (Level.height_lt k).le)
    have tail := (reads_blank (behindGap_space hsolid)).cons <| (reads_op hop).cons <|
      (reads_space _ ds).cons (right.cons (reads_nil ds))
    have none := ((refuses_spaced (refuses_op (hend.operator k (Level.height_lt k)))
      [blank, operand k]).node "binary-tail").many
    have parts := left.cons (((tail.node "binary-tail").many none).cons (reads_nil ds))
    rw [hn]
    exact .rule ((parts.node "binary").mono fun _ => means_binary)

theorem written_binary (ho : op ∈ binaryOperators) (hx : Written p loose x)
    (hy : Written p loose y) : Written p loose (.binary l op x y) := by
  have hne : op ≠ "," ∧ op ≠ "&&" ∧ op ≠ "||" := by
    revert op
    decide
  obtain ⟨k, hk⟩ := exists_level (.inl ho)
  refine written_between hk hx hy (l := l) ?_ ?_
  · simp [Elab.binaryNode, hne]
  · show (if op = "," then _ else _) = _
    rw [if_neg hne.1]

theorem written_logical (ho : op ∈ logicalOperators) (hx : Written p loose x)
    (hy : Written p loose y) : Written p loose (.logical l op x y) := by
  obtain ⟨k, hk⟩ := exists_level (.inr ho)
  refine written_between hk hx hy (l := l) ?_ rfl
  simp only [logicalOperators, List.mem_cons, List.not_mem_nil, or_false] at ho
  rcases ho with rfl | rfl <;> rfl

theorem written_comma (hx : Written p loose x) (hy : Written p loose y) :
    Written p loose (.binary l "," x y) := by
  have htext : (Node.binary l "," x y).text loose
      = parens (x.text loose) ++ ',' :: ' ' :: parens (y.text loose) := by
    show listed [parens (x.text loose), parens (y.text loose)] = _
    simp [listed]
  refine ⟨fun ds _ => ?_, fun ds hd => ?_⟩
  all_goals rw [htext]; simp only [List.append_assoc, List.cons_append]
  · exact opens_parens _ _
  · have hcomma : Closing (',' :: ' ' :: (parens (y.text loose) ++ ds)) := ⟨',', by decide, _, rfl⟩
    have tail := (reads_blank (solid_closing hcomma)).cons <| (reads_punct "," _).cons <|
      (reads_space _ ds).cons ((hy.assignment hd.final.unassigned).cons (reads_nil ds))
    have none := ((refuses_spaced (refuses_punct hd.final.comma)
      [blank, .rule .assignment]).node "comma-tail").many
    have parts := (hx.assignment (unassigned_closing hcomma)).cons
      (((tail.node "comma-tail").many none).cons (reads_nil ds))
    exact .rule ((parts.node "expression").mono fun _ => means_comma)

theorem written_conditional (hx : Written p loose x) (hy : Written p loose y)
    (hz : Written p loose z) : Written p loose (.conditional l x y z) := by
  have htext (ds : List Char) : (Node.conditional l x y z).text loose ++ ds
      = parens (x.text loose) ++ ' ' :: '?' :: ' ' :: (parens (y.text loose) ++
        ' ' :: ':' :: ' ' :: (parens (z.text loose) ++ ds)) := by
    show (_ ++ ' ' :: '?' :: ' ' :: _ ++ ' ' :: ':' :: ' ' :: _) ++ ds = _
    simp only [List.append_assoc, List.cons_append]
  refine ⟨fun ds _ => ?_, fun ds hd => expression_of_conditional hd ?_⟩
  all_goals rw [htext]
  · exact opens_parens _ _
  · have hmark (c : Char) (hc : isWhiteSpace c = false ∧ c ≠ '/') (es : List Char) :
        Reads blank (' ' :: c :: es) (c :: es) [] :=
      reads_blank (behindGap_space (solid_cons hc.1 hc.2 es))
    have tail := (hmark '?' (by decide) _).cons <| (reads_punct "?" _).cons <|
      (reads_space _ _).cons <| (hy.assignment (unassigned_colon _)).cons <|
      (hmark ':' (by decide) _).cons <| (reads_punct ":" _).cons <| (reads_space _ ds).cons <|
      (hz.assignment hd.final.unassigned).cons (reads_nil ds)
    have parts := (hx.logicalOr (still_question _)).cons
      ((tail.node "conditional-tail").optional.cons (reads_nil ds))
    exact .rule ((parts.node "conditional").mono fun _ => means_conditional)

/-- An assignment to a target, with a value that is read back in front of the end. -/
theorem expression_of_assign (ho : op ∈ assignOperators) (ht : x.isAssignable = true)
    (hx : Target p x cs) (hw : Solid (w ++ ds)) (hd : Ends ds)
    (hy : Reads (.rule .assignment) (w ++ ds) ds [Means p y]) :
    Reads (.rule .expression) (cs ++ ' ' :: (op.toList ++ ' ' :: (w ++ ds))) ds
      [Means p (.assign l op x y)] := by
  refine expression_of_assignment hd ?_
  obtain ⟨hsolid, hop, hunasked⟩ := operator_assign ho (w ++ ds)
  have hstill := hunasked.still
  have left := reads_conditional (reads_binary .logicalOr
    (hx.unary (hstill.mono (Nat.zero_le _)) (stopsRun_space _)) hstill) hunasked.question
  have tail := (reads_blank (behindGap_space hsolid)).cons <| (reads_op hop).cons <|
    (reads_blank (behindGap_space hw)).cons (hy.cons (reads_nil ds))
  have parts := left.cons ((tail.node "assign-tail").optional.cons (reads_nil ds))
  exact .rule ((parts.node "assignment").mono fun _ => means_assign ht)

theorem written_assign (ho : op ∈ assignOperators) (ht : x.isAssignable = true)
    (hx : Target p x (x.text loose)) (hy : Written p loose y) :
    Written p loose (.assign l op x y) := by
  have htext (ds : List Char) : (Node.assign l op x y).text loose ++ ds
      = x.text loose ++ ' ' :: (op.toList ++ ' ' :: (parens (y.text loose) ++ ds)) := by
    show (_ ++ ' ' :: op.toList ++ ' ' :: _) ++ ds = _
    simp only [List.append_assoc, List.cons_append]
  refine ⟨fun ds _ => ?_, fun ds hd => ?_⟩
  all_goals rw [htext]
  · exact hx.opens _ (stopsRun_space _)
  · exact expression_of_assign ho ht hx (opens_parens _ ds).solid hd
      (hy.assignment hd.final.unassigned)

/-! ## Accesses -/

/-- **An operand with an access behind it** is read back as a target. -/
theorem Written.accessed {Q : Tree → Prop} (hx : Written p loose x)
    (htext : n.text loose = parens (x.text loose) ++ cs)
    (hlink : ∀ ds, StopsRun isNameChar ds → Reads accessTail (cs ++ ds) ds [Q])
    (hmeans : ∀ t, Tagged "access" [Means p x, Q] t → Means p n t) :
    Target p n (n.text loose) := by
  refine ⟨fun ds _ => ?_, fun ds _ => ?_, fun ds hd hs => ?_⟩
  all_goals rw [htext]
  · rw [List.append_assoc]
    exact opens_parens _ _
  · rw [List.append_assoc]
    exact unaryOperator_parens _ _
  · exact (hx.link (hlink ds hs) hd).mono hmeans

/-- An access that does not start with its mark. -/
theorem refuses_link {name : Rule} {tag : String} {qs : List (Peg Rule)}
    (hname : hostForm name = .node tag (.seq (blank :: punct s :: qs))) (hsolid : Solid cs)
    (hs : literal s cs = none) : Refuses (.rule name) cs := by
  refine .rule ?_
  rw [hname]
  exact (refuses_spaced (refuses_punct (by rw [hsolid, hs])) qs).node tag

theorem target_member (hx : Written p loose x) (hn : isName name.toList = true) :
    Target p (.member l x name) ((Node.member l x name).text loose) := by
  have htext : (Node.member l x name).text loose
      = parens (x.text loose) ++ '.' :: name.toList := rfl
  refine hx.accessed htext (fun ds hs => ?_) fun t => means_member
  have hsolid : Solid ('.' :: (name.toList ++ ds)) := solid_cons (by decide) (by decide) _
  have property := (reads_lexeme (property?_name hn hs)).leaf "property"
  have parts := (reads_blank hsolid).cons <| (reads_punct "." _).cons <|
    (reads_blank (solid_name hn ds)).cons (property.cons (reads_nil ds))
  have member : Reads (.rule .memberAccess) _ ds _ := .rule (parts.node "member")
  have call : Refuses (.rule .callArguments) ('.' :: (name.toList ++ ds)) :=
    refuses_link rfl hsolid rfl
  exact call.reads (member.here _)

theorem target_index (hx : Written p loose x) (hy : Written p loose y) :
    Target p (.index l x y) ((Node.index l x y).text loose) := by
  have htext : (Node.index l x y).text loose
      = parens (x.text loose) ++ '[' :: (parens (y.text loose) ++ [']']) := by
    show _ ++ '[' :: _ ++ [']'] = _
    rw [List.append_assoc]
    rfl
  refine hx.accessed htext (fun ds _ => ?_) fun t => means_index
  have hend := ends_bracket ds
  have hsolid : Solid ('[' :: (parens (y.text loose) ++ ']' :: ds)) :=
    solid_cons (by decide) (by decide) _
  have key := expression_of_primary hend (hy.primary _) (unaryOperator_parens _ _)
  have parts := (reads_blank hsolid).cons <| (reads_punct "[" _).cons <|
    (reads_blank (opens_parens _ _).solid).cons <| key.cons <|
    (reads_blank (solid_closing hend.closing)).cons ((reads_punct "]" ds).cons (reads_nil ds))
  have index : Reads (.rule .indexAccess) _ ds _ := .rule (parts.node "index")
  have call : Refuses (.rule .callArguments) _ := refuses_link rfl hsolid rfl
  have member : Refuses (.rule .memberAccess) _ := refuses_link rfl hsolid rfl
  rw [List.cons_append, List.append_assoc]
  exact call.reads (member.reads (index.here _))

theorem target_call (hx : Written p loose x) (h : ∀ n ∈ ns, Written p loose n) :
    Target p (.call l x ns) ((Node.call l x ns).text loose) := by
  have htext : (Node.call l x ns).text loose
      = parens (x.text loose) ++ parens (listed (Node.operandTexts loose ns)) := rfl
  refine hx.accessed htext (fun ds _ => ?_) fun t => means_call
  have hend := ends_paren ds
  rw [parens_append]
  have parts := (reads_blank (solid_cons (by decide) (by decide) _)).cons <|
    (reads_punct "(" _).cons <| (reads_blank (solid_operandTexts loose ns hend)).cons <|
    (reads_operands h hend (reads_nil _)).cons <| (reads_blank (solid_closing hend.closing)).cons <|
    (reads_punct ")" ds).cons (reads_nil ds)
  simp only [List.nil_append, List.append_nil] at parts
  have call : Reads (.rule .callArguments) _ ds _ := .rule (parts.node "call")
  exact call.here _

/-! ## All expressions -/

/-- **Every expression that obeys the static rules is read back**, also as a target if it is
assignable. -/
theorem written_expression (h : Expression p.waits n) (loose : Bool) :
    Written p loose n ∧ (n.isAssignable = true → Target p n (n.text loose)) := by
  induction h with
  | literal hv => exact ⟨written_literal hv, nofun⟩
  | template hc _ ih => exact ⟨written_template hc fun n hn => (ih n hn).1, nofun⟩
  | @identifier l name hn =>
    have target : Target p (.identifier l name) (Node.text loose (.identifier l name)) :=
      target_identifier hn
    exact ⟨target.written, fun _ => target⟩
  | array _ ih => exact ⟨written_array fun n hn => (ih n hn).1, nofun⟩
  | unary ho _ ih => exact ⟨written_unary ho ih.1, nofun⟩
  | comma _ _ ihx ihy => exact ⟨written_comma ihx.1 ihy.1, nofun⟩
  | binary ho _ _ ihx ihy => exact ⟨written_binary ho ihx.1 ihy.1, nofun⟩
  | logical ho _ _ ihx ihy => exact ⟨written_logical ho ihx.1 ihy.1, nofun⟩
  | conditional _ _ _ ihx ihy ihz => exact ⟨written_conditional ihx.1 ihy.1 ihz.1, nofun⟩
  | assign ho ht _ _ ihx ihy => exact ⟨written_assign ho ht (ihx.2 ht) ihy.1, nofun⟩
  | @update l op before x ho ht _ ih =>
    have inner : Target p x (if loose then x.text loose else parens (x.text loose)) := by
      cases loose with
      | true => exact ih.2 ht
      | false => exact ih.1.target
    cases before with
    | true => exact ⟨written_updateBefore ho ht inner rfl, nofun⟩
    | false => exact ⟨written_updateBehind ho ht inner rfl, nofun⟩
  | call _ _ ih ihs => exact ⟨(target_call ih.1 fun n hn => (ihs n hn).1).written, nofun⟩
  | @member l x name _ hn ih =>
    have target : Target p (.member l x name) _ := target_member ih.1 hn
    exact ⟨target.written, fun _ => target⟩
  | @index l x k _ _ ihx ihy =>
    have target : Target p (.index l x k) _ := target_index ihx.1 ihy.1
    exact ⟨target.written, fun _ => target⟩
  | await ha _ ih => exact ⟨written_await ha ih.1, nofun⟩

end LedSketch.HostText
