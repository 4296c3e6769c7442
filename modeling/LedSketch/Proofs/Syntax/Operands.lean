import LedSketch.Proofs.Syntax.Climbing

/-!
# Operands are read back

Since all operands are in parentheses, each of them is read by the tightest rule of expressions, and
carried up as far as what comes behind it allows. Literals and names are read as they are.

* `Opens`: a text that no other statement starts with.
* `Ends`, `Void`: where expressions end, and where none starts.
* `Written`, `Target`: what is read back as an expression, and as the target of an assignment.
-/

namespace LedSketch.HostText

open Text Scan Scanner Dialect Grammar Lexeme LedSketch.Tree

variable {cs ds es w : List Char} {s op name : String} {c : Char} {p : Setting} {loose : Bool}
  {n x y z : Node} {ns : List Node} {l : Option Loc}

/-! ## How texts start -/

/-- The words that statements other than expressions start with, or go on with. -/
def statementWords : List String :=
  ["async", "function", "let", "const", "var", "if", "else", "for", "while", "do", "return", "break",
    "continue"]

/-- A text that starts as an expression does. -/
structure Opens (cs : List Char) : Prop where
  head : ∃ c es, cs = c :: es ∧ isWhiteSpace c = false ∧ c ∉ ['/', '{', '}', ';']
  word : ∀ s ∈ statementWords, word s cs = none

theorem Opens.solid (h : Opens cs) : Solid cs := by
  obtain ⟨c, es, rfl, hw, hc⟩ := h.head
  simp only [List.mem_cons, List.not_mem_nil, or_false, not_or] at hc
  exact solid_cons hw hc.1 es

/-- No block and no empty statement starts here. -/
theorem Opens.other (h : Opens cs) {d : Char} (hs : s.toList = d :: w)
    (hd : d ∈ ['/', '{', '}', ';']) : literal s cs = none := by
  obtain ⟨c, es, rfl, -, hc⟩ := h.head
  exact literal_other hs (by rintro rfl; exact hc hd) es

theorem isName_statementWords : ∀ s ∈ statementWords, isName s.toList = true := by decide

/-- No name starts here, and no blank or block. -/
theorem opens_mark (hn : isNameStart c = false) (hw : isWhiteSpace c = false)
    (hc : c ∉ ['/', '{', '}', ';']) (cs : List Char) : Opens (c :: cs) :=
  ⟨⟨c, cs, rfl, hw, hc⟩, fun s hs => word_mark (isName_statementWords s hs) hn cs⟩

theorem isWhiteSpace_of_isNameStart (hc : isNameStart c = true) : isWhiteSpace c = false := by
  rw [← Bool.not_eq_true]
  intro hw
  rw [isNameStart_of_isSpace (isSpace_of_isWhiteSpace hw)] at hc
  cases hc

/-- What is not where a name starts. -/
theorem ne_of_isNameStart {d : Char} (hc : isNameStart c = true) (hd : isNameStart d = false) :
    c ≠ d := by
  rintro rfl
  rw [hd] at hc
  cases hc

theorem solid_name (hw : isName w = true) (ds : List Char) : Solid (w ++ ds) := by
  cases w with
  | nil => cases hw
  | cons c w =>
    have hc := (isName_cons.mp hw).1
    exact solid_cons (isWhiteSpace_of_isNameStart hc) (ne_of_isNameStart hc (by decide)) _

/-- Where a name starts, no mark does. -/
theorem literal_name {d : Char} (hw : isName w = true) (hs : s.toList = d :: es)
    (hd : isNameStart d = false) (ds : List Char) : literal s (w ++ ds) = none := by
  cases w with
  | nil => cases hw
  | cons c w => exact literal_other hs (ne_of_isNameStart (isName_cons.mp hw).1 hd) _

theorem opens_name (hw : isName w = true) (hne : ∀ s ∈ statementWords, w ≠ s.toList)
    (hds : StopsRun isNameChar ds) : Opens (w ++ ds) := by
  refine ⟨?_, fun s hs => word_other hw hds (isName_statementWords s hs) (hne s hs)⟩
  cases w with
  | nil => cases hw
  | cons c w =>
    have hc := (isName_cons.mp hw).1
    refine ⟨c, w ++ ds, rfl, isWhiteSpace_of_isNameStart hc, ?_⟩
    simp only [List.mem_cons, List.not_mem_nil, or_false, not_or]
    exact ⟨ne_of_isNameStart hc (by decide), ne_of_isNameStart hc (by decide),
      ne_of_isNameStart hc (by decide), ne_of_isNameStart hc (by decide)⟩

theorem isNameStart_of_isDigit (hc : c.isDigit = true) : isNameStart c = false := by
  rw [← Bool.not_eq_true]
  intro h
  have := Reader.isDecimalDigit_of_isNameStart h
  rw [isDecimalDigit_of_isDigit hc] at this
  cases this

theorem opens_digits (k : Nat) (ds : List Char) : Opens (Nat.toDigits 10 k ++ ds) := by
  have hall : ∀ c ∈ Nat.toDigits 10 k, c.isDigit = true := fun c => Decimal.isDigit_of_mem_digits
  have hne : Nat.toDigits 10 k ≠ [] := Decimal.digits_ne_nil k
  generalize Nat.toDigits 10 k = w at *
  cases w with
  | nil => exact absurd rfl hne
  | cons c w =>
    have hc := hall c List.mem_cons_self
    refine opens_mark ?_ (isWhiteSpace_of_isDigit hc) ?_ _
    · exact isNameStart_of_isDigit hc
    · simp only [List.mem_cons, List.not_mem_nil, or_false, not_or]
      refine ⟨?_, ?_, ?_, ?_⟩ <;> rintro rfl <;> exact absurd hc (by decide)

/-- An identifier is none of the words of the language. -/
theorem IsIdentifier.ne {name : String} (hn : IsIdentifier name) {s : String}
    (hs : s ∈ reservedWords) : name.toList ≠ s.toList := by
  intro h
  rw [String.toList_inj.mp h] at hn
  exact hn.2 hs

theorem opens_identifier (hn : IsIdentifier name) (hds : StopsRun isNameChar ds) :
    Opens (name.toList ++ ds) := by
  refine opens_name hn.1 (fun s hs => hn.ne ?_) hds
  revert s
  decide

theorem unaryOperator_mark (hn : isNameStart c = false) (hc : c ∉ ['+', '-', '!', '~'])
    (cs : List Char) : unaryOperator (c :: cs) = none := by
  simp only [List.mem_cons, List.not_mem_nil, or_false, not_or] at hc
  simp only [unaryOperator, firstOf, List.findSome?_cons, List.findSome?_nil]
  rw [literal_other rfl hc.1, literal_other rfl hc.2.1, literal_other rfl hc.2.2.1,
    literal_other rfl hc.2.2.2, literal_other rfl hc.1, literal_other rfl hc.2.1,
    word_mark (by decide) hn, word_mark (by decide) hn]

theorem unaryOperator_digits (k : Nat) (ds : List Char) :
    unaryOperator (Nat.toDigits 10 k ++ ds) = none := by
  have hall : ∀ c ∈ Nat.toDigits 10 k, c.isDigit = true := fun c => Decimal.isDigit_of_mem_digits
  have hne : Nat.toDigits 10 k ≠ [] := Decimal.digits_ne_nil k
  generalize Nat.toDigits 10 k = w at *
  cases w with
  | nil => exact absurd rfl hne
  | cons c w =>
    have hc := hall c List.mem_cons_self
    refine unaryOperator_mark (isNameStart_of_isDigit hc) ?_ _
    simp only [List.mem_cons, List.not_mem_nil, or_false, not_or]
    refine ⟨?_, ?_, ?_, ?_⟩ <;> rintro rfl <;> exact absurd hc (by decide)

/-- No operator stands in front of a name that is not reserved. -/
theorem unaryOperator_name (hw : isName w = true) (hne : w ≠ "typeof".toList ∧ w ≠ "await".toList)
    (hds : StopsRun isNameChar ds) : unaryOperator (w ++ ds) = none := by
  simp only [unaryOperator, firstOf, List.findSome?_cons, List.findSome?_nil]
  rw [literal_name hw rfl (by decide), literal_name hw rfl (by decide),
    literal_name hw rfl (by decide), literal_name hw rfl (by decide),
    literal_name hw rfl (by decide), literal_name hw rfl (by decide),
    word_other hw hds (by decide) hne.1, word_other hw hds (by decide) hne.2]

/-- Two words are operators. -/
theorem unaryOperator_word (ho : op = "typeof" ∨ op = "await") (hds : StopsRun isNameChar ds) :
    unaryOperator (op.toList ++ ds) = some op.toList.length := by
  have hw : isName op.toList = true := by rcases ho with rfl | rfl <;> decide
  simp only [unaryOperator, firstOf, List.findSome?_cons, List.findSome?_nil]
  rw [literal_name hw rfl (by decide), literal_name hw rfl (by decide),
    literal_name hw rfl (by decide), literal_name hw rfl (by decide),
    literal_name hw rfl (by decide), literal_name hw rfl (by decide)]
  rcases ho with rfl | rfl
  · rw [word_append "typeof" hds]
  · rw [word_other hw hds (by decide) (by decide), word_append "await" hds]

/-! ## Up to the end of an expression -/

/-- A text that ends an expression. -/
def Ends (ds : List Char) : Prop := ∃ c ∈ [')', ']', '}', ';'], ∃ es, ds = c :: es

theorem Ends.closing (h : Ends ds) : Closing ds := by
  obtain ⟨c, hc, h⟩ := h
  exact ⟨c, List.mem_append_left [','] hc, h⟩

theorem Ends.final (h : Ends ds) : Final ds := by
  refine final_closing h.closing ?_
  obtain ⟨c, hc, es, rfl⟩ := h
  refine literal_other rfl ?_ es
  rintro rfl
  exact absurd hc (by decide)

theorem ends_paren (es : List Char) : Ends (')' :: es) := ⟨_, by simp, es, rfl⟩

theorem ends_bracket (es : List Char) : Ends (']' :: es) := ⟨_, by simp, es, rfl⟩

theorem ends_brace (es : List Char) : Ends ('}' :: es) := ⟨_, by simp, es, rfl⟩

theorem ends_semicolon (es : List Char) : Ends (';' :: es) := ⟨_, by simp, es, rfl⟩

section

variable (hd : Ends ds)
include hd

theorem expression_of_assignment (h : Reads (.rule .assignment) cs ds [Means p n]) :
    Reads (.rule .expression) cs ds [Means p n] := reads_expression h hd.final.comma

theorem expression_of_conditional (h : Reads (.rule .conditional) cs ds [Means p n]) :
    Reads (.rule .expression) cs ds [Means p n] :=
  expression_of_assignment hd (reads_assignment h hd.final.unassigned.assign)

theorem expression_of_binary {l : Level} (h : Reads (.rule (.binary l)) cs ds [Means p n]) :
    Reads (.rule .expression) cs ds [Means p n] :=
  have hu := hd.final.unassigned.unasked
  expression_of_conditional hd (reads_conditional (reads_loosest h hu.still) hu.question)

theorem expression_of_unary (h : Reads (.rule .unary) cs ds [Means p n]) :
    Reads (.rule .expression) cs ds [Means p n] :=
  expression_of_binary hd (reads_binary .logicalOr h hd.final.unassigned.unasked.still)

theorem expression_of_access (h : Reads (.rule .access) cs ds [Means p n])
    (hcs : unaryOperator cs = none) : Reads (.rule .expression) cs ds [Means p n] :=
  expression_of_unary hd
    (reads_unary (reads_postfixed h hd.final.unassigned.unasked.still.update) hcs)

theorem expression_of_primary (h : Reads (.rule .primary) cs ds [Means p n])
    (hcs : unaryOperator cs = none) : Reads (.rule .expression) cs ds [Means p n] :=
  expression_of_access hd (reads_access h hd.final.unassigned.unasked.still.unlinked) hcs

end

/-! ## Operands -/

/-- **What is read back as an expression.** -/
structure Written (p : Setting) (loose : Bool) (n : Node) : Prop where
  opens : ∀ ds, Ends ds → Opens (n.text loose ++ ds)
  reads : ∀ ds, Ends ds → Reads (.rule .expression) (n.text loose ++ ds) ds [Means p n]

theorem parens_append (cs ds : List Char) : parens cs ++ ds = '(' :: (cs ++ ')' :: ds) := by
  simp [parens]

theorem opens_parens (cs ds : List Char) : Opens (parens cs ++ ds) := by
  rw [parens_append]
  exact opens_mark (by decide) (by decide) (by decide) _

theorem Written.group (h : Written p loose n) (ds : List Char) :
    Reads (.rule .group) (parens (n.text loose) ++ ds) ds [Means p n] := by
  rw [parens_append]
  have hin := h.reads _ (ends_paren ds)
  have parts : Reads (.seq [punct "(", blank, .rule .expression, blank, punct ")"])
      ('(' :: (n.text loose ++ ')' :: ds)) ds [Means p n] :=
    .cons (reads_punct "(" _) <| .cons (reads_blank (h.opens _ (ends_paren ds)).solid) <|
      .cons hin <| .cons (reads_blank (solid_closing (ends_paren ds).closing)) <|
      .cons (reads_punct ")" ds) (reads_nil ds)
  have whole : Reads (hostForm .group) ('(' :: (n.text loose ++ ')' :: ds)) ds _ :=
    parts.node "group"
  exact whole.rule.mono fun _ => means_alone (by decide)

/-- **An operand in parentheses is a primary expression**, whatever comes behind it. -/
theorem Written.primary (h : Written p loose n) (ds : List Char) :
    Reads (.rule .primary) (parens (n.text loose) ++ ds) ds [Means p n] := by
  have hgroup := h.group ds
  rw [parens_append] at hgroup ⊢
  refine .rule (Refuses.reads ?_ <| Refuses.reads ?_ <| Refuses.reads ?_ <| Refuses.reads ?_ <|
    Refuses.reads ?_ <| Refuses.reads ?_ <| Refuses.reads ?_ <| hgroup.here _)
  · exact (refuses_token (numeral?_other (by decide) (by decide) _)).leaf _
  · exact .rule ((refuses_token rfl).leaf _)
  · exact .rule (((refuses_punct rfl).first _).node _)
  · exact (refuses_token rfl).leaf _
  · exact (refuses_token rfl).leaf _
  · exact (refuses_token rfl).leaf _
  · exact .rule (((refuses_punct rfl).first _).node _)

theorem unaryOperator_parens (cs ds : List Char) : unaryOperator (parens cs ++ ds) = none := by
  rw [parens_append]
  rfl

theorem Written.access (h : Written p loose n) (hd : Unlinked ds) :
    Reads (.rule .access) (parens (n.text loose) ++ ds) ds [Means p n] :=
  reads_access (h.primary ds) hd

/-- What comes behind a space, if it is an operand. -/
theorem reads_space (cs ds : List Char) :
    Reads blank (' ' :: (parens cs ++ ds)) (parens cs ++ ds) [] :=
  reads_blank (behindGap_space (opens_parens cs ds).solid)

theorem Written.unary (h : Written p loose n) (hd : Still 0 ds) :
    Reads (.rule .unary) (parens (n.text loose) ++ ds) ds [Means p n] :=
  reads_unary (reads_postfixed (h.access hd.unlinked) hd.update) (unaryOperator_parens _ _)

theorem Written.logicalOr (h : Written p loose n) (hd : Still 10 ds) :
    Reads (.rule (.binary .logicalOr)) (parens (n.text loose) ++ ds) ds [Means p n] :=
  reads_binary .logicalOr (h.unary (hd.mono (Nat.zero_le _))) hd

theorem Written.assignment (h : Written p loose n) (hd : Unassigned ds) :
    Reads (.rule .assignment) (parens (n.text loose) ++ ds) ds [Means p n] :=
  reads_assignment (reads_conditional (h.logicalOr hd.unasked.still) hd.unasked.question) hd.assign

/-! ## Literals and names -/

/-- The alternatives that no name is read by. -/
theorem refuses_name (hw : isName w = true) (ds : List Char) :
    Refuses (.leaf "number" (.token numeral?)) (w ++ ds) ∧ Refuses (.rule .string) (w ++ ds) ∧
      Refuses (.rule .template) (w ++ ds) := by
  refine ⟨?_, .rule (.leaf (refuses_token ?_) _),
    .rule (.node (.first (refuses_punct (literal_name hw rfl (by decide) ds)) _) _)⟩
  all_goals
    cases w with
    | nil => cases hw
    | cons c w =>
      have hc := (isName_cons.mp hw).1
      first
        | exact (refuses_token (numeral?_other (Reader.isDecimalDigit_of_isNameStart hc)
            (ne_of_isNameStart hc (by decide)) _)).leaf _
        | rw [List.cons_append, string?, if_neg]
          simp [ne_of_isNameStart hc (d := '"') (by decide),
            ne_of_isNameStart hc (d := '\'') (by decide)]

theorem reads_number {k : Nat} (hk : (Nat.toDigits 10 k).length ≤ Reading.digitLimit)
    (hd : Closing ds) : Reads (.rule .primary) (Nat.toDigits 10 k ++ ds) ds
      [Means p (.literal l (.num (.int k)))] := by
  have digits := (reads_lexeme (numeral?_digits k hd)).leaf "number"
  exact .rule ((digits.here _).mono fun _ ht => means_number ht (ofNumeral_digits hk))

theorem reads_quoted (q : Quote) (t : String) (ds : List Char) :
    Reads (.rule .primary) (quotedText q t ++ ds) ds [Means p (.literal l (.str t))] := by
  have string : Reads (hostForm .string) (quotedText q t ++ ds) ds _ :=
    (reads_lexeme (string?_quoted q t ds)).leaf "string"
  refine .rule ((Refuses.reads ?_ (string.rule.here _)).mono fun _ ht =>
    means_string ht (decodeText_unquoted q t))
  rw [quotedText_append]
  refine (refuses_token (numeral?_other ?_ ?_ _)).leaf _ <;> cases q <;> decide

/-- No operator stands in front of a string. -/
theorem unaryOperator_quoted (q : Quote) (t : String) (ds : List Char) :
    unaryOperator (quotedText q t ++ ds) = none := by
  rw [quotedText_append]
  refine unaryOperator_mark ?_ ?_ _ <;> cases q <;> decide

theorem reads_boolean (b : Bool) (hd : StopsRun isNameChar ds) :
    Reads (.rule .primary) (ofValue (.bool b) ++ ds) ds [Means p (.literal l (.bool b))] := by
  have hb : firstOf [word "true", word "false"] (ofValue (.bool b) ++ ds)
      = some (ofValue (.bool b)).length := by
    cases b with
    | true =>
      have := word_append "true" hd
      simp only [ofValue, firstOf, List.findSome?_cons, this]
    | false =>
      have hother : word "true" ("false".toList ++ ds) = none :=
        word_other (by decide) hd (by decide) (by decide)
      have := word_append "false" hd
      simp only [ofValue, firstOf, List.findSome?_cons, hother, this]
  obtain ⟨hnumber, hstring, htemplate⟩ := refuses_name (w := ofValue (.bool b))
    (by cases b <;> decide) ds
  exact .rule ((hnumber.reads (hstring.reads (htemplate.reads
    (((reads_lexeme hb).leaf "boolean").here _)))).mono fun _ => means_boolean)

theorem reads_null (hd : StopsRun isNameChar ds) :
    Reads (.rule .primary) (ofValue .null ++ ds) ds [Means p (.literal l .null)] := by
  have htrue : word "true" ("null".toList ++ ds) = none :=
    word_other (by decide) hd (by decide) (by decide)
  have hfalse : word "false" ("null".toList ++ ds) = none :=
    word_other (by decide) hd (by decide) (by decide)
  have hboolean : firstOf [word "true", word "false"] ("null".toList ++ ds) = none := by
    simp only [firstOf, List.findSome?_cons, List.findSome?_nil, htrue, hfalse]
  obtain ⟨hnumber, hstring, htemplate⟩ := refuses_name (w := "null".toList) (by decide) ds
  exact .rule ((hnumber.reads (hstring.reads (htemplate.reads (((refuses_token hboolean).leaf _).reads
    (((reads_lexeme (word_append "null" hd)).leaf "null").here _))))).mono fun _ => means_null)

theorem reads_identifier (hn : IsIdentifier name) (hd : StopsRun isNameChar ds) :
    Reads (.rule .identifier) (name.toList ++ ds) ds [Spells "name" name.toList] :=
  .rule ((reads_lexeme (identifier?_name hn hd)).leaf "name")

theorem reads_name (hn : IsIdentifier name) (hd : StopsRun isNameChar ds) :
    Reads (.rule .primary) (name.toList ++ ds) ds [Means p (.identifier l name)] := by
  have hother {s : String} (hs : isName s.toList = true) (hmem : s ∈ reservedWords) :
      word s (name.toList ++ ds) = none := word_other hn.1 hd hs (hn.ne hmem)
  obtain ⟨hnumber, hstring, htemplate⟩ := refuses_name hn.1 ds
  refine .rule (hnumber.reads <| hstring.reads <| htemplate.reads <| Refuses.reads ?_ <|
    Refuses.reads ?_ <| Refuses.reads ?_ <| Refuses.reads ?_ <| Refuses.reads ?_ <|
    ((reads_identifier hn hd).mono fun _ => means_name).here _)
  · refine (refuses_token ?_).leaf _
    simp only [firstOf, List.findSome?_cons, List.findSome?_nil,
      hother (s := "true") (by decide) (by decide),
      hother (s := "false") (by decide) (by decide)]
  · exact (refuses_token (hother (by decide) (by decide))).leaf _
  · exact (refuses_token (hother (by decide) (by decide))).leaf _
  · exact .rule (((refuses_punct (literal_name hn.1 rfl (by decide) ds)).first _).node _)
  · exact .rule (((refuses_punct (literal_name hn.1 rfl (by decide) ds)).first _).node _)

/-! ## Where no expression starts -/

/-- What no expression starts with. -/
structure Void (cs : List Char) : Prop where
  primary : Refuses (.rule .primary) cs
  operator : unaryOperator cs = none

theorem refuses_first {name : Rule} {tag : String} {q : Peg Rule} {qs : List (Peg Rule)}
    (hname : hostForm name = .node tag (.seq (q :: qs))) (h : Refuses q cs) :
    Refuses (.rule name) cs := by
  refine .rule ?_
  rw [hname]
  exact (h.first qs).node tag

theorem Void.unary (h : Void cs) : Refuses (.rule .unary) cs :=
  .rule ((((refuses_op h.operator).first _).node _).cons
    (.cons (refuses_first rfl (refuses_first rfl h.primary)) (refuses_nil cs)))

theorem Void.binary (h : Void cs) (l : Level) : Refuses (.rule (.binary l)) cs := by
  induction l using Level.tightest_first with
  | tightest => exact refuses_first rfl h.unary
  | looser l t ht ih =>
    have operand : Refuses (operand l) cs := by
      rw [operand_of_tighter ht]
      exact ih
    exact refuses_first rfl operand

theorem Void.assignment (h : Void cs) : Refuses (.rule .assignment) cs :=
  refuses_first rfl (refuses_first rfl (h.binary .logicalOr))

theorem Void.expression (h : Void cs) : Refuses (.rule .expression) cs :=
  refuses_first rfl h.assignment

/-- The lexemes that primary expressions start with. -/
def primaryLexemes : List Lexeme :=
  [numeral?, string?, literal "\x60", firstOf [word "true", word "false"], word "null",
    word "undefined", literal "[", literal "(", identifier?]

theorem void_of_lexemes (h : ∀ m ∈ primaryLexemes, m cs = none) (ho : unaryOperator cs = none) :
    Void cs := by
  simp only [primaryLexemes, List.forall_mem_cons] at h
  obtain ⟨hnumber, hstring, htemplate, hboolean, hnull, hundefined, harray, hgroup, hname, -⟩ := h
  refine ⟨.rule (refuses_choice fun q hq => ?_), ho⟩
  simp only [List.mem_cons, List.not_mem_nil, or_false] at hq
  rcases hq with rfl | rfl | rfl | rfl | rfl | rfl | rfl | rfl | rfl
  · exact (refuses_token hnumber).leaf _
  · exact .rule ((refuses_token hstring).leaf _)
  · exact refuses_first rfl (refuses_punct htemplate)
  · exact (refuses_token hboolean).leaf _
  · exact (refuses_token hnull).leaf _
  · exact (refuses_token hundefined).leaf _
  · exact refuses_first rfl (refuses_punct harray)
  · exact refuses_first rfl (refuses_punct hgroup)
  · exact .rule ((refuses_token hname).leaf _)

theorem void_nil : Void [] := by
  refine void_of_lexemes (fun m hm => ?_) rfl
  simp only [primaryLexemes, List.mem_cons, List.not_mem_nil, or_false] at hm
  rcases hm with rfl | rfl | rfl | rfl | rfl | rfl | rfl | rfl | rfl <;> rfl

/-- Nothing starts where an expression ends. -/
theorem void_ends (h : Ends ds) : Void ds := by
  obtain ⟨c, hc, es, rfl⟩ := h
  simp only [List.mem_cons, List.not_mem_nil, or_false] at hc
  have hnumber : numeral? (c :: es) = none := by
    rcases hc with rfl | rfl | rfl | rfl <;> exact numeral?_other (by decide) (by decide) es
  refine void_of_lexemes (fun m hm => ?_) (by rcases hc with rfl | rfl | rfl | rfl <;> rfl)
  simp only [primaryLexemes, List.mem_cons, List.not_mem_nil, or_false] at hm
  rcases hm with rfl | hm
  · exact hnumber
  · rcases hc with rfl | rfl | rfl | rfl
    all_goals rcases hm with rfl | rfl | rfl | rfl | rfl | rfl | rfl | rfl <;> rfl

/-! ## Lists -/

/-- A comma comes behind an operand, if its end does not. -/
theorem closing_more (css : List (List Char)) (hd : Ends ds) :
    Closing (css.flatMap (fun es => ',' :: ' ' :: es) ++ ds) := by
  cases css with
  | nil => exact hd.closing
  | cons cs css => exact ⟨',', by decide, _, rfl⟩

/-- Parts behind commas. -/
theorem reads_more {α : Type} {q : Peg Rule} {text : α → List Char} {P : α → Tree → Prop}
    {xs : List α} (hq : ∀ x ∈ xs, ∀ ds, Closing ds → Reads q (text x ++ ds) ds [P x])
    (hsolid : ∀ x ∈ xs, ∀ ds, Solid (text x ++ ds)) (hd : Ends ds) :
    Reads (moreBehindCommas q) ((xs.map text).flatMap (fun es => ',' :: ' ' :: es) ++ ds) ds
      (xs.map P) := by
  induction xs with
  | nil => exact (refuses_spaced (refuses_punct hd.final.comma) _).many
  | cons x xs ih =>
    have hrest := ih (fun y hy => hq y (List.mem_cons_of_mem x hy))
      (fun y hy => hsolid y (List.mem_cons_of_mem x hy))
    rw [List.map_cons, List.flatMap_cons, List.append_assoc, List.cons_append, List.cons_append]
    have part : Reads (.seq [blank, punct ",", blank, q]) _ _ [P x] :=
      .cons (reads_blank (solid_cons (by decide) (by decide) _)) <| .cons (reads_punct "," _) <|
        .cons (reads_blank (behindGap_space (hsolid x List.mem_cons_self _))) <|
        .cons (hq x List.mem_cons_self _ (closing_more (xs.map text) hd)) (reads_nil _)
    exact part.many hrest

/-- Parts with commas between them, at least one. -/
theorem reads_listed {α : Type} {q : Peg Rule} {text : α → List Char} {P : α → Tree → Prop}
    {x : α} {xs : List α}
    (hq : ∀ y ∈ x :: xs, ∀ ds, Closing ds → Reads q (text y ++ ds) ds [P y])
    (hsolid : ∀ y ∈ x :: xs, ∀ ds, Solid (text y ++ ds)) (hd : Ends ds)
    {qs : List (Peg Rule)} (hqs : Reads (.seq qs) ds ds []) :
    Reads (.seq (q :: moreBehindCommas q :: qs)) (listed ((x :: xs).map text) ++ ds) ds
      ((x :: xs).map P) := by
  have hmore := reads_more (fun y hy => hq y (List.mem_cons_of_mem x hy))
    (fun y hy => hsolid y (List.mem_cons_of_mem x hy)) hd
  have parts := (hq x List.mem_cons_self _ (closing_more (xs.map text) hd)).cons (hmore.cons hqs)
  rw [List.append_nil] at parts
  rw [List.map_cons, listed, List.append_assoc]
  exact parts

theorem operandTexts_eq (loose : Bool) (ns : List Node) :
    Node.operandTexts loose ns = ns.map fun n => parens (n.text loose) := by
  induction ns with
  | nil => rfl
  | cons n ns ih => rw [Node.operandTexts, ih, List.map_cons]

theorem solid_operandTexts (loose : Bool) (ns : List Node) (hd : Ends ds) :
    Solid (listed (Node.operandTexts loose ns) ++ ds) := by
  cases ns with
  | nil => exact solid_closing hd.closing
  | cons n ns => exact solid_cons (by decide) (by decide) _

/-- Operands between commas, possibly none. -/
theorem reads_operands (h : ∀ n ∈ ns, Written p loose n) (hd : Ends ds) {qs : List (Peg Rule)}
    (hqs : Reads (.seq qs) ds ds []) :
    Reads (.optional (.seq (.rule .assignment :: moreBehindCommas (.rule .assignment) :: qs)))
      (listed (Node.operandTexts loose ns) ++ ds) ds (ns.map (Means p)) := by
  rw [operandTexts_eq]
  cases ns with
  | nil => exact ((void_ends hd).assignment.first _).optional
  | cons n ns =>
    refine Reads.optional (reads_listed (fun m hm ds hd => ?_) (fun m _ ds => ?_) hd hqs)
    · exact (h m hm).assignment (unassigned_closing hd)
    · exact solid_cons (by decide) (by decide) _

/-! ## Targets -/

/-- **What is read back as the target of an assignment**, from some text. -/
structure Target (p : Setting) (n : Node) (cs : List Char) : Prop where
  opens : ∀ ds, StopsRun isNameChar ds → Opens (cs ++ ds)
  quiet : ∀ ds, StopsRun isNameChar ds → unaryOperator (cs ++ ds) = none
  reads : ∀ ds, Unlinked ds → StopsRun isNameChar ds →
    Reads (.rule .access) (cs ++ ds) ds [Means p n]

theorem Written.target (h : Written p loose n) : Target p n (parens (n.text loose)) :=
  ⟨fun _ _ => opens_parens _ _, fun _ _ => unaryOperator_parens _ _, fun _ hd _ => h.access hd⟩

theorem Target.written (h : Target p n (n.text loose)) : Written p loose n where
  opens ds hd := h.opens ds hd.closing.stopsRun
  reads ds hd := expression_of_access hd
    (h.reads ds hd.final.unassigned.unasked.still.unlinked hd.closing.stopsRun)
    (h.quiet ds hd.closing.stopsRun)

theorem Target.unary (h : Target p n cs) (hd : Still 0 ds) (hs : StopsRun isNameChar ds) :
    Reads (.rule .unary) (cs ++ ds) ds [Means p n] :=
  reads_unary (reads_postfixed (h.reads ds hd.unlinked hs) hd.update) (h.quiet ds hs)

theorem target_identifier (hn : IsIdentifier name) :
    Target p (.identifier l name) name.toList where
  opens ds hd := opens_identifier hn hd
  quiet ds hd := unaryOperator_name hn.1
    ⟨hn.ne (by decide), hn.ne (by decide)⟩ hd
  reads ds hd hs := reads_access (reads_name hn hs) hd

/-- An operand with one access behind it. -/
theorem Written.link (h : Written p loose x) {Q : Tree → Prop}
    (hlink : Reads accessTail (cs ++ ds) ds [Q]) (hd : Unlinked ds) :
    Reads (.rule .access) ((parens (x.text loose) ++ cs) ++ ds) ds
      [Tagged "access" [Means p x, Q]] := by
  rw [List.append_assoc]
  have parts := (h.primary (cs ++ ds)).cons ((hlink.many hd.refuses.many).cons (reads_nil ds))
  exact .rule (parts.node "access")

end LedSketch.HostText
