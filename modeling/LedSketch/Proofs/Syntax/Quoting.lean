import LedSketch.Proofs.Dialect.Tokens
import LedSketch.Proofs.Syntax.RoundTrip

/-!
# Texts in quotes

A text can be written between double quotes, single quotes or backticks, with a backslash in front
of what would end it or be read as something else. The scanner, the lexemes of strings and chunks
and the replacement of escapes read these backslashes each in its own way; on a text that is written
like this they agree, whatever the text looks like.

* `LiteralForm`: the three forms, what they write, and what a text in them means.
* `run_text`, `reads_text`: the pass copies a text in quotes, and the grammar reads what it means.
* `text_survives`: the assignment of a text, from the sketch to the program.
-/

namespace LedSketch.HostText

open Text Scan Scanner Dialect Sketch Grammar Lexeme LedSketch.Tree

/-- The forms in which a text can be written. -/
inductive LiteralForm where
  | string (quote : Quote)
  | template
deriving DecidableEq, Repr

namespace LiteralForm

/-- The mark at both ends. -/
def mark : LiteralForm → Char
  | string q => q.char
  | template => '\x60'

/-- What is written for a character. -/
def char : LiteralForm → Char → List Char
  | string q => quotedBy q.char
  | template => chunkChar

/-- A text in quotes. -/
def text (f : LiteralForm) (t : String) : List Char := f.mark :: t.toList.flatMap f.char ++ [f.mark]

/-- What a text in quotes means. -/
def value : LiteralForm → String → Node
  | string _, t => .literal none (.str t)
  | template, t => .template none (if t = "" then [] else [.inl t])

/-- The statement that assigns a text. -/
def statement (f : LiteralForm) (t : String) : List Char := "x = ".toList ++ f.text t ++ [';']

variable {p : Setting} {r : Rewriter} {ds : List Char}

theorem unplaced_value (f : LiteralForm) (t : String) : (f.value t).unplaced = f.value t := by
  cases f with
  | string q => rfl
  | template =>
    show Node.template none (Node.unplacedParts (if t = "" then [] else [.inl t]))
      = .template none _
    split_ifs <;> rfl

theorem text_append (f : LiteralForm) (t : String) (ds : List Char) :
    f.text t ++ ds = f.mark :: (t.toList.flatMap f.char ++ f.mark :: ds) := by
  simp only [text, List.cons_append, List.append_assoc, List.nil_append]

theorem statement_eq (f : LiteralForm) (t : String) :
    f.statement t = "x".toList ++ ' ' :: ("=".toList ++ ' ' :: (f.text t ++ [';'])) :=
  List.append_assoc ..

/-! ## The pass -/

/-- The scanner takes a string to its closing mark. -/
theorem isQuotable_flatMap (q : Quote) (cs : List Char) :
    isQuotable q.char (cs.flatMap (quotedBy q.char)) = true := by
  induction cs with
  | nil => rfl
  | cons c cs ih =>
    rw [List.flatMap_cons]
    generalize cs.flatMap (quotedBy q.char) = ds at ih ⊢
    unfold quotedBy
    split_ifs with hn hq
    · exact ih
    · exact ih
    · rw [not_or] at hq
      rw [List.singleton_append, isQuotable.eq_3 _ _ _ fun _ _ h => absurd h hq.2]
      simp [hq, ih]

/-- The scanner takes a template to its closing mark, and no interpolation opens in it. -/
theorem isPlain_flatMap (cs : List Char) : isPlain (cs.flatMap chunkChar) = true := by
  induction cs with
  | nil => rfl
  | cons c cs ih =>
    rw [List.flatMap_cons]
    generalize cs.flatMap chunkChar = ds at ih ⊢
    unfold chunkChar
    split_ifs with hc
    · exact ih
    · rw [not_or, not_or] at hc
      rw [List.singleton_append, isPlain.eq_4 _ _ (fun _ _ h => absurd h hc.2.2)
        fun h => absurd h hc.2.1]
      simp [hc, ih]

/-- **A text in quotes is copied.** -/
theorem run_text (hr : r.scanner.mode = .code) (f : LiteralForm) (t : String) (z : List Char) :
    r.run (f.text t ++ z) = f.text t ++ (r.after none).run z := by
  rw [text_append, text_append]
  cases f with
  | string q => exact Rewriter.run_literal hr ⟨q, _, isQuotable_flatMap q t.toList⟩ z
  | template =>
    have chunk := Rewriter.run_chunk r ⟨_, isPlain_flatMap t.toList⟩ ('\x60' :: z) (by simp)
    rw [mark, Rewriter.run_openTemplate hr, char, chunk, Rewriter.run_closeTemplate hr]

/-- **The pass leaves the assignment of a text as it is.** -/
theorem toHostForm_statement (f : LiteralForm) (t : String) :
    toHostForm (String.ofList (f.statement t)) = String.ofList (f.statement t) := by
  have blank (r : Rewriter) (hr : r.scanner.mode = .code) (z : List Char) :
      r.run (' ' :: z) = ' ' :: r.run z :=
    Rewriter.run_blanks hr (List.forall_mem_singleton.mpr (by decide)) z
  have hpeek (z : List Char) : peekChar? (' ' :: '=' :: z) ≠ some '(' := by
    rw [show peekChar? (' ' :: '=' :: z) = some '=' from rfl]
    decide
  have name := Rewriter.run_variable (r := {}) rfl ⟨['x'], by decide, by decide⟩
    (stopsRun_space ('=' :: ' ' :: (f.text t ++ [';']))) (.inl (hpeek _))
  have value : (({} : Rewriter).after (some "x")).run (' ' :: '=' :: ' ' :: (f.text t ++ [';']))
      = ' ' :: '=' :: ' ' :: (f.text t ++ [';']) := by
    rw [blank _ rfl, Rewriter.run_simpleMark rfl (by decide), blank _ rfl, run_text rfl,
      Rewriter.run_semicolon rfl rfl, Rewriter.run_nil]
  rw [toHostForm, String.toList_ofList, statement_eq]
  exact congrArg String.ofList (name.trans (congrArg ('x' :: ·) value))

/-! ## Reading -/

/-- **A text in quotes is read as what it means.** -/
theorem reads_text (f : LiteralForm) (t : String) (ds : List Char) :
    Reads (.rule .primary) (f.text t ++ ds) ds [Means p (f.value t)] := by
  cases f with
  | string q => exact reads_quoted q t ds
  | template =>
    have htext : text template t
        = (Node.template none (if t = "" then [] else [.inl t])).text false := by
      show _ = '\x60' :: Node.partsText false _ ++ ['\x60']
      split_ifs with ht
      · rw [ht]
        rfl
      · rw [Node.partsText, Node.partsText, List.append_nil]
        rfl
    rw [htext]
    refine reads_template ?_ (fun n hn => ?_) ds
    · split_ifs with ht
      · trivial
      · exact ⟨ht, by simp, trivial⟩
    · split_ifs at hn <;> simp at hn

theorem unaryOperator_text (f : LiteralForm) (t : String) (ds : List Char) :
    unaryOperator (f.text t ++ ds) = none := by
  rw [text_append]
  cases f with
  | string q => refine unaryOperator_mark ?_ ?_ _ <;> cases q <;> decide
  | template => rfl

theorem solid_text (f : LiteralForm) (t : String) (ds : List Char) : Solid (f.text t ++ ds) := by
  rw [text_append]
  cases f with
  | string q => refine solid_cons ?_ ?_ _ <;> cases q <;> decide
  | template => exact solid_cons (by decide) (by decide) _

theorem assignment_of_primary {cs : List Char} {n : Node} (hd : Ends ds)
    (h : Reads (.rule .primary) cs ds [Means p n]) (hcs : unaryOperator cs = none) :
    Reads (.rule .assignment) cs ds [Means p n] := by
  have hu := hd.final.unassigned
  have unary := reads_unary (reads_postfixed (reads_access h hu.unasked.still.unlinked)
    hu.unasked.still.update) hcs
  exact reads_assignment (reads_conditional (reads_binary .logicalOr unary hu.unasked.still)
    hu.unasked.question) hu.assign

/-- **The text that is assigned is read back.** -/
theorem readHostForm_statement (f : LiteralForm) (t : String) :
    ∃ n, readHostForm (String.ofList (f.statement t)) = .ok n ∧
      n.unplaced = .program none
        [.exprStmt none (.assign none "=" (.identifier none "x") (f.value t))] := by
  have hd := ends_semicolon []
  have hx : IsIdentifier "x" := ⟨by decide, by decide⟩
  have value := assignment_of_primary hd (reads_text (p := ⟨none, false⟩) f t [';'])
    (unaryOperator_text f t _)
  have assign : Reads _ _ _ [Means _ (.assign none "=" (.identifier none "x") (f.value t))] :=
    expression_of_assign (by decide) rfl (target_identifier hx) (solid_text f t _) hd value
  obtain ⟨n, hread, hn⟩ := readHostForm_expression
    (opens_identifier hx (stopsRun_space _)) assign
  refine ⟨n, by rw [statement_eq, hread], ?_⟩
  simp only [hn, Node.unplaced, Node.unplacedAll, unplaced_value]

/-- **All readers agree on a text in quotes**: the pass leaves its assignment as it is, and the
value that is assigned is the text. -/
theorem text_survives (f : LiteralForm) (t : String) :
    toHostForm (String.ofList (f.statement t)) = String.ofList (f.statement t) ∧
      ∃ n, readHostForm (String.ofList (f.statement t)) = .ok n ∧
        n.unplaced = .program none
          [.exprStmt none (.assign none "=" (.identifier none "x") (f.value t))] :=
  ⟨toHostForm_statement f t, readHostForm_statement f t⟩

end LiteralForm

end LedSketch.HostText
