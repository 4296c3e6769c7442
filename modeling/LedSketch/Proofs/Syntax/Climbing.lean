import LedSketch.Proofs.Grammar.Enough
import LedSketch.Proofs.Grammar.Lexemes
import LedSketch.Proofs.Syntax.Meanings

/-!
# From operands up to expressions

An operand is read by the tightest rule of expressions; each looser rule takes it as it is, unless
its own operator comes next. So what an operand is followed by decides how far it is carried up.

* `behindGap`: what is left of a text behind its blanks.
* `Still`: the text does not go on an operand, as far as some levels of operators can tell.
* `Unassigned`: it does not go on an assignment; `Final`: nor an expression.
* `Climbs`: what is read by one rule is read by another.
-/

namespace LedSketch.Grammar

open Text Scan Scanner Dialect HostText Lexeme LedSketch.Tree

variable {cs ds es w : List Char} {s : String} {c : Char} {p : Setting} {n : Node}

/-! ## Blanks -/

/-- What is left behind the blanks. -/
def behindGap (cs : List Char) : List Char := cs.drop (gapLength cs)

/-- A text that does not start with blanks. -/
def Solid (cs : List Char) : Prop := behindGap cs = cs

theorem solid_nil : Solid [] := List.drop_nil

theorem solid_cons (hc : isWhiteSpace c = false) (hs : c ≠ '/') (cs : List Char) :
    Solid (c :: cs) := by
  have : gapLength (c :: cs) = 0 := by
    rw [gapLength]
    · simp [hc]
    · exact fun _ h => absurd h hs
    · exact fun _ h => absurd h hs
  rw [Solid, behindGap, this, List.drop_zero]

theorem solid_slash (hc : c ≠ '/' ∧ c ≠ '*') (cs : List Char) : Solid ('/' :: c :: cs) := by
  have : gapLength ('/' :: c :: cs) = 0 := by simp [gapLength, isWhiteSpace, hc]
  rw [Solid, behindGap, this, List.drop_zero]

theorem behindGap_blank (hc : isWhiteSpace c = true) (cs : List Char) :
    behindGap (c :: cs) = behindGap cs := by
  have hs : c ≠ '/' := by
    rintro rfl
    exact absurd hc (by decide)
  have : gapLength (c :: cs) = 1 + gapLength cs := by
    rw [gapLength]
    · simp [hc]
    · exact fun _ h => absurd h hs
    · exact fun _ h => absurd h hs
  rw [behindGap, this, Nat.add_comm, List.drop_succ_cons, behindGap]

theorem behindGap_space (h : Solid cs) : behindGap (' ' :: cs) = cs := by
  rw [behindGap_blank (by decide), h]

theorem behindGap_newline (h : Solid cs) : behindGap ('\n' :: cs) = cs := by
  rw [behindGap_blank (by decide), h]

theorem reads_blank (h : behindGap cs = ds) : Reads blank cs ds [] := by
  have hgap : Reads (hostForm .blank) cs (behindGap cs) [] := (reads_token rfl).drop
  rw [← h]
  exact hgap.rule

/-! ## Marks and words -/

theorem reads_punct (s : String) (ds : List Char) : Reads (punct s) (s.toList ++ ds) ds [] :=
  (reads_lexeme (literal_append s ds)).drop

theorem refuses_punct (h : literal s cs = none) : Refuses (punct s) cs := (refuses_token h).drop

theorem reads_keyword (s : String) (hds : StopsRun isNameChar ds) :
    Reads (keyword s) (s.toList ++ ds) ds [] :=
  (reads_lexeme (word_append s hds)).drop

theorem refuses_keyword (h : word s cs = none) : Refuses (keyword s) cs := (refuses_token h).drop

/-- An operator that is written. -/
theorem reads_op {m : Lexeme} (h : m (cs ++ ds) = some cs.length) :
    Reads (op m) (cs ++ ds) ds [Spells "op" cs] :=
  (reads_lexeme h).leaf "op"

theorem refuses_op {m : Lexeme} (h : m cs = none) : Refuses (op m) cs := (refuses_token h).leaf _

/-- What starts with blanks and a part that refuses. -/
theorem refuses_spaced {q : Peg Rule} (h : Refuses q (behindGap cs)) (qs : List (Peg Rule)) :
    Refuses (.seq (blank :: q :: qs)) cs :=
  (reads_blank rfl).refuses (h.first qs)

/-! ## What comes behind an operand -/

/-- No access goes on. -/
structure Unlinked (ds : List Char) : Prop where
  call : literal "(" (behindGap ds) = none
  member : literal "." (behindGap ds) = none
  index : literal "[" (behindGap ds) = none

/-- Nothing goes on that binds tighter than a level of some height. -/
structure Still (height : Nat) (ds : List Char) : Prop where
  unlinked : Unlinked ds
  update : updateOperator ds = none
  operator : ∀ l : Level, l.height < height → l.operator (behindGap ds) = none

/-- No conditional goes on. -/
structure Unasked (ds : List Char) : Prop where
  still : Still 10 ds
  question : literal "?" (behindGap ds) = none

/-- No assignment goes on. -/
structure Unassigned (ds : List Char) : Prop where
  unasked : Unasked ds
  assign : assignOperator (behindGap ds) = none

/-- No expression goes on. -/
structure Final (ds : List Char) : Prop where
  unassigned : Unassigned ds
  comma : literal "," (behindGap ds) = none

theorem Still.mono {h k : Nat} (hs : Still h ds) (hk : k ≤ h) : Still k ds :=
  ⟨hs.unlinked, hs.update, fun l hl => hs.operator l (by omega)⟩

/-- What comes behind a space. -/
theorem Still.space {h : Nat} (hs : Solid cs)
    (hl : literal "(" cs = none ∧ literal "." cs = none ∧ literal "[" cs = none)
    (hu : updateOperator (' ' :: cs) = none)
    (ho : ∀ l : Level, l.height < h → l.operator cs = none) : Still h (' ' :: cs) := by
  have hgap := behindGap_space hs
  exact ⟨⟨by rw [hgap, hl.1], by rw [hgap, hl.2.1], by rw [hgap, hl.2.2]⟩, hu,
    fun l hlt => by rw [hgap, ho l hlt]⟩

theorem solid_closing (h : Closing ds) : Solid ds :=
  h.cases (fun _ => solid_cons (by decide) (by decide) _)
    (fun _ => solid_cons (by decide) (by decide) _) (fun _ => solid_cons (by decide) (by decide) _)
    (fun _ => solid_cons (by decide) (by decide) _) fun _ => solid_cons (by decide) (by decide) _

theorem unassigned_closing (h : Closing ds) : Unassigned ds := by
  have hgap := solid_closing h
  rw [Solid] at hgap
  obtain ⟨c, hc, es, rfl⟩ := h
  simp only [closers, List.mem_cons, List.not_mem_nil, or_false] at hc
  rcases hc with rfl | rfl | rfl | rfl | rfl
  all_goals
    refine ⟨⟨⟨⟨?_, ?_, ?_⟩, rfl, fun l _ => ?_⟩, ?_⟩, ?_⟩ <;> rw [hgap]
    all_goals first | rfl | (cases l <;> rfl)

/-- A mark that closes something ends an expression. -/
theorem final_closing (h : Closing ds) (hc : literal "," ds = none) : Final ds :=
  ⟨unassigned_closing h, by rw [solid_closing h, hc]⟩

/-- The operators of each level. -/
def spelled : Level → List String
  | .logicalOr => ["||"]
  | .logicalAnd => ["&&"]
  | .bitOr => ["|"]
  | .bitXor => ["^"]
  | .bitAnd => ["&"]
  | .equality => ["===", "!==", "==", "!="]
  | .relational => ["<=", ">=", "<", ">"]
  | .shift => ["<<", ">>"]
  | .additive => ["+", "-"]
  | .multiplicative => ["*", "/", "%"]

/-- Each operator has a level. -/
theorem exists_level {op : String} (ho : op ∈ binaryOperators ∨ op ∈ logicalOperators) :
    ∃ l, op ∈ spelled l := by
  have all : ∀ op ∈ binaryOperators ++ logicalOperators, ∃ l ∈ [Level.logicalOr, .logicalAnd,
      .bitOr, .bitXor, .bitAnd, .equality, .relational, .shift, .additive, .multiplicative],
      op ∈ spelled l := by decide
  obtain ⟨l, -, hl⟩ := all op (List.mem_append.mpr ho)
  exact ⟨l, hl⟩

/-- **An operator is taken by its level**, and by no tighter one. -/
theorem operator_spelled {l : Level} {op : String} (ho : op ∈ spelled l) (es : List Char) :
    Solid (op.toList ++ ' ' :: es) ∧ l.operator (op.toList ++ ' ' :: es) = some op.toList.length ∧
      Still l.height (' ' :: (op.toList ++ ' ' :: es)) := by
  refine ⟨?_, ?_, .space ?_ ?_ ?_ fun k hk => ?_⟩
  all_goals
    cases l
    all_goals
      simp only [spelled, List.mem_cons, List.not_mem_nil, or_false] at ho
      rcases ho with rfl | rfl | rfl | rfl
  all_goals first
    | rfl
    | exact solid_cons (by decide) (by decide) _
    | exact solid_slash (by decide) _
    | exact ⟨rfl, rfl, rfl⟩
    | (cases k <;> first | rfl | exact absurd hk (by decide))

/-- The operators of assignments are nobody else's. -/
theorem operator_assign {op : String} (ho : op ∈ assignOperators) (es : List Char) :
    Solid (op.toList ++ ' ' :: es) ∧ assignOperator (op.toList ++ ' ' :: es) = some op.toList.length
      ∧ Unasked (' ' :: (op.toList ++ ' ' :: es)) := by
  have hsolid : Solid (op.toList ++ ' ' :: es) := by
    simp only [assignOperators, List.mem_cons, List.not_mem_nil, or_false] at ho
    rcases ho with rfl | rfl | rfl | rfl | rfl | rfl | rfl | rfl | rfl | rfl | rfl
    all_goals first
      | exact solid_cons (by decide) (by decide) _
      | exact solid_slash (by decide) _
  have hquestion := congrArg (literal "?") (behindGap_space hsolid)
  refine ⟨hsolid, ?_, .space hsolid ?_ ?_ fun l _ => ?_, hquestion.trans ?_⟩
  all_goals
    simp only [assignOperators, List.mem_cons, List.not_mem_nil, or_false] at ho
    rcases ho with rfl | rfl | rfl | rfl | rfl | rfl | rfl | rfl | rfl | rfl | rfl
  all_goals first
    | rfl
    | exact ⟨rfl, rfl, rfl⟩
    | (cases l <;> rfl)

/-- The marks of a conditional are no operators. -/
theorem still_question (es : List Char) : Still 10 (' ' :: '?' :: es) :=
  .space (solid_cons (by decide) (by decide) _) ⟨rfl, rfl, rfl⟩ rfl fun l _ => by cases l <;> rfl

theorem unassigned_colon (es : List Char) : Unassigned (' ' :: ':' :: es) := by
  have hsolid : Solid (':' :: es) := solid_cons (by decide) (by decide) _
  have hgap := behindGap_space hsolid
  exact ⟨⟨.space hsolid ⟨rfl, rfl, rfl⟩ rfl fun l _ => by cases l <;> rfl, by rw [hgap]; rfl⟩,
    by rw [hgap]; rfl⟩

/-! ## Climbing -/

/-- **A rule takes an operand as it is** if its own operator does not come next. -/
theorem reads_alone {name : Rule} {tag : String} {q r : Peg Rule}
    (hname : hostForm name = .node tag (.seq [q, r])) (htag : tag ∈ aloneTags)
    (h : Reads q cs ds [Means p n]) (hr : Reads r ds ds []) :
    Reads (.rule name) cs ds [Means p n] := by
  have parts : Reads (.seq [q, r]) cs ds [Means p n] := h.cons (hr.cons (reads_nil ds))
  have whole := parts.node tag
  rw [← hname] at whole
  exact whole.rule.mono fun _ => means_alone htag

/-- What comes behind an operand that is called, or whose members are taken. -/
def accessTail : Peg Rule := .choice [.rule .callArguments, .rule .memberAccess, .rule .indexAccess]

theorem Unlinked.refuses (hd : Unlinked ds) : Refuses accessTail ds := by
  refine refuses_choice fun q hq => ?_
  simp only [List.mem_cons, List.not_mem_nil, or_false] at hq
  rcases hq with rfl | rfl | rfl
  · exact .rule (.node (refuses_spaced (refuses_punct hd.call) _) _)
  · exact .rule (.node (refuses_spaced (refuses_punct hd.member) _) _)
  · exact .rule (.node (refuses_spaced (refuses_punct hd.index) _) _)

theorem reads_access (h : Reads (.rule .primary) cs ds [Means p n]) (hd : Unlinked ds) :
    Reads (.rule .access) cs ds [Means p n] := reads_alone rfl (by decide) h hd.refuses.many

theorem reads_postfixed (h : Reads (.rule .access) cs ds [Means p n])
    (hd : updateOperator ds = none) : Reads (.rule .postfixed) cs ds [Means p n] :=
  reads_alone rfl (by decide) h (refuses_op hd).optional

theorem reads_unary (h : Reads (.rule .postfixed) cs ds [Means p n])
    (hcs : unaryOperator cs = none) : Reads (.rule .unary) cs ds [Means p n] :=
  Reads.rule ((((refuses_op hcs).first _).node _).reads (h.here []))

/-- A level takes what the next tighter one reads. -/
theorem reads_level {l : Level} (h : Reads (operand l) cs ds [Means p n])
    (hd : l.operator (behindGap ds) = none) : Reads (.rule (.binary l)) cs ds [Means p n] :=
  reads_alone rfl (by decide) h ((refuses_spaced (refuses_op hd) _).node _).many

theorem reads_binary (l : Level) (h : Reads (.rule .unary) cs ds [Means p n])
    (hd : Still (l.height + 1) ds) : Reads (.rule (.binary l)) cs ds [Means p n] := by
  induction l using Level.tightest_first with
  | tightest => exact reads_level h (hd.operator _ (Nat.lt_succ_self _))
  | looser l t ht ih =>
    have hl := Level.height_of_tighter ht
    have operand : Reads (operand l) cs ds [Means p n] := by
      rw [operand_of_tighter ht]
      exact ih (hd.mono (by omega))
    exact reads_level operand (hd.operator _ (Nat.lt_succ_self _))

theorem reads_operand (l : Level) (h : Reads (.rule .unary) cs ds [Means p n])
    (hd : Still l.height ds) : Reads (operand l) cs ds [Means p n] := by
  cases ht : l.tighter? with
  | none =>
    rw [operand, ht]
    exact h
  | some t =>
    rw [operand_of_tighter ht]
    exact reads_binary t h (hd.mono (Level.height_of_tighter ht).ge)

theorem Level.height_lt (l : Level) : l.height < 10 := by cases l <;> decide

/-- What one level reads is read by all looser ones. -/
theorem reads_loosest {l : Level} (h : Reads (.rule (.binary l)) cs ds [Means p n])
    (hd : Still 10 ds) : Reads (.rule (.binary .logicalOr)) cs ds [Means p n] := by
  induction l using Level.loosest_first with
  | loosest => exact h
  | tighter l t ht ih =>
    refine ih (reads_level ?_ (hd.operator _ (Level.height_lt l)))
    rw [operand_of_tighter ht]
    exact h

theorem reads_conditional (h : Reads (.rule (.binary .logicalOr)) cs ds [Means p n])
    (hd : literal "?" (behindGap ds) = none) : Reads (.rule .conditional) cs ds [Means p n] :=
  reads_alone rfl (by decide) h ((refuses_spaced (refuses_punct hd) _).node _).optional

theorem reads_assignment (h : Reads (.rule .conditional) cs ds [Means p n])
    (hd : assignOperator (behindGap ds) = none) : Reads (.rule .assignment) cs ds [Means p n] :=
  reads_alone rfl (by decide) h ((refuses_spaced (refuses_op hd) _).node _).optional

theorem reads_expression (h : Reads (.rule .assignment) cs ds [Means p n])
    (hd : literal "," (behindGap ds) = none) : Reads (.rule .expression) cs ds [Means p n] :=
  reads_alone rfl (by decide) h ((refuses_spaced (refuses_punct hd) _).node _).many

end LedSketch.Grammar
