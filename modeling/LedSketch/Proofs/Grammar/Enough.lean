import LedSketch.Proofs.Grammar.Shapes
import LedSketch.Proofs.Grammar.Sources
import LedSketch.Proofs.Grammar.Trails

/-!
# Reading a source never runs out of fuel

A run needs fuel for the expressions that it enters before it takes the next character, and no rule
leads through many of them: `depth` bounds their number for each rule. Whatever is taken pays for
two hundred more, which is enough for all that comes behind it.

* `Eats`: an expression that never takes nothing.
* `Fed`: some fuel, and some more for each character that is left, is enough for an expression.
* `fed_rules`: no rule needs more than its depth.
* `readProgram_ne_spent`: no source runs out of fuel.
-/

namespace LedSketch.Grammar

variable {n k l : Nat} {w name : Rule} {p : Peg Rule} {ps : List (Peg Rule)} {m : Lexeme}
  {tag : String}

/-! ## Taking something -/

/-- The passage that takes something. -/
def Shrinks : Passage Rule := fun c _ _ d => d.rest.length < c.rest.length

/-- **An expression that takes something** whenever it is not refused. -/
def Eats (p : Peg Rule) : Prop := ∀ n w, Obeys hostForm n w p Shrinks

/-- A lexeme that takes something. -/
def Hungry (m : Lexeme) : Prop := ∀ cs k, m cs = some k → cs.take k ≠ []

theorem Onward.length_le {c d : Cursor} {ts : List Tree} {rs : List (Reading Rule)}
    (h : Onward c ts rs d) : d.rest.length ≤ c.rest.length := by
  obtain ⟨k, rfl⟩ := h
  rw [rest_advance]
  exact (List.drop_suffix _ _).length_le

theorem eats_token (h : Hungry m) : Eats (.token m) := fun _ w => obeys_token fun c k hk =>
  length_rest_advance_lt (x := ⟨w, c, k⟩) (h _ _ hk)

theorem eats_seq (hp : p ∈ ps) (h : Eats p) : Eats (.seq ps) := by
  intro n w
  refine obeys_seq ?_
  induction ps with
  | nil => cases hp
  | cons q qs ih =>
    rcases List.mem_cons.mp hp with rfl | hp
    · refine (ObeysSeq.cons (h n w)
        (ObeysSeq.of_closed Onward.closed fun q _ => onward n w q)).weaken ?_
      rintro c ts rs d ⟨e, _, _, _, _, h₁, h₂, -, -⟩
      exact lt_of_le_of_lt h₂.length_le h₁
    · refine (ObeysSeq.cons (onward n w q) (ih hp)).weaken ?_
      rintro c ts rs d ⟨e, _, _, _, _, h₁, h₂, -, -⟩
      exact lt_of_lt_of_le h₂ h₁.length_le

theorem eats_choice (h : ∀ p ∈ ps, Eats p) : Eats (.choice ps) :=
  fun n w => obeys_choice fun p hp => h p hp n w

theorem Eats.node (h : Eats p) (tag : String) : Eats (.node tag p) :=
  fun n w => obeys_node (h n w) fun _ _ _ _ hs => hs

theorem Eats.leaf (h : Eats p) (tag : String) : Eats (.leaf tag p) :=
  fun n w => obeys_leaf (h n w) fun _ _ _ _ hs => hs

theorem Eats.drop (h : Eats p) : Eats (.drop p) :=
  fun n w => obeys_drop (h n w) fun _ _ _ _ hs => hs

theorem eats_rule (h : Eats (hostForm name)) : Eats (.rule name) :=
  fun _ _ => obeys_reference fun _ => h _ _

/-! ## Lexemes that take something -/

theorem hungry_literal {s : String} (hs : s.toList ≠ []) : Hungry (.literal s) := by
  intro cs k h
  rwa [take_literal h]

theorem hungry_word {s : String} (hs : s.toList ≠ []) : Hungry (.word s) :=
  fun cs k h => hungry_literal hs cs k (word_eq_some h).1

theorem hungry_firstOf {ms : List Lexeme} (h : ∀ m ∈ ms, Hungry m) : Hungry (.firstOf ms) := by
  intro cs k hk
  obtain ⟨m, hm, hmk⟩ := List.exists_of_findSome?_eq_some hk
  exact h m hm cs k hmk

theorem hungry_identifier : Hungry identifier? := by
  intro cs k h
  unfold identifier? at h
  split at h
  · rename_i j hj
    split_ifs at h
    cases h
    exact take_ne_nil_of_property? hj
  · cases h

theorem hungry_numeral : Hungry numeral? := by
  intro cs k h hnil
  rcases List.take_eq_nil_iff.mp hnil with rfl | rfl
  · exact numeral?_pos h rfl
  · cases h

theorem hungry_string : Hungry string? := by
  intro cs k h hnil
  unfold string? at h
  split at h
  · split_ifs at h
    obtain ⟨j, -, rfl⟩ := Option.map_eq_some_iff.mp h
    cases hnil
  · cases h

theorem hungry_chunk : Hungry chunk? := by
  intro cs k h hnil
  simp only [chunk?] at h
  split_ifs at h with h0
  cases h
  rcases List.take_eq_nil_iff.mp hnil with h | rfl
  · exact h0 h
  · exact h0 (by rw [chunkLength])

theorem eats_punct {s : String} (hs : s.toList ≠ []) : Eats (punct s) :=
  (eats_token (hungry_literal hs)).drop

theorem eats_keyword {s : String} (hs : s.toList ≠ []) : Eats (keyword s) :=
  (eats_token (hungry_word hs)).drop

/-! ## Rules that take something -/

theorem eats_identifier : Eats (.rule .identifier) :=
  eats_rule ((eats_token hungry_identifier).leaf _)

theorem eats_primary : Eats (.rule .primary) := by
  have behindMark {s : String} {tag : String} (hs : s.toList ≠ []) (ps : List (Peg Rule)) :
      Eats (.node tag (.seq (punct s :: ps))) :=
    (eats_seq List.mem_cons_self (eats_punct hs)).node tag
  refine eats_rule (eats_choice fun p hp => ?_)
  simp only [List.mem_cons, List.not_mem_nil, or_false] at hp
  rcases hp with rfl | rfl | rfl | rfl | rfl | rfl | rfl | rfl | rfl
  · exact (eats_token hungry_numeral).leaf _
  · exact eats_rule ((eats_token hungry_string).leaf _)
  · exact eats_rule (behindMark (by decide) _)
  · refine (eats_token (hungry_firstOf fun m hm => ?_)).leaf _
    simp only [List.mem_cons, List.not_mem_nil, or_false] at hm
    rcases hm with rfl | rfl <;> exact hungry_word (by decide)
  · exact (eats_token (hungry_word (by decide))).leaf _
  · exact (eats_token (hungry_word (by decide))).leaf _
  · exact eats_rule (behindMark (by decide) _)
  · exact eats_rule (behindMark (by decide) _)
  · exact eats_identifier

/-- A rule whose node starts with something. -/
theorem eats_node (name : Rule) {tag : String} (h : Eats p)
    (hname : hostForm name = .node tag (.seq (p :: ps))) : Eats (.rule name) := by
  refine eats_rule ?_
  rw [hname]
  exact (eats_seq List.mem_cons_self h).node tag

theorem eats_access : Eats (.rule .access) := eats_node .access eats_primary rfl

theorem eats_postfixed : Eats (.rule .postfixed) := eats_node .postfixed eats_access rfl

theorem hungry_unaryOperator : Hungry unaryOperator := by
  refine hungry_firstOf fun m hm => ?_
  simp only [List.mem_cons, List.not_mem_nil, or_false] at hm
  rcases hm with rfl | rfl | rfl | rfl | rfl | rfl | rfl | rfl
  all_goals first
    | exact hungry_literal (by decide)
    | exact hungry_word (by decide)

theorem eats_unary : Eats (.rule .unary) := by
  refine eats_rule (eats_choice fun p hp => ?_)
  simp only [List.mem_cons, List.not_mem_nil, or_false] at hp
  rcases hp with rfl | rfl
  · exact (eats_seq List.mem_cons_self ((eats_token hungry_unaryOperator).leaf _)).node _
  · exact eats_postfixed

/-- What holds of the tightest level, and of a level if it holds of the next tighter one. -/
@[elab_as_elim]
theorem Level.tightest_first {P : Level → Prop} (l : Level) (tightest : P .multiplicative)
    (looser : ∀ l t, l.tighter? = some t → P t → P l) : P l := by
  have h₈ : P .additive := looser _ _ rfl tightest
  have h₇ : P .shift := looser _ _ rfl h₈
  have h₆ : P .relational := looser _ _ rfl h₇
  have h₅ : P .equality := looser _ _ rfl h₆
  have h₄ : P .bitAnd := looser _ _ rfl h₅
  have h₃ : P .bitXor := looser _ _ rfl h₄
  have h₂ : P .bitOr := looser _ _ rfl h₃
  have h₁ : P .logicalAnd := looser _ _ rfl h₂
  cases l with
  | logicalOr => exact looser _ _ rfl h₁
  | _ => assumption

/-- What holds of the loosest level, and of the next tighter one of a level that it holds of. -/
@[elab_as_elim]
theorem Level.loosest_first {P : Level → Prop} (l : Level) (loosest : P .logicalOr)
    (tighter : ∀ l t, l.tighter? = some t → P l → P t) : P l := by
  have h₁ : P .logicalAnd := tighter _ _ rfl loosest
  have h₂ : P .bitOr := tighter _ _ rfl h₁
  have h₃ : P .bitXor := tighter _ _ rfl h₂
  have h₄ : P .bitAnd := tighter _ _ rfl h₃
  have h₅ : P .equality := tighter _ _ rfl h₄
  have h₆ : P .relational := tighter _ _ rfl h₅
  have h₇ : P .shift := tighter _ _ rfl h₆
  have h₈ : P .additive := tighter _ _ rfl h₇
  cases l with
  | multiplicative => exact tighter _ _ rfl h₈
  | _ => assumption

theorem operand_of_tighter {l t : Level} (h : l.tighter? = some t) :
    operand l = .rule (.binary t) := by
  rw [operand, h]

theorem eats_operand (l : Level) : Eats (operand l) := by
  induction l using Level.tightest_first with
  | tightest => exact eats_unary
  | looser l t hl ih =>
    rw [operand_of_tighter hl]
    exact eats_node (.binary t) ih rfl

theorem eats_binary (l : Level) : Eats (.rule (.binary l)) :=
  eats_node (.binary l) (eats_operand l) rfl

theorem eats_conditional : Eats (.rule .conditional) :=
  eats_node .conditional (eats_binary .logicalOr) rfl

theorem eats_assignment : Eats (.rule .assignment) :=
  eats_node .assignment eats_conditional rfl

theorem eats_expression : Eats (.rule .expression) :=
  eats_node .expression eats_assignment rfl

theorem eats_varKind : Eats (.leaf "var-kind"
    (.token (.firstOf [.word "let", .word "const", .word "var"]))) := by
  refine (eats_token (hungry_firstOf fun m hm => ?_)).leaf _
  simp only [List.mem_cons, List.not_mem_nil, or_false] at hm
  rcases hm with rfl | rfl | rfl <;> exact hungry_word (by decide)

theorem eats_varDecl : Eats (.rule .varDecl) := eats_node .varDecl eats_varKind rfl

theorem eats_statement : Eats (.rule .statement) := by
  have jump {s tag : String} (hs : s.toList ≠ []) :
      Eats (.leaf tag (.seq [.token (.word s), endOfStatement])) :=
    (eats_seq List.mem_cons_self (eats_token (hungry_word hs))).leaf tag
  refine eats_rule (eats_choice fun p hp => ?_)
  simp only [List.mem_cons, List.not_mem_nil, or_false] at hp
  rcases hp with rfl | rfl | rfl | rfl | rfl | rfl | rfl | rfl | rfl | rfl | rfl | rfl
  · exact eats_node .block (eats_punct (by decide)) rfl
  · refine eats_rule ((eats_seq (p := keyword "function") ?_ (eats_keyword (by decide))).node _)
    simp
  · exact eats_seq List.mem_cons_self eats_varDecl
  · exact eats_node .ifStatement (eats_seq List.mem_cons_self (eats_keyword (by decide))) rfl
  · exact eats_node .forStatement (eats_keyword (by decide)) rfl
  · exact eats_node .whileStatement (eats_keyword (by decide)) rfl
  · exact eats_node .doWhileStatement (eats_seq List.mem_cons_self (eats_keyword (by decide))) rfl
  · exact eats_node .returnStatement (eats_keyword (by decide)) rfl
  · exact jump (by decide)
  · exact jump (by decide)
  · exact (eats_token (hungry_literal (by decide))).leaf _
  · exact eats_node .expressionStatement eats_expression rfl

theorem eats_item : Eats (.rule .item) :=
  eats_rule (eats_seq (List.mem_cons_of_mem _ List.mem_cons_self) eats_statement)

/-! ## Fuel for the parts of an expression -/

/-- **With less than `n` fuel, an expression does not run out**, as long as there are `k` of it, and
two hundred more for each character that is left. -/
def Fed (n k : Nat) (p : Peg Rule) : Prop :=
  ∀ j < n, ∀ c, k + 200 * c.rest.length ≤ j → run hostForm j p c ≠ .spent

/-- The same of the parts of a sequence. -/
def FedSeq (n k : Nat) (ps : List (Peg Rule)) : Prop :=
  ∀ j < n, ∀ c, k + 200 * c.rest.length ≤ j → runSeq hostForm j ps c ≠ .spent

/-- The same of alternatives. -/
def FedChoice (n k : Nat) (ps : List (Peg Rule)) : Prop :=
  ∀ j < n, ∀ c, k + 200 * c.rest.length ≤ j → runChoice hostForm j ps c ≠ .spent

theorem Fed.mono (h : Fed n k p) (hkl : k ≤ l) : Fed n l p :=
  fun j hj c hle => h j hj c (by omega)

theorem FedSeq.mono (h : FedSeq n k ps) (hkl : k ≤ l) : FedSeq n l ps :=
  fun j hj c hle => h j hj c (by omega)

theorem FedChoice.mono (h : FedChoice n k ps) (hkl : k ≤ l) : FedChoice n l ps :=
  fun j hj c hle => h j hj c (by omega)

theorem Outcome.build_ne_spent {o : Outcome} {f : List Tree → Cursor → List Tree}
    (h : o ≠ .spent) : o.build f ≠ .spent := by
  cases o with
  | spent => exact absurd rfl h
  | got => nofun
  | refused => nofun

/-- What is true of the fuel behind the first step of a run. -/
theorem Fed.of_succ (h : ∀ j, j + 1 < n → ∀ c, k + 200 * c.rest.length ≤ j →
      run hostForm (j + 1) p c ≠ .spent) : Fed n (k + 1) p := by
  intro j hj c hle
  cases j with
  | zero => omega
  | succ j => exact h j hj c (by omega)

theorem FedSeq.of_succ (h : ∀ j, j + 1 < n → ∀ c, k + 200 * c.rest.length ≤ j →
      runSeq hostForm (j + 1) ps c ≠ .spent) : FedSeq n (k + 1) ps := by
  intro j hj c hle
  cases j with
  | zero => omega
  | succ j => exact h j hj c (by omega)

theorem fed_token (n : Nat) (m : Lexeme) : Fed n 1 (.token m) := by
  refine .of_succ (k := 0) fun j _ c _ => ?_
  rw [run]
  split <;> rintro ⟨⟩

theorem Fed.node (h : Fed n k p) (tag : String) : Fed n (k + 1) (.node tag p) := by
  refine .of_succ fun j hj c hle => ?_
  rw [run]
  exact Outcome.build_ne_spent (h j (by omega) c hle)

theorem Fed.leaf (h : Fed n k p) (tag : String) : Fed n (k + 1) (.leaf tag p) := by
  refine .of_succ fun j hj c hle => ?_
  rw [run]
  exact Outcome.build_ne_spent (h j (by omega) c hle)

theorem Fed.drop (h : Fed n k p) : Fed n (k + 1) (.drop p) := by
  refine .of_succ fun j hj c hle => ?_
  rw [run]
  exact Outcome.build_ne_spent (h j (by omega) c hle)

theorem Fed.optional (h : Fed n k p) : Fed n (k + 1) (.optional p) := by
  refine .of_succ fun j hj c hle => ?_
  have := h j (by omega) c hle
  rw [run]
  split <;> simp_all

/-- A repetition is fed if it takes something each time. -/
theorem Fed.many (he : Eats p) (h : Fed n k p) : Fed n (k + 1) (.many p) := by
  intro j
  induction j with
  | zero => intro _ c hle; omega
  | succ j ih =>
    intro hj c hle
    rw [run]
    cases hrun : run hostForm j p c with
    | got ts d =>
      have := he j .blank j le_rfl c ts d hrun
      exact Outcome.build_ne_spent (ih (by omega) d (by unfold Shrinks at this; omega))
    | refused => rintro ⟨⟩
    | spent => exact absurd hrun (h j (by omega) c (by omega))

theorem fedSeq_nil (n : Nat) : FedSeq n 1 [] := by
  refine .of_succ (k := 0) fun j _ c _ => ?_
  rw [runSeq]
  rintro ⟨⟩

/-- A sequence is fed if its first part is, and the others behind what that takes. -/
theorem FedSeq.of_first (h : Fed n k p) (hps : ∀ j, j + 1 < n → ∀ c ts d,
      k + 200 * c.rest.length ≤ j → run hostForm j p c = .got ts d →
      runSeq hostForm j ps d ≠ .spent) : FedSeq n (k + 1) (p :: ps) := by
  refine .of_succ fun j hj c hle => ?_
  rw [runSeq]
  cases hrun : run hostForm j p c with
  | got ts d =>
    have := hps j hj c ts d hle hrun
    simp only [Outcome.andThen]
    split <;> simp_all
  | refused => rintro ⟨⟩
  | spent => exact absurd hrun (h j (by omega) c hle)

theorem FedSeq.cons (h : Fed n k p) (hps : FedSeq n k ps) : FedSeq n (k + 1) (p :: ps) :=
  .of_first h fun j hj c ts d hle hrun => by
    have := (onward j .blank p j le_rfl c ts d hrun).length_le
    exact hps j (by omega) d (by omega)

/-- What a part takes pays for those behind it. -/
theorem FedSeq.behind (he : Eats p) (h : Fed n k p) (hps : FedSeq n (k + 200) ps) :
    FedSeq n (k + 1) (p :: ps) :=
  .of_first h fun j hj c ts d hle hrun => by
    have := he j .blank j le_rfl c ts d hrun
    exact hps j (by omega) d (by unfold Shrinks at this; omega)

theorem FedSeq.seq (h : FedSeq n k ps) : Fed n (k + 1) (.seq ps) := by
  refine .of_succ fun j hj c hle => ?_
  rw [run]
  exact h j (by omega) c hle

theorem fedChoice_nil (n : Nat) : FedChoice n 1 [] := by
  intro j _ c hle
  cases j with
  | zero => omega
  | succ j =>
    rw [runChoice]
    rintro ⟨⟩

theorem FedChoice.cons (h : Fed n k p) (hps : FedChoice n k ps) :
    FedChoice n (k + 1) (p :: ps) := by
  intro j hj c hle
  cases j with
  | zero => omega
  | succ j =>
    have := h j (by omega) c (by omega)
    have := hps j (by omega) c (by omega)
    rw [runChoice]
    split <;> simp_all

theorem FedChoice.choice (h : FedChoice n k ps) : Fed n (k + 1) (.choice ps) := by
  refine .of_succ fun j hj c hle => ?_
  rw [run]
  exact h j (by omega) c hle

/-- Alternatives that all need little need not much more. -/
theorem fed_choice (hk : 0 < k) (h : ∀ p ∈ ps, Fed n k p) :
    Fed n (k + ps.length + 1) (.choice ps) := by
  refine FedChoice.choice ?_
  induction ps with
  | nil => exact (fedChoice_nil n).mono (by omega)
  | cons p ps ih =>
    rw [List.length_cons, ← Nat.add_assoc]
    exact .cons ((h p List.mem_cons_self).mono (by omega))
      (ih fun q hq => h q (List.mem_cons_of_mem p hq))

mutual

/-- An expression whose repetitions take something each time. -/
def Sparing : Peg Rule → Prop
  | .token _ | .rule _ => True
  | .seq ps | .choice ps => SparingAll ps
  | .many p => Eats p ∧ Sparing p
  | .optional p | .node _ p | .leaf _ p | .drop p => Sparing p

/-- The same of each of several expressions. -/
def SparingAll : List (Peg Rule) → Prop
  | [] => True
  | p :: ps => Sparing p ∧ SparingAll ps

end

mutual

/-- The number of parts of an expression. -/
def extent : Peg Rule → Nat
  | .token _ | .rule _ => 1
  | .seq ps | .choice ps => extents ps + 1
  | .many p | .optional p | .node _ p | .leaf _ p | .drop p => extent p + 1

/-- The number of parts of several expressions. -/
def extents : List (Peg Rule) → Nat
  | [] => 1
  | p :: ps => extent p + extents ps + 1

end

mutual

/-- An expression needs little more than the rules that it refers to. -/
theorem fed_sparing (hr : ∀ name, Fed n k (.rule name)) (p : Peg Rule) (h : Sparing p) :
    Fed n (k + extent p) p := by
  cases p with
  | token m => exact (fed_token n m).mono (by rw [extent]; omega)
  | rule name => exact (hr name).mono (by omega)
  | seq ps => exact (fedSeq_sparing hr ps h).seq
  | choice ps => exact (fedChoice_sparing hr ps h).choice
  | many p => exact (fed_sparing hr p h.2).many h.1
  | optional p => exact (fed_sparing hr p h).optional
  | node tag p => exact (fed_sparing hr p h).node tag
  | leaf tag p => exact (fed_sparing hr p h).leaf tag
  | drop p => exact (fed_sparing hr p h).drop

theorem fedSeq_sparing (hr : ∀ name, Fed n k (.rule name)) (ps : List (Peg Rule))
    (h : SparingAll ps) : FedSeq n (k + extents ps) ps := by
  cases ps with
  | nil => exact (fedSeq_nil n).mono (by rw [extents]; omega)
  | cons p ps =>
    rw [extents, ← Nat.add_assoc, ← Nat.add_assoc]
    exact .cons ((fed_sparing hr p h.1).mono (by omega))
      ((fedSeq_sparing hr ps h.2).mono (by omega))

theorem fedChoice_sparing (hr : ∀ name, Fed n k (.rule name)) (ps : List (Peg Rule))
    (h : SparingAll ps) : FedChoice n (k + extents ps) ps := by
  cases ps with
  | nil => exact (fedChoice_nil n).mono (by rw [extents]; omega)
  | cons p ps =>
    rw [extents, ← Nat.add_assoc, ← Nat.add_assoc]
    exact .cons ((fed_sparing hr p h.1).mono (by omega))
      ((fedChoice_sparing hr ps h.2).mono (by omega))

end

/-! ## Fuel for the rules -/

/-- The number of levels that are tighter. -/
def Level.height : Level → Nat
  | multiplicative => 0
  | additive => 1
  | shift => 2
  | relational => 3
  | equality => 4
  | bitAnd => 5
  | bitXor => 6
  | bitOr => 7
  | logicalAnd => 8
  | logicalOr => 9

theorem Level.height_of_tighter {l t : Level} (h : l.tighter? = some t) :
    l.height = t.height + 1 := by
  cases l <;> cases h <;> rfl

/-- How much fuel a rule needs before it takes a character. -/
def depth : Rule → Nat
  | .program => 126
  | .item => 118
  | .statement => 112
  | .expressionStatement => 96
  | .expression => 92
  | .assignment => 88
  | .conditional => 84
  | .binary l => 44 + 4 * l.height
  | .unary => 40
  | .postfixed => 36
  | .access => 32
  | .primary => 28
  | .blank | .endOfStatement | .identifier | .string => 4
  | _ => 16

theorem depth_le (name : Rule) : depth name ≤ 126 := by
  cases name with
  | binary l => cases l <;> decide
  | _ => decide

theorem depth_pos (name : Rule) : 0 < depth name := by
  cases name with
  | binary l => exact Nat.lt_add_right _ (by decide)
  | _ => decide

/-- A node with a mark, behind blanks or not. -/
theorem eats_marked {s : String} (hs : s.toList ≠ []) (ps : List (Peg Rule)) :
    Eats (.seq (punct s :: ps)) ∧ Eats (.seq (blank :: punct s :: ps)) :=
  ⟨eats_seq List.mem_cons_self (eats_punct hs),
    eats_seq (List.mem_cons_of_mem _ List.mem_cons_self) (eats_punct hs)⟩

/-- **Whatever the grammar repeats takes something** each time. -/
theorem sparing_hostForm (name : Rule) : Sparing (hostForm name) := by
  have more (p : Peg Rule) : Eats (.seq [blank, punct ",", blank, p]) :=
    (eats_marked (by decide) _).2
  have link : Eats (.choice [.rule .callArguments, .rule .memberAccess, .rule .indexAccess]) := by
    refine eats_choice fun p hp => ?_
    simp only [List.mem_cons, List.not_mem_nil, or_false] at hp
    rcases hp with rfl | rfl | rfl <;> exact eats_rule ((eats_marked (by decide) _).2.node _)
  have part : Eats (.choice [.leaf "chunk" (.token chunk?), .rule .interpolation]) := by
    refine eats_choice fun p hp => ?_
    simp only [List.mem_cons, List.not_mem_nil, or_false] at hp
    rcases hp with rfl | rfl
    · exact (eats_token hungry_chunk).leaf _
    · exact eats_rule ((eats_marked (by decide) _).1.node _)
  have tail (l : Level) :
      Eats (.node "binary-tail" (.seq [blank, op l.operator, blank, operand l])) :=
    (eats_seq (by simp) (eats_operand l)).node _
  have comma (p : Peg Rule) : Eats (.node "comma-tail" (.seq [blank, punct ",", blank, p])) :=
    (more p).node _
  have hblank : Sparing blank := trivial
  have hend : Sparing endOfStatement := trivial
  have hsilent (m : Lexeme) : Sparing (silent m) := trivial
  have hpunct (s : String) : Sparing (punct s) := trivial
  have hkeyword (s : String) : Sparing (keyword s) := trivial
  have hop (m : Lexeme) : Sparing (op m) := trivial
  have hoperand (l : Level) : Sparing (operand l) := by cases l <;> trivial
  cases name <;> simp [hostForm, Sparing, SparingAll, spaced, inParens, moreBehindCommas, eats_item,
    more, link, part, tail, comma, hblank, hend, hsilent, hpunct, hkeyword, hop, hoperand]

section

variable (hr : ∀ name, Fed n (depth name) (.rule name))
include hr

/-- What comes behind a part that takes something is paid for. -/
theorem FedSeq.paid (he : Eats p) (h : Fed n k p) (hs : SparingAll ps)
    (hx : extents ps ≤ 74) : FedSeq n (k + 1) (p :: ps) :=
  .behind he h ((fedSeq_sparing (fun name => (hr name).mono (depth_le name)) ps hs).mono (by omega))

/-- A node whose first part takes something. -/
theorem fed_node (hs : Sparing (.node tag (.seq (p :: ps)))) (he : Eats p) (h : Fed n k p)
    (hx : extents ps ≤ 74) : Fed n (k + 3) (.node tag (.seq (p :: ps))) :=
  (FedSeq.paid hr he h hs.2 hx).seq.node tag

/-- A node that starts with something small. -/
theorem fed_small (hs : Sparing (.node tag (.seq (p :: ps)))) (he : Eats p) (h : Fed n 4 p)
    (hx : extents ps ≤ 74) : Fed n 15 (.node tag (.seq (p :: ps))) :=
  (fed_node hr hs he h hx).mono (by decide)

/-- A node that starts with a mark behind blanks. -/
theorem fed_spaced {s : String} (hs : Sparing (.node tag (.seq (blank :: punct s :: ps))))
    (hne : s.toList ≠ []) (hx : extents ps ≤ 74) :
    Fed n 15 (.node tag (.seq (blank :: punct s :: ps))) := by
  have hmark : Fed n 4 (punct s) := (fed_token n _).drop.mono (by decide)
  have hrest : FedSeq n 5 (punct s :: ps) := FedSeq.paid hr (eats_punct hne) hmark hs.2.2 hx
  exact ((FedSeq.cons ((hr .blank).mono (by decide)) hrest).seq.node tag).mono (by decide)

theorem fed_operand (l : Level) : Fed n (40 + 4 * l.height) (operand l) := by
  cases h : l.tighter? with
  | none =>
    rw [operand, h]
    exact (hr .unary).mono (Nat.le_add_right _ _)
  | some t =>
    rw [operand_of_tighter h, Level.height_of_tighter h]
    exact (hr (.binary t)).mono (by rw [depth]; omega)

theorem fed_statement : Fed n 111 (hostForm .statement) := by
  have ending {s tag : String} :
      Fed n 96 (.leaf tag (.seq [.token (.word s), endOfStatement])) := by
    have hend : FedSeq n 5 [endOfStatement] :=
      .cons (hr .endOfStatement) ((fedSeq_nil n).mono (by decide))
    exact ((FedSeq.cons ((fed_token n _).mono (by decide)) hend).seq.leaf tag).mono (by decide)
  refine (fed_choice (k := 96) (by decide) fun p hp => ?_).mono (by decide)
  simp only [List.mem_cons, List.not_mem_nil, or_false] at hp
  rcases hp with rfl | rfl | rfl | rfl | rfl | rfl | rfl | rfl | rfl | rfl | rfl | rfl
  · exact (hr .block).mono (by decide)
  · exact (hr .functionDecl).mono (by decide)
  · have hend : FedSeq n 16 [endOfStatement] :=
      .mono (.cons (hr .endOfStatement) ((fedSeq_nil n).mono (by decide))) (by decide)
    exact (FedSeq.cons (hr .varDecl) hend).seq.mono (by decide)
  · exact (hr .ifStatement).mono (by decide)
  · exact (hr .forStatement).mono (by decide)
  · exact (hr .whileStatement).mono (by decide)
  · exact (hr .doWhileStatement).mono (by decide)
  · exact (hr .returnStatement).mono (by decide)
  · exact ending
  · exact ending
  · exact ((fed_token n _).leaf _).mono (by decide)
  · exact hr .expressionStatement

theorem fed_primary : Fed n 27 (hostForm .primary) := by
  refine (fed_choice (k := 16) (by decide) fun p hp => ?_).mono (by decide)
  simp only [List.mem_cons, List.not_mem_nil, or_false] at hp
  rcases hp with rfl | rfl | rfl | rfl | rfl | rfl | rfl | rfl | rfl
  · exact ((fed_token n _).leaf _).mono (by decide)
  · exact (hr .string).mono (by decide)
  · exact hr .template
  · exact ((fed_token n _).leaf _).mono (by decide)
  · exact ((fed_token n _).leaf _).mono (by decide)
  · exact ((fed_token n _).leaf _).mono (by decide)
  · exact hr .array
  · exact hr .group
  · exact (hr .identifier).mono (by decide)

/-- **No rule needs more than its depth**, if the rules that it refers to do not. -/
theorem fed_hostForm (name : Rule) : Fed n (depth name - 1) (hostForm name) := by
  have hs := sparing_hostForm name
  have mark {s : String} : Fed n 4 (punct s) := (fed_token n _).drop.mono (by decide)
  have word {s : String} : Fed n 4 (keyword s) := (fed_token n _).drop.mono (by decide)
  have blankThen {ps : List (Peg Rule)} {k : Nat} (hk : 4 ≤ k) (h : FedSeq n k ps) :
      FedSeq n (k + 1) (blank :: ps) := .cons ((hr .blank).mono hk) h
  have clause {s : String} {ps : List (Peg Rule)} (hne : s.toList ≠ [])
      (hs : SparingAll ps) (hx : extents ps ≤ 74) : Fed n 6 (.seq (keyword s :: ps)) :=
    (FedSeq.paid hr (eats_keyword hne) word hs hx).seq
  cases name with
  | blank | endOfStatement => exact ((fed_token n _).drop).mono (by decide)
  | identifier | string => exact ((fed_token n _).leaf _).mono (by decide)
  | group | array | template | interpolation | block =>
    exact fed_small hr hs (eats_punct (by decide)) mark (by decide)
  | forStatement | whileStatement | returnStatement =>
    exact fed_small hr hs (eats_keyword (by decide)) word (by decide)
  | callArguments | memberAccess | indexAccess => exact fed_spaced hr hs (by decide) (by decide)
  | ifStatement | doWhileStatement =>
    exact (fed_node hr hs (eats_seq List.mem_cons_self (eats_keyword (by decide)))
      (clause (by decide) hs.1.2 (by decide)) (by decide)).mono (by decide)
  | varDecl =>
    exact fed_small hr hs eats_varKind (((fed_token n _).leaf _).mono (by decide)) (by decide)
  | declarator => exact fed_small hr hs eats_identifier (hr .identifier) (by decide)
  | functionDecl =>
    have hrest := FedSeq.paid hr (eats_keyword (s := "function") (by decide)) word hs.2.2.2
      (by decide)
    have hasync : Fed n 6 (.optional (.leaf "async" (.token (.word "async")))) :=
      (fed_token n _).leaf _ |>.optional |>.mono (by decide)
    exact ((FedSeq.cons hasync (blankThen (by decide) hrest)).seq.node _).mono (by decide)
  | expressionStatement => exact fed_node hr hs eats_expression (hr .expression) (by decide)
  | expression => exact fed_node hr hs eats_assignment (hr .assignment) (by decide)
  | assignment => exact fed_node hr hs eats_conditional (hr .conditional) (by decide)
  | conditional =>
    exact fed_node hr hs (eats_binary .logicalOr) (hr (.binary .logicalOr)) (by decide)
  | binary l =>
    have hx : extents [.many (.node "binary-tail" (.seq
        [blank, op l.operator, blank, operand l]))] ≤ 74 := by cases l <;> decide
    exact (fed_node hr hs (eats_operand l) (fed_operand hr l) hx).mono (by rw [depth]; omega)
  | unary =>
    refine (fed_choice (k := 36) (by decide) fun p hp => ?_).mono (by decide)
    simp only [List.mem_cons, List.not_mem_nil, or_false] at hp
    rcases hp with rfl | rfl
    · exact (fed_small hr hs.1 ((eats_token hungry_unaryOperator).leaf _)
        (((fed_token n _).leaf _).mono (by decide)) (by decide)).mono (by decide)
    · exact hr .postfixed
  | postfixed => exact fed_node hr hs eats_access (hr .access) (by decide)
  | access => exact fed_node hr hs eats_primary (hr .primary) (by decide)
  | primary => exact fed_primary hr
  | statement => exact fed_statement hr
  | item =>
    have hrest : FedSeq n 113 [.rule .statement] :=
      .cons (hr .statement) ((fedSeq_nil n).mono (by decide))
    exact (blankThen (by decide) hrest).seq.mono (by decide)
  | program =>
    have hrest : FedSeq n 5 [blank] := blankThen le_rfl ((fedSeq_nil n).mono (by decide))
    exact ((FedSeq.cons ((hr .item).many eats_item) (hrest.mono (by decide))).seq.node _).mono
      (by decide)

end

/-- **No rule needs more than its depth**, and two hundred more for each character. -/
theorem fed_rules (n : Nat) (name : Rule) : Fed n (depth name) (.rule name) := by
  induction n generalizing name with
  | zero => exact fun j hj => absurd hj (Nat.not_lt_zero j)
  | succ n ih =>
    intro j hj c hle
    have := depth_pos name
    cases j with
    | zero => omega
    | succ j =>
      rw [run]
      exact fed_hostForm ih name j (by omega) c (by omega)

/-- **No source runs out of fuel.** -/
theorem readProgram_ne_spent (source : List Char) : readProgram source ≠ .spent := by
  refine fed_rules _ .program _ (Nat.lt_succ_self _) _ ?_
  show depth .program + 200 * source.length ≤ 200 * (source.length + 2)
  rw [depth]
  omega

end LedSketch.Grammar
