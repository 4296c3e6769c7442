import LedSketch.Proofs.Grammar.Lines
import LedSketch.Proofs.Grammar.Shapes
import LedSketch.Proofs.Grammar.Sources
import LedSketch.Proofs.Syntax.StaticRules

/-!
# Where the parts stand that errors point to

An error points to a statement that jumps, to a function, to an operator or to a name that is
declared. Each of them begins at its first lexeme, and this at a character that ends no line.

* `Tree.Points`: what errors may point to in a tree stands at such a character.
* `Leads`, `Led`: lexemes and expressions that begin so.
* `pointing`: all parts of all trees of a grammar do.
-/

namespace LedSketch

open Grammar

namespace Tree

/-- A tree begins at a character of a source that ends no line. -/
def Stands (source : List Char) (t : Tree) : Prop :=
  ∃ c : Cursor, c.Stands source ∧ t.position = .ok (some (c.line : Int), some (c.col : Int))

/-- The tags of the trees that an error points to itself. -/
def pointed : List String := ["return", "break", "continue", "function-decl"]

/-- The tags of the trees that an error points into. -/
def pointing : List String := ["unary", "postfix", "var-decl", "assignment"]

/-- The first child of a tree, if there is one. -/
def firstChild : Tree → List Tree
  | node _ ts => ts.take 1
  | _ => []

/-- **What an error about a tree may point to**: the tree itself, the operator in front of an
operand, what comes behind a name or an operand, or the operator of an assignment. -/
def targets : Tree → List Tree
  | leaf m => if m.tag ∈ pointed then [leaf m] else []
  | node m ts =>
    if m.tag ∈ pointed then [node m ts]
    else if m.tag = "unary" then ts.take 1
    else if m.tag = "postfix" ∨ m.tag = "var-decl" then ts.drop 1
    else if m.tag = "assignment" then (ts.drop 1).flatMap firstChild
    else []
  | foreign d ts => [foreign d ts]

/-- All that errors about the parts of a tree may point to begins at characters that end no line. -/
def Points (source : List Char) (t : Tree) : Prop :=
  ∀ u, Part t u → ∀ v ∈ u.targets, v.Stands source

theorem points_leaf {source : List Char} {m : Mark} (h : ∀ v ∈ (leaf m).targets, v.Stands source) :
    (leaf m).Points source := by
  intro u hu
  cases hu with
  | refl => exact h
  | step hcs hmem =>
    cases hcs
    cases hmem

theorem points_node {source : List Char} {m : Mark} {ts : List Tree}
    (h : ∀ v ∈ (node m ts).targets, v.Stands source) (hts : ∀ t ∈ ts, t.Points source) :
    (node m ts).Points source := by
  intro u hu
  cases hu with
  | refl => exact h
  | step hcs hmem hpart =>
    cases hcs
    exact hts _ hmem u hpart

end Tree

namespace Grammar

open Text Cursor

variable {n : Nat} {w : Rule} {p : Peg Rule} {ps : List (Peg Rule)} {source : List Char}

/-! ## Lexemes -/

theorem isSpace_of_isLineEnd {c : Char} (h : isLineEnd c = true) : isSpace c = true := by
  simp only [isLineEnd, isSpace, isWhiteSpace, Bool.or_eq_true, Bool.and_eq_true,
    decide_eq_true_eq, beq_iff_eq] at h ⊢
  omega

/-- A lexeme takes only what begins with a character that ends no line. -/
def Leads (m : Lexeme) : Prop := ∀ cs k, m cs = some k → Visible cs

theorem leads_literal {s : String} (h : s.toList.head?.any (!isLineEnd ·) = true) :
    Leads (.literal s) := by
  intro cs k hk
  obtain ⟨hcs, -⟩ := literal_eq_some hk
  cases hs : s.toList with
  | nil => rw [hs] at h; cases h
  | cons x xs =>
    rw [hs] at h hcs
    exact ⟨x, xs ++ cs.drop k, hcs, by simpa using h⟩

theorem leads_notBefore {stop s : String} (h : s.toList.head?.any (!isLineEnd ·) = true) :
    Leads (.notBefore stop s) :=
  fun _ _ hk => leads_literal h _ _ (notBefore_eq_some hk).1

theorem leads_word {s : String} (h : s.toList.head?.any (!isLineEnd ·) = true) :
    Leads (.word s) :=
  fun _ _ hk => leads_literal h _ _ (word_eq_some hk).1

theorem leads_firstOf {ms : List Lexeme} (h : ∀ m ∈ ms, Leads m) : Leads (.firstOf ms) := by
  intro cs k hk
  obtain ⟨m, hm, hk⟩ := List.exists_of_findSome?_eq_some hk
  exact h m hm cs k hk

theorem leads_indented {m : Lexeme} (h : Leads m) : Leads (.indented m) := by
  intro cs k hk
  cases cs with
  | nil =>
    obtain ⟨j, hj, -⟩ := Option.map_eq_some_iff.mp hk
    exact h [] j hj
  | cons x xs =>
    by_cases hx : isHorizontal x = true
    · refine ⟨x, xs, rfl, ?_⟩
      simp only [isHorizontal, Bool.or_eq_true, beq_iff_eq] at hx
      rcases hx with rfl | rfl <;> rfl
    · obtain ⟨j, hj, -⟩ := Option.map_eq_some_iff.mp hk
      have hrun : runLength isHorizontal (x :: xs) = 0 := by simp [runLength, hx]
      rw [hrun] at hj
      exact h _ j hj

theorem leads_identifier : Leads identifier? := by
  intro cs k hk
  unfold identifier? property? at hk
  cases cs with
  | nil => cases hk
  | cons x xs =>
    refine ⟨x, xs, rfl, Bool.eq_false_iff.mpr fun hx => ?_⟩
    dsimp only at hk
    rw [isNameStart_of_isSpace (isSpace_of_isLineEnd hx)] at hk
    cases hk

theorem leads_assignOperator : Leads assignOperator := by
  refine leads_firstOf fun m hm => ?_
  obtain ⟨s, hs, rfl⟩ := List.mem_map.mp hm
  have visible : ∀ s ∈ ["", "<<", ">>", "-", "+", "*", "/", "%", "&", "|", "^"].map (· ++ "="),
      s.toList.head?.any (!isLineEnd ·) = true := by decide
  exact leads_notBefore (visible s hs)

theorem leads_unaryOperator : Leads unaryOperator := by
  refine leads_firstOf fun m hm => ?_
  simp only [List.mem_cons, List.not_mem_nil, or_false] at hm
  rcases hm with rfl | rfl | rfl | rfl | rfl | rfl | rfl | rfl
  all_goals first | exact leads_literal rfl | exact leads_word rfl

theorem leads_updateOperator : Leads updateOperator :=
  leads_indented (leads_firstOf (by
    rintro m (_ | ⟨_, _ | ⟨_, ⟨⟩⟩⟩)
    · exact leads_literal rfl
    · exact leads_literal rfl))

/-! ## Expressions -/

/-- The passage that begins at a character that ends no line. -/
def Led : Passage Rule := fun c _ _ _ => Visible c.rest

theorem led_token {m : Lexeme} (h : Leads m) : Obeys hostForm n w (.token m) Led :=
  obeys_token fun c k hk => h c.rest k hk

theorem led_keyword {s : String} (h : s.toList.head?.any (!isLineEnd ·) = true) :
    Obeys hostForm n w (keyword s) Led :=
  obeys_drop (led_token (leads_word h)) fun _ _ _ _ => id

theorem led_identifier : Obeys hostForm n w (.rule .identifier) Led :=
  obeys_reference fun _ => obeys_leaf (led_token leads_identifier) fun _ _ _ _ => id

theorem led_cons (h : Obeys hostForm n w p Led) (ps : List (Peg Rule)) :
    Obeys hostForm n w (.seq (p :: ps)) Led := by
  have rest : ObeysSeq hostForm n w ps fun _ _ _ _ => True := fun _ _ _ _ _ _ => trivial
  refine obeys_seq ((ObeysSeq.cons h rest).weaken ?_)
  rintro c ts rs d ⟨_, _, _, _, _, hled, -⟩
  exact hled

/-- The passage whose trees all satisfy `φ`, from a place of a source to another one. -/
def Each (source : List Char) (φ : Tree → Prop) : Passage Rule := fun c ts _ d =>
  c.On source → d.On source ∧ ∀ t ∈ ts, φ t

theorem Each.closed (source : List Char) (φ : Tree → Prop) : (Each source φ).Closed where
  nil _ hc := ⟨hc, by simp⟩
  append h h' hc := by
    obtain ⟨hd, hts⟩ := h hc
    obtain ⟨he, hus⟩ := h' hd
    exact ⟨he, fun t ht => (List.mem_append.mp ht).elim (hts t) (hus t)⟩

/-- The passage whose trees begin at characters that end no line. -/
abbrev Standing (source : List Char) : Passage Rule := Each source (Tree.Stands source)

theorem onward_on {c d : Cursor} (h : ∃ k, d = c.advance k) (hc : c.On source) : d.On source := by
  obtain ⟨k, rfl⟩ := h
  exact hc.advance k

theorem standing_leaf (h : Obeys hostForm n w p Led) (tag : String) :
    Obeys hostForm n w (.leaf tag p) (Standing source) :=
  obeys_leaf (h.and (onward n w p)) fun c _ _ d ⟨hled, hon⟩ hc =>
    ⟨onward_on hon hc, by simpa using ⟨c, ⟨hc, hled⟩, rfl⟩⟩

theorem standing_node (h : Obeys hostForm n w p Led) (tag : String) :
    Obeys hostForm n w (.node tag p) (Standing source) :=
  obeys_node (h.and (onward n w p)) fun c _ _ d ⟨hled, hon⟩ hc =>
    ⟨onward_on hon hc, by simpa using ⟨c, ⟨hc, hled⟩, rfl⟩⟩

theorem standing_op {m : Lexeme} (h : Leads m) : Obeys hostForm n w (op m) (Standing source) :=
  standing_leaf (led_token h) "op"

/-! ## Behind blanks -/

/-- There are no blanks behind blanks. -/
theorem gapLength_drop (cs : List Char) : gapLength (cs.drop (gapLength cs)) = 0 := by
  have behind (a b : Char) (n k : Nat) (ds : List Char) :
      (a :: b :: ds).drop (2 + n + k) = (ds.drop n).drop k := by
    rw [List.drop_drop, Nat.add_assoc, Nat.add_comm 2]
    rfl
  fun_induction gapLength cs with
  | case1 => simp [gapLength]
  | case2 cs n ih => rwa [behind]
  | case3 cs n hn ih => rwa [behind]
  | case4 cs hn => simp [gapLength, hn]
  | case5 c cs h₁ h₂ hc ih => rwa [Nat.add_comm, List.drop_succ_cons]
  | case6 c cs h₁ h₂ hc => rw [List.drop_zero, gapLength, if_neg hc] <;> assumption

/-- Behind blanks there are no trees and no blanks. -/
theorem obeys_tight : Obeys hostForm n w blank fun _ ts _ d => ts = [] ∧ gapLength d.rest = 0 := by
  refine obeys_reference fun _ => obeys_drop (A := fun _ _ _ d => gapLength d.rest = 0)
    (obeys_token fun c k hk => ?_) fun _ _ _ _ h => ⟨rfl, h⟩
  obtain rfl : gapLength c.rest = k := Option.some.inj hk
  rw [rest_advance]
  exact gapLength_drop c.rest

/-- A function begins at its first word, if no blanks come before it. -/
theorem led_function : ObeysSeq hostForm n w
    (.optional (.leaf "async" (.token (.word "async"))) :: functionParts)
    fun c _ _ _ => gapLength c.rest = 0 → Visible c.rest := by
  have marked : Obeys hostForm n w (.optional (.leaf "async" (.token (.word "async"))))
      fun c _ _ d => Visible c.rest ∨ d = c :=
    obeys_optional (fun _ => Or.inr rfl)
      ((obeys_leaf (led_token (leads_word rfl)) fun _ _ _ _ => id).weaken fun _ _ _ _ => Or.inl)
  have still : Obeys hostForm n w blank fun c _ _ d => gapLength c.rest = 0 → d = c := by
    refine obeys_reference fun _ => obeys_drop (obeys_token fun c k hk hc => ?_) fun _ _ _ _ => id
    obtain rfl : gapLength c.rest = k := Option.some.inj hk
    rw [hc, advance_zero]
  have rest : ∀ ps, ObeysSeq hostForm n w ps fun _ _ _ _ => True := fun _ _ _ _ _ _ _ => trivial
  refine (ObeysSeq.cons marked (ObeysSeq.cons still
    (ObeysSeq.cons (led_keyword rfl) (rest _)))).weaken ?_
  rintro c _ _ _ ⟨d, _, _, _, _, hasync | rfl, ⟨e, _, _, _, _, hstill, ⟨_, _, _, _, _, hled, -⟩, -⟩,
    -⟩ hc
  · exact hasync
  · rwa [hstill hc] at hled

/-! ## Trees -/

/-- The passage whose trees have all that errors point to at characters that end no line. -/
abbrev Pointing (source : List Char) : Passage Rule := Each source (Tree.Points source)

/-- Whether an expression refers to a rule. -/
def isRule (name : Rule) : Peg Rule → Bool
  | .rule name' => name' == name
  | _ => false

mutual

/-- Whether errors point to nothing that an expression itself builds, and no statement or function
is read but behind blanks. -/
def Ordinary : Peg Rule → Bool
  | .token _ | .drop _ => true
  | .seq ps => OrdinarySeq false ps
  | .choice ps => OrdinaryAny ps
  | .many p | .optional p => Ordinary p
  | .rule name => name != .statement && name != .functionDecl
  | .node tag p => !(Tree.pointed ++ Tree.pointing).contains tag && Ordinary p
  | .leaf tag _ => !Tree.pointed.contains tag

/-- The same of the parts of a sequence, which may stand behind blanks. -/
def OrdinarySeq : Bool → List (Peg Rule) → Bool
  | _, [] => true
  | blanks, p :: ps =>
    (blanks && isRule .statement p || Ordinary p) && OrdinarySeq (isRule .blank p) ps

def OrdinaryAny : List (Peg Rule) → Bool
  | [] => true
  | p :: ps => Ordinary p && OrdinaryAny ps

end

theorem eq_of_isRule {name : Rule} (h : isRule name p = true) : p = .rule name := by
  cases p with
  | rule name' =>
    rw [isRule, beq_iff_eq] at h
    rw [h]
  | _ => cases h

theorem targets_of_not_pointing {m : Mark} (h : m.tag ∉ Tree.pointed ++ Tree.pointing)
    (ts : List Tree) : (Tree.node m ts).targets = [] := by
  simp only [Tree.pointing, List.mem_append, List.mem_cons, List.not_mem_nil, or_false, not_or] at h
  obtain ⟨hpointed, hunary, hbehind, hdecl, hassign⟩ := h
  rw [Tree.targets, if_neg hpointed, if_neg hunary, if_neg (not_or.mpr ⟨hbehind, hdecl⟩),
    if_neg hassign]

/-- A node whose targets stand points where it should if its parts do. -/
theorem pointing_node {tag : String} (h : Obeys hostForm n w p (Pointing source))
    (htargets : Obeys hostForm n w p fun c ts _ d => c.On source →
      ∀ v ∈ (Tree.node (c.mark d tag) ts).targets, v.Stands source) :
    Obeys hostForm n w (.node tag p) (Pointing source) :=
  obeys_node (h.and htargets) fun c ts _ d ⟨hp, ht⟩ hc =>
    ⟨(hp hc).1, by simpa using Tree.points_node (ht hc) (hp hc).2⟩

/-- The passage that points where it should, provided that behind blanks no more of them come. -/
def Preceded (source : List Char) (blanks : Bool) : Passage Rule := fun c ts rs d =>
  (blanks = true → gapLength c.rest = 0) → Pointing source c ts rs d

theorem Obeys.preceded (h : Obeys hostForm n w p (Pointing source)) (blanks : Bool) :
    Obeys hostForm n w p (Preceded source blanks) :=
  h.weaken fun _ _ _ _ h _ => h

/-- **An ordinary expression points where it should**, if the rules do that it refers to. -/
theorem obeys_ordinary
    (ih : ∀ name, name ≠ .statement → name ≠ .functionDecl →
      Obeys hostForm n w (.rule name) (Pointing source))
    (ihs : Obeys hostForm n w (.rule .statement) (Preceded source true)) :
    ∀ p, Ordinary p = true → Obeys hostForm n w p (Pointing source)
  | .token _, _ => obeys_token fun _ k _ hc => ⟨hc.advance k, by simp⟩
  | .drop p, _ => obeys_drop (onward n w p) fun _ _ _ _ hon hc => ⟨onward_on hon hc, by simp⟩
  | .seq ps, h => (obeys_seq (seqs false ps h)).weaken fun _ _ _ _ hp => hp nofun
  | .choice ps, h => obeys_choice (all ps h)
  | .many p, h => obeys_many (Each.closed source _) (obeys_ordinary ih ihs p h)
  | .optional p, h => obeys_optional (Each.closed source _).nil (obeys_ordinary ih ihs p h)
  | .rule name, h => by
    simp only [Ordinary, Bool.and_eq_true, bne_iff_ne] at h
    exact ih name h.1 h.2
  | .node tag p, h => by
    simp only [Ordinary, Bool.and_eq_true, Bool.not_eq_true', List.contains_eq_mem,
      decide_eq_false_iff_not] at h
    refine pointing_node (obeys_ordinary ih ihs p h.2) fun _ _ c ts d _ _ v hv => ?_
    rw [targets_of_not_pointing h.1] at hv
    cases hv
  | .leaf tag p, h => by
    simp only [Ordinary, Bool.not_eq_true', List.contains_eq_mem, decide_eq_false_iff_not] at h
    refine obeys_leaf (onward n w p) fun c _ _ d hon hc => ⟨onward_on hon hc, ?_⟩
    refine List.forall_mem_singleton.mpr (Tree.points_leaf ?_)
    rw [Tree.targets, if_neg (show (c.mark d tag).tag ∉ Tree.pointed from h)]
    simp
where
  all : ∀ ps, OrdinaryAny ps = true → ∀ p ∈ ps, Obeys hostForm n w p (Pointing source)
  | [], _ => by simp
  | p :: ps, h => by
    simp only [OrdinaryAny, Bool.and_eq_true] at h
    intro q hq
    rcases List.mem_cons.mp hq with hqp | hq
    · rw [hqp]
      exact obeys_ordinary ih ihs p h.1
    · exact all ps h.2 q hq
  seqs : ∀ blanks ps, OrdinarySeq blanks ps = true →
      ObeysSeq hostForm n w ps (Preceded source blanks)
  | _, [], _ => ObeysSeq.nil fun c _ => (Each.closed source _).nil c
  | blanks, p :: ps, h => by
    simp only [OrdinarySeq, Bool.and_eq_true, Bool.or_eq_true] at h
    have first : Obeys hostForm n w p (Preceded source blanks) := by
      rcases h.1 with ⟨rfl, hp⟩ | hp
      · rw [eq_of_isRule hp]
        exact ihs
      · exact (obeys_ordinary ih ihs p hp).preceded _
    have tight : Obeys hostForm n w p fun _ _ _ d =>
        isRule .blank p = true → gapLength d.rest = 0 := by
      intro m hm c ts d hrun hp
      rw [eq_of_isRule hp] at hrun
      exact (obeys_tight (w := w) m hm c ts d hrun).2
    refine (ObeysSeq.cons (first.and tight) (seqs _ ps h.2)).weaken ?_
    rintro c _ _ d ⟨e, ts₁, ts₂, rs₁, rs₂, ⟨hfirst, htight⟩, hrest, rfl, rfl⟩ hc
    exact (Each.closed source _).append (hfirst hc) (hrest htight)

/-! ## The rules of the grammar -/

/-- Behind the first child, all trees satisfy `φ`. -/
theorem each_behind {φ : Tree → Prop} (hp : Obeys hostForm n w p Lone)
    (hps : ∀ q ∈ ps, Obeys hostForm n w q (Each source φ)) :
    Obeys hostForm n w (.seq (p :: ps)) fun c ts _ _ => c.On source → ∀ v ∈ ts.drop 1, φ v := by
  refine obeys_seq ((ObeysSeq.cons (hp.and (onward n w p))
    (ObeysSeq.of_closed (Each.closed source φ) hps)).weaken ?_)
  rintro c ts rs d ⟨e, ts₁, ts₂, _, _, ⟨⟨t, rfl⟩, hon⟩, h₂, rfl, -⟩ hc
  exact (h₂ (onward_on hon hc)).2

/-- The operator in front stands. -/
theorem standing_first {m : Lexeme} (hm : Leads m) (ps : List (Peg Rule)) :
    ObeysSeq hostForm n w (op m :: ps) fun c ts _ _ =>
      c.On source → ∀ v ∈ ts.take 1, v.Stands source := by
  have rest : ObeysSeq hostForm n w ps fun _ _ _ _ => True := fun _ _ _ _ _ _ => trivial
  have stands : Obeys hostForm n w (op m) (Standing source) := standing_op hm
  have first := stands.and (obeys_loneLeaf "op" _)
  refine (ObeysSeq.cons first rest).weaken ?_
  rintro c ts rs d ⟨e, ts₁, ts₂, _, _, ⟨hstands, t, rfl⟩, -, rfl, -⟩ hc
  exact (hstands hc).2

/-- The operator of an assignment stands, which is the first child of its tail. -/
theorem standing_tail (ps : List (Peg Rule)) :
    Obeys hostForm n w (.node "assign-tail" (.seq (blank :: op assignOperator :: ps)))
      (Each source fun t => ∀ v ∈ t.firstChild, v.Stands source) := by
  have first : ObeysSeq hostForm n w (op assignOperator :: ps) fun c ts _ _ =>
      c.On source → ∀ v ∈ ts.take 1, v.Stands source := standing_first leads_assignOperator ps
  have parts := ObeysSeq.cons (obeys_tight.and (onward n w blank)) first
  refine obeys_node ((obeys_seq parts).and (onward n w _)) ?_
  rintro c ts rs d ⟨⟨e, ts₁, ts₂, _, _, ⟨⟨rfl, -⟩, hon⟩, hfirst, rfl, -⟩, hend⟩ hc
  exact ⟨onward_on hend hc, List.forall_mem_singleton.mpr (hfirst (onward_on hon hc))⟩

/-- A statement that errors point to. -/
theorem pointing_pointedLeaf {tag : String} (htag : tag ∈ Tree.pointed)
    (hled : Obeys hostForm n w p Led) : Obeys hostForm n w (.leaf tag p) (Pointing source) := by
  refine obeys_leaf (hled.and (onward n w p)) fun c _ _ d ⟨hled, hon⟩ hc =>
    ⟨onward_on hon hc, List.forall_mem_singleton.mpr (Tree.points_leaf ?_)⟩
  rw [Tree.targets, if_pos (show (c.mark d tag).tag ∈ Tree.pointed from htag)]
  exact List.forall_mem_singleton.mpr ⟨c, ⟨hc, hled⟩, rfl⟩

section Rules

variable
  (ih : ∀ name, name ≠ .statement → name ≠ .functionDecl →
    Obeys hostForm n w (.rule name) (Pointing source))
  (ihs : Obeys hostForm n w (.rule .statement) (Preceded source true))
include ih ihs

theorem pointing_return : Obeys hostForm n w (hostForm .returnStatement) (Pointing source) := by
  refine pointing_node (obeys_ordinary ih ihs _ rfl) ?_
  refine (led_cons (led_keyword (s := "return") rfl) _).weaken fun c ts _ d hled hc => ?_
  exact List.forall_mem_singleton.mpr ⟨c, ⟨hc, hled⟩, rfl⟩

theorem pointing_function : Obeys hostForm n w (hostForm .functionDecl) (Preceded source true) := by
  refine obeys_node ((obeys_ordinary ih ihs _ rfl).and (obeys_seq led_function)) ?_
  rintro c ts _ d ⟨hparts, hled⟩ htight hc
  obtain ⟨hd, hts⟩ := hparts hc
  refine ⟨hd, List.forall_mem_singleton.mpr (Tree.points_node ?_ hts)⟩
  exact List.forall_mem_singleton.mpr ⟨c, ⟨hc, hled (htight rfl)⟩, rfl⟩

theorem pointing_unary : Obeys hostForm n w (hostForm .unary) (Pointing source) := by
  refine obeys_choice fun p hp => ?_
  simp only [List.mem_cons, List.not_mem_nil, or_false] at hp
  rcases hp with rfl | rfl
  · exact pointing_node (obeys_ordinary ih ihs _ rfl)
      (obeys_seq (standing_first leads_unaryOperator _))
  · exact ih _ nofun nofun

theorem pointing_postfixed : Obeys hostForm n w (hostForm .postfixed) (Pointing source) := by
  refine pointing_node (obeys_ordinary ih ihs _ rfl) (each_behind (obeys_lone n w _ rfl) ?_)
  exact List.forall_mem_singleton.mpr
    (obeys_optional (Each.closed source _).nil (standing_op leads_updateOperator))

theorem pointing_varDecl : Obeys hostForm n w (hostForm .varDecl) (Pointing source) := by
  have silent (q : Peg Rule) : Obeys hostForm n w (.drop q) (Standing source) :=
    obeys_drop (onward n w q) fun _ _ _ _ hon hc => ⟨onward_on hon hc, by simp⟩
  have gap : Obeys hostForm n w blank (Standing source) :=
    ((obeys_tight (n := n) (w := w)).and (onward n w blank)).weaken
      fun _ _ _ _ ⟨⟨hnil, _⟩, hon⟩ hc => ⟨onward_on hon hc, by simp [hnil]⟩
  have declarator : Obeys hostForm n w (.rule .declarator) (Standing source) :=
    obeys_reference fun _ => standing_node (led_cons led_identifier _) "declarator"
  refine pointing_node (obeys_ordinary ih ihs _ rfl)
    (each_behind (obeys_loneLeaf _ _) fun q hq => ?_)
  simp only [List.mem_cons, List.not_mem_nil, or_false] at hq
  rcases hq with rfl | rfl | rfl
  · exact gap
  · exact declarator
  · refine obeys_many (Each.closed source _)
      (obeys_seq (ObeysSeq.of_closed (Each.closed source _) fun q hq => ?_))
    simp only [List.mem_cons, List.not_mem_nil, or_false] at hq
    rcases hq with rfl | rfl | rfl | rfl
    · exact gap
    · exact silent _
    · exact gap
    · exact declarator

theorem pointing_assignment : Obeys hostForm n w (hostForm .assignment) (Pointing source) := by
  refine pointing_node (obeys_ordinary ih ihs _ rfl) ?_
  have tails := each_behind (obeys_lone n w .conditional rfl) (List.forall_mem_singleton.mpr
    (obeys_optional (Each.closed source _).nil (standing_tail [blank, .rule .assignment])))
  refine tails.weaken fun c ts _ d h hc v hv => ?_
  obtain ⟨t, ht, hv⟩ := List.mem_flatMap.mp hv
  exact h hc t ht v hv

theorem pointing_statement (ihf : Obeys hostForm n w (.rule .functionDecl) (Preceded source true)) :
    Obeys hostForm n w (hostForm .statement) (Preceded source true) := by
  have ordinary {q : Peg Rule} (h : Ordinary q = true) :
      Obeys hostForm n w q (Preceded source true) := (obeys_ordinary ih ihs q h).preceded true
  have jump {tag : String} (htag : tag ∈ Tree.pointed) (q : Peg Rule)
      (h : tag.toList.head?.any (!isLineEnd ·) = true) : Obeys hostForm n w
        (.leaf tag (.seq [.token (.word tag), q])) (Preceded source true) :=
    (pointing_pointedLeaf htag (led_cons (led_token (leads_word h)) [q])).preceded true
  refine obeys_choice fun q hq => ?_
  simp only [List.mem_cons, List.not_mem_nil, or_false] at hq
  rcases hq with rfl | rfl | rfl | rfl | rfl | rfl | rfl | rfl | rfl | rfl | rfl | rfl
  · exact ordinary rfl
  · exact ihf
  · exact ordinary rfl
  · exact ordinary rfl
  · exact ordinary rfl
  · exact ordinary rfl
  · exact ordinary rfl
  · exact ordinary rfl
  · exact jump (by decide) _ rfl
  · exact jump (by decide) _ rfl
  · exact ordinary rfl
  · exact ordinary rfl

end Rules

/-- **Whatever a rule builds points where it should**: a statement or a function if no blanks come
before it. -/
theorem pointing_rules (source : List Char) (n : Nat) : ∀ w name, Obeys hostForm n w (.rule name)
    (Preceded source (name == .statement || name == .functionDecl)) := by
  induction n with
  | zero => exact fun _ _ => Obeys.zero _ _ _
  | succ n ih =>
    intro w name
    have ih' : ∀ name', name' ≠ .statement → name' ≠ .functionDecl →
        Obeys hostForm n name (.rule name') (Pointing source) := fun name' hs hf =>
      (ih name name').weaken fun _ _ _ _ h => h (by simp [hs, hf])
    have ihs : Obeys hostForm n name (.rule .statement) (Preceded source true) := ih name .statement
    have ordinary (h : Ordinary (hostForm name) = true) (blanks : Bool) :=
      (obeys_ordinary ih' ihs _ h).preceded blanks
    refine obeys_rule ?_
    cases name with
    | statement => exact pointing_statement ih' ihs (ih _ .functionDecl)
    | functionDecl => exact pointing_function ih' ihs
    | varDecl => exact (pointing_varDecl ih' ihs).preceded _
    | returnStatement => exact (pointing_return ih' ihs).preceded _
    | assignment => exact (pointing_assignment ih' ihs).preceded _
    | unary => exact (pointing_unary ih' ihs).preceded _
    | postfixed => exact (pointing_postfixed ih' ihs).preceded _
    | binary l => cases l <;> exact ordinary rfl _
    | _ => exact ordinary rfl _

/-- **All that errors about the tree of a source point to** begins at characters that end no
line. -/
theorem points_of_parse {source : String} {t : Tree} (h : parse source = .ok t) :
    t.Points source.toList := by
  obtain ⟨d, hrun, -⟩ := parse_eq_ok h
  have hon : (start source.toList).On source.toList := ⟨0, rfl⟩
  have hpointing := pointing_rules source.toList _ .program .program _ le_rfl _ _ _ hrun
  exact (hpointing nofun hon).2 t (List.mem_singleton_self t)

end Grammar
end LedSketch
