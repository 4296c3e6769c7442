import LedSketch.Proofs.Grammar.Braces
import LedSketch.Proofs.Grammar.Declarations

/-!
# What a run of the parser means for the reader

Whatever a rule of the grammar takes, the reader reads as the grammar means it, and comes out with
the same braces, bodies and interpolations open; or there is an end of statement on the way that is
not proper, and up to there the two go together.

* `Passes`: what a run of the parser means for the reader.
* `PlainPeg`: expressions whose lexemes are all of some sort; `Lexemes` are the sorts that have all
  lexemes of the plain rules.
* `obeys_block`, `obeys_template`, `obeys_interpolation`: the rules that open and close something.
-/

namespace LedSketch.Grammar

open Text Scan Scanner Dialect

/-- The pending declaration, if there is one, is not async. -/
def Settled (p : Option Bool) : Prop := p ≠ some true

/-- A brace leads into a body that suspends only if `b` holds. -/
def Opens (F : Frame) (b : Bool) (p : Option Bool) : Prop :=
  (F.braced p).suspendable = true → b = true

/-- The reader gets from `c` to `d` with the kinds of the readings `rs`, every end of statement is
proper, and if the reader heeds its `await`s then the trees `ts` are legal. -/
def Passed (b : Bool) (Q : Reader → List Char → Prop) (r : Reader) (c : Cursor) (ts : List Tree)
    (rs : List (Reading Rule)) (d : Cursor) : Prop :=
  ∃ r', Along r c.rest (rs.flatMap Reading.kinds) r' d.rest ∧ Q r' d.rest ∧
    (∀ x ∈ rs, x.Proper) ∧ (r.Heeds c.rest → ∀ t ∈ ts, t.Legal b)

/-- Among the readings `rs` is an end of statement that is not proper, and the reader gets up to the
first one with their kinds. -/
def Strays (r : Reader) (c : Cursor) (rs : List (Reading Rule)) : Prop :=
  ∃ us x vs r' ks, rs = us ++ x :: vs ∧ ¬ x.Proper ∧ endKinds? x.place.rest = some ks ∧
    Along r c.rest (us.flatMap Reading.kinds) r' x.place.rest ∧ r'.scanner.mode = .code

/-- A reader is told rightly whether a lexeme is a member name. -/
def Reading.Told (r : Reader) (x : Reading Rule) : Prop :=
  x.text ≠ [] → (r.members x.place.rest.length = true ↔ x.rule = .memberAccess)

/-- **What a run of the parser means for the reader**, which is in `P` before it and in `Q` behind
it. -/
def Passes (b : Bool) (P Q : Reader → List Char → Prop) : Passage Rule := fun c ts rs d =>
  ∀ r, P r c.rest → (∀ x ∈ rs, x.Told r) → Passed b Q r c ts rs d ∨ Strays r c rs

variable {b : Bool} {P Q R : Reader → List Char → Prop} {c d e : Cursor} {ts us : List Tree}
  {rs ss : List (Reading Rule)} {F : Frame} {ok : Option Bool → Prop} {n : Nat} {w : Rule}
  {r : Reader}

theorem Strays.append (h : Strays r c rs) (ss : List (Reading Rule)) : Strays r c (rs ++ ss) := by
  obtain ⟨us, x, vs, r', ks, rfl, hx⟩ := h
  exact ⟨us, x, vs ++ ss, r', ks, by simp, hx⟩

theorem Strays.prepend {r' : Reader} (ha : Along r c.rest (rs.flatMap Reading.kinds) r' d.rest)
    (h : Strays r' d ss) : Strays r c (rs ++ ss) := by
  obtain ⟨us, x, vs, r'', ks, rfl, hx, hk, hb, hm⟩ := h
  refine ⟨rs ++ us, x, vs, r'', ks, by simp, hx, hk, ?_, hm⟩
  rw [List.flatMap_append]
  exact ha.trans hb

theorem Passes.nil (b : Bool) (P : Reader → List Char → Prop) (c : Cursor) :
    Passes b P P c [] [] c :=
  fun r hr _ => Or.inl ⟨r, .refl r _, hr, by simp, by simp⟩

/-- **Passages go one behind the other.** -/
theorem Passes.append (h : Passes b P Q c ts rs d) (h' : Passes b Q R d us ss e) :
    Passes b P R c (ts ++ us) (rs ++ ss) e := by
  intro r hr htold
  rcases h r hr fun x hx => htold x (List.mem_append_left _ hx) with
    ⟨r₁, ha, hq, hproper, hlegal⟩ | hstray
  · have htold' : ∀ x ∈ ss, x.Told r₁ := by
      intro x hx
      unfold Reading.Told
      rw [ha.members]
      exact htold x (List.mem_append_right _ hx)
    rcases h' r₁ hq htold' with ⟨r₂, ha', hq', hproper', hlegal'⟩ | hstray
    · refine Or.inl ⟨r₂, ?_, hq', ?_, ?_⟩
      · rw [List.flatMap_append]
        exact ha.trans ha'
      · intro x hx
        exact (List.mem_append.mp hx).elim (hproper x) (hproper' x)
      · intro hh t ht
        exact (List.mem_append.mp ht).elim (hlegal hh t) (hlegal' (hh.along ha) t)
    · exact Or.inr (hstray.prepend ha)
  · exact Or.inr (hstray.append ss)

theorem Passes.closed (b : Bool) (P : Reader → List Char → Prop) : (Passes b P P).Closed :=
  ⟨Passes.nil b P, Passes.append⟩

theorem Passes.of_comp
    (h : (Passes b P Q).comp (Passes b Q R) c ts rs d) : Passes b P R c ts rs d := by
  obtain ⟨e, ts₁, ts₂, rs₁, rs₂, h₁, h₂, rfl, rfl⟩ := h
  exact h₁.append h₂

theorem Passes.mono {P' Q' : Reader → List Char → Prop} (h : Passes b P Q c ts rs d)
    (hP : ∀ r cs, P' r cs → P r cs) (hQ : ∀ r cs, Q r cs → Q' r cs) :
    Passes b P' Q' c ts rs d := by
  intro r hr htold
  rcases h r (hP r _ hr) htold with ⟨r', ha, hq, hrest⟩ | hstray
  · exact Or.inl ⟨r', ha, hQ _ _ hq, hrest⟩
  · exact Or.inr hstray

/-- Other trees may stand for those of a passage if they are legal too. -/
theorem Passes.rebuild {b' : Bool} (h : Passes b P Q c ts rs d)
    (hlegal : ∀ r, P r c.rest → r.Heeds c.rest → (∀ t ∈ ts, t.Legal b) → ∀ t ∈ us, t.Legal b') :
    Passes b' P Q c us rs d := by
  intro r hr htold
  rcases h r hr htold with ⟨r', ha, hq, hproper, hl⟩ | hstray
  · exact Or.inl ⟨r', ha, hq, hproper, fun hh => hlegal r hr hh (hl hh)⟩
  · exact Or.inr hstray

theorem Passes.build {b' : Bool} (h : Passes b P Q c ts rs d)
    (hlegal : (∀ t ∈ ts, t.Legal b) → ∀ t ∈ us, t.Legal b') : Passes b' P Q c us rs d :=
  h.rebuild fun _ _ _ => hlegal

/-! ## Lexemes -/

/-- Whether the lexemes of a rule are code. -/
def isCode : Rule → Bool
  | .blank | .endOfStatement | .string | .template | .interpolation => false
  | _ => true

theorem kinds_of_isCode (hw : isCode w = true) (c : Cursor) (k : Nat) :
    (Reading.mk w c k).kinds = List.replicate k .code := by
  cases w <;> first | rfl | cases hw

theorem proper_of_ne (hw : w ≠ .endOfStatement) (c : Cursor) (k : Nat) :
    (Reading.mk w c k).Proper := fun h => absurd h hw

theorem rest_advance (k : Nat) (c : Cursor) : (c.advance k).rest = c.rest.drop k := by
  induction k generalizing c with
  | zero => rfl
  | succ k ih =>
    obtain ⟨rest, offset, line, col⟩ := c
    cases rest with
    | nil => rfl
    | cons x xs =>
      rw [Cursor.advance, List.drop_succ_cons]
      split <;> rw [ih]

/-- A lexeme that is read as its rule means it. -/
theorem passes_token {k : Nat} (hw : w ≠ .endOfStatement)
    (h : ∀ r, P r c.rest → (Reading.mk w c k).Told r →
      ∃ r', Along r c.rest (Reading.mk w c k).kinds r' (c.rest.drop k) ∧ Q r' (c.rest.drop k)) :
    Passes b P Q c [] [⟨w, c, k⟩] (c.advance k) := by
  intro r hr htold
  obtain ⟨r', h', hr'⟩ := h r hr (htold _ List.mem_cons_self)
  rw [← rest_advance] at h' hr'
  exact Or.inl ⟨r', by simpa using h', hr', by simpa using proper_of_ne hw c k, by simp⟩

theorem obeys_plain {m : Lexeme} (hw : isCode w = true) (hm : Plain ok m) :
    Obeys hostForm n w (.token m) (Passes b (At F ok) (At F ok)) := by
  refine obeys_token fun c k hk => passes_token (by rintro rfl; cases hw) fun r hr _ => ?_
  rw [kinds_of_isCode hw]
  exact hm F c.rest k hk r hr

/-- A rule that passes whatever the fuel passes wherever it is referred to. -/
theorem obeys_reference {A : Passage Rule} {name : Rule}
    (h : ∀ n, Obeys hostForm n name (hostForm name) A) : Obeys hostForm n w (.rule name) A := by
  cases n with
  | zero => exact Obeys.zero _ _ _
  | succ n => exact obeys_rule (h n)

/-- A silent lexeme that is read as its rule means it. -/
theorem obeys_silent {m : Lexeme} (hw : w ≠ .endOfStatement)
    (h : ∀ c k, m c.rest = some k → ∀ r, P r c.rest → (Reading.mk w c k).Told r →
      ∃ r', Along r c.rest (Reading.mk w c k).kinds r' (c.rest.drop k) ∧ Q r' (c.rest.drop k)) :
    Obeys hostForm n w (silent m) (Passes b P Q) :=
  obeys_drop (A := Passes b P Q) (obeys_token fun c k hk => passes_token hw (h c k hk))
    fun _ _ _ _ hp => hp.build (by simp)

/-- White space and comments pass. -/
theorem obeys_gap (h : ∀ r cs, P r cs → ∃ r', Along r cs (gapKinds cs) r'
      (cs.drop (gapKinds cs).length) ∧ Q r' (cs.drop (gapKinds cs).length)) (n : Nat) :
    Obeys hostForm n .blank (hostForm .blank) (Passes b P Q) := by
  refine obeys_silent nofun fun c k hk r hr _ => ?_
  obtain rfl : gapLength c.rest = k := Option.some.inj hk
  rw [← length_gapKinds]
  exact h r c.rest hr

theorem At.gap (r : Reader) (cs : List Char) (h : At F ok r cs) :
    ∃ r', Along r cs (gapKinds cs) r' (cs.drop (gapKinds cs).length) ∧
      At F ok r' (cs.drop (gapKinds cs).length) := by
  obtain ⟨r', h', hs', hb'⟩ := along_gap h.between
  exact ⟨r', h', h.toOpen.at hs' hb'⟩

theorem obeys_blank : Obeys hostForm n w blank (Passes b (At F ok) (At F ok)) :=
  obeys_reference (obeys_gap At.gap)

/-- The end of a statement passes, or the reader strays. -/
theorem obeys_end (hok : ok none) (n : Nat) : Obeys hostForm n .endOfStatement
    (hostForm .endOfStatement) (Passes b (At F ok) (At F ok)) := by
  refine obeys_drop (obeys_token fun c k hk r hr _ => ?_) fun _ _ _ _ h => h
  have hlen := map_length_kinds.1 c.rest
  rw [hk] at hlen
  obtain ⟨ks, hks, rfl⟩ := Option.map_eq_some_iff.mp hlen
  have hkinds : (Reading.mk Rule.endOfStatement c ks.length).kinds = ks := by
    simp [Reading.kinds, hks]
  by_cases hp : endKinds? c.rest = properEnd? c.rest
  · obtain ⟨r', h', hr'⟩ := along_properEnd hr hok (hp ▸ hks)
    rw [← rest_advance] at h' hr'
    refine Or.inl ⟨r', by simpa [hkinds] using h', hr', ?_, by simp⟩
    intro x hx
    obtain rfl := List.mem_singleton.mp hx
    exact fun _ => hp
  · refine Or.inr ⟨[], _, [], r, ks, rfl, fun hproper => hp (hproper rfl), hks, .refl r _, ?_⟩
    -- at the end of the source there is nothing to pass by
    rcases hr.ready with hm | ⟨-, hnil⟩
    · exact hm
    · exact absurd (by rw [hnil]; simp [endKinds?, properEnd?]) hp

/-! ## Plain expressions -/

/-- Whether a rule stands for a part of code that other parts may refer to. -/
def isPart : Rule → Bool
  | .program | .interpolation => false
  | _ => true

/-- The words that mean something for what comes next. -/
def boundWords : List String := ["await", "async", "function"]

mutual

/-- An expression whose lexemes satisfy `T`, and that builds no node that governs `await`s. -/
def PlainPeg (T : Lexeme → Prop) : Peg Rule → Prop
  | .token m => T m
  | .seq ps => PlainPegs T ps
  | .choice ps => PlainPegs T ps
  | .many p => PlainPeg T p
  | .optional p => PlainPeg T p
  | .rule name => isPart name = true
  | .node tag p =>
    tag ∉ Tree.governing ∧ (tag ∈ Tree.chained → Undeclared p = true) ∧ PlainPeg T p
  | .leaf tag p => tag ≠ "program" ∧ PlainPeg T p
  | .drop p => PlainPeg T p

def PlainPegs (T : Lexeme → Prop) : List (Peg Rule) → Prop
  | [] => True
  | p :: ps => PlainPeg T p ∧ PlainPegs T ps

end

/-- A part of a rule passes if every rule that it refers to does. -/
theorem PlainPeg.obeys (hw : isCode w = true)
    (ih : ∀ name, isPart name = true →
      Obeys hostForm n w (.rule name) (Passes b (At F Settled) (At F Settled))) :
    ∀ p, PlainPeg (Plain Settled) p →
      Obeys hostForm n w p (Passes b (At F Settled) (At F Settled))
  | .token _, h => obeys_plain hw h
  | .seq ps, h => obeys_seq (ObeysSeq.of_closed (Passes.closed b _) (all ps h))
  | .choice ps, h => obeys_choice (all ps h)
  | .many p, h => obeys_many (Passes.closed b _) (PlainPeg.obeys hw ih p h)
  | .optional p, h => obeys_optional (Passes.nil b _) (PlainPeg.obeys hw ih p h)
  | .rule name, h => ih name h
  | .node tag p, h => by
    have hchained : Obeys hostForm n w p (fun _ ts _ _ => tag ∈ Tree.chained →
        ∀ t ∈ ts, t.isDeclaration = false) := fun m hm c ts d hrun htag =>
      obeys_undeclared (fun name => undeclared n w name) p (h.2.1 htag) m hm c ts d hrun
    refine obeys_node ((PlainPeg.obeys hw ih p h.2.2).and hchained) fun c ts rs d hp =>
      hp.1.build fun hl t ht => ?_
    obtain rfl := List.mem_singleton.mp ht
    exact Tree.legal_node h.1 hp.2 hl
  | .leaf tag p, h => by
    refine obeys_leaf (PlainPeg.obeys hw ih p h.2) fun c ts rs d hp => hp.build fun _ t ht => ?_
    obtain rfl := List.mem_singleton.mp ht
    exact Tree.legal_leaf h.1
  | .drop p, h =>
    obeys_drop (PlainPeg.obeys hw ih p h) fun c ts rs d hp => hp.build (by simp)
where
  all : ∀ ps, PlainPegs (Plain Settled) ps →
      ∀ p ∈ ps, Obeys hostForm n w p (Passes b (At F Settled) (At F Settled))
  | [], _ => by simp
  | p :: ps, h => by
    intro q hq
    rcases List.mem_cons.mp hq with hqp | hq
    · rw [hqp]
      exact PlainPeg.obeys hw ih p h.1
    · exact all ps h.2 q hq

/-! ## The rules of the grammar -/

/-- A sort of lexemes that all lexemes of the plain rules are of. -/
structure Lexemes (T : Lexeme → Prop) : Prop where
  literal : ∀ {s : String}, marks s.toList = true → T (.literal s)
  notBefore : ∀ {stop s : String}, marks s.toList = true → T (.notBefore stop s)
  semicolon : T (.literal ";")
  divide : T (.notBefore "=/*" "/")
  divideAssign : T (.notBefore "=" "/=")
  word : ∀ {s : String}, isName s.toList = true → s ∉ boundWords → T (.word s)
  firstOf : ∀ {ms : List Lexeme}, (∀ m ∈ ms, T m) → T (.firstOf ms)
  indented : ∀ {m : Lexeme}, T m → T (.indented m)
  sameLine : T sameLine?
  trailingComma : T trailingComma?
  numeral : T numeral?
  identifier : T identifier?

namespace Lexemes

variable {T : Lexeme → Prop} (hT : Lexemes T)
include hT

theorem operator (l : Level) : T l.operator := by
  cases l with
  | logicalOr => exact hT.literal (by decide)
  | logicalAnd => exact hT.literal (by decide)
  | bitOr => exact hT.notBefore (by decide)
  | bitXor => exact hT.notBefore (by decide)
  | bitAnd => exact hT.notBefore (by decide)
  | equality =>
    refine hT.firstOf fun m hm => ?_
    simp only [List.mem_cons, List.not_mem_nil, or_false] at hm
    rcases hm with rfl | rfl | rfl | rfl <;> exact hT.literal (by decide)
  | relational =>
    refine hT.firstOf fun m hm => ?_
    simp only [List.mem_cons, List.not_mem_nil, or_false] at hm
    rcases hm with rfl | rfl | rfl | rfl
    · exact hT.literal (by decide)
    · exact hT.literal (by decide)
    · exact hT.notBefore (by decide)
    · exact hT.notBefore (by decide)
  | shift =>
    refine hT.firstOf fun m hm => ?_
    simp only [List.mem_cons, List.not_mem_nil, or_false] at hm
    rcases hm with rfl | rfl <;> exact hT.notBefore (by decide)
  | additive =>
    refine hT.firstOf fun m hm => ?_
    simp only [List.mem_cons, List.not_mem_nil, or_false] at hm
    rcases hm with rfl | rfl <;> exact hT.notBefore (by decide)
  | multiplicative =>
    refine hT.firstOf fun m hm => ?_
    simp only [List.mem_cons, List.not_mem_nil, or_false] at hm
    rcases hm with rfl | rfl | rfl
    · exact hT.notBefore (by decide)
    · exact hT.divide
    · exact hT.notBefore (by decide)

theorem assignOperator : T assignOperator := by
  refine hT.firstOf fun m hm => ?_
  simp only [List.map_cons, List.map_nil, List.mem_cons, List.not_mem_nil, or_false] at hm
  rcases hm with rfl | rfl | rfl | rfl | rfl | rfl | rfl | rfl | rfl | rfl | rfl
  all_goals first
    | exact hT.divideAssign
    | exact hT.notBefore (by decide)

theorem updateOperator : T updateOperator := by
  refine hT.indented (hT.firstOf fun m hm => ?_)
  simp only [List.mem_cons, List.not_mem_nil, or_false] at hm
  rcases hm with rfl | rfl <;> exact hT.literal (by decide)

theorem words (ss : List String) (h : ∀ s ∈ ss, isName s.toList = true ∧ s ∉ boundWords) :
    T (.firstOf (ss.map .word)) := by
  refine hT.firstOf fun m hm => ?_
  obtain ⟨s, hs, rfl⟩ := List.mem_map.mp hm
  exact hT.word (h s hs).1 (h s hs).2

end Lexemes

theorem lexemes_plain (hok : ok none) : Lexemes (Plain ok) where
  literal := plain_literal
  notBefore := plain_notBefore
  semicolon := plain_semicolon hok
  divide := plain_divide
  divideAssign := plain_divideAssign
  word hs hb := plain_word hs (fun hf => hb (by simp [hf, boundWords]))
    fun ha => hb (by simp [ha, boundWords])
  firstOf := plain_firstOf
  indented := plain_indented
  sameLine := plain_sameLine
  trailingComma := plain_trailingComma
  numeral := plain_numeral
  identifier := plain_identifier

theorem plain_unaryOperator : Plain ok unaryOperator := by
  refine plain_firstOf fun m hm => ?_
  simp only [List.mem_cons, List.not_mem_nil, or_false] at hm
  rcases hm with rfl | rfl | rfl | rfl | rfl | rfl | rfl | rfl
  all_goals first
    | exact plain_literal (by decide)
    | exact plain_word (by decide) (by decide) (by decide)

/-- The rules that consist of plain lexemes and of other rules. -/
def isPlain : Rule → Bool
  | .blank | .endOfStatement | .program | .block | .functionDecl | .unary | .memberAccess | .string
  | .template | .interpolation => false
  | _ => true

section PlainPegs

variable {T : Lexeme → Prop} {name : Rule} {p : Peg Rule} {m : Lexeme} {s : String}

theorem plainPeg_rule (h : isPart name = true) : PlainPeg T (.rule name) := h

theorem plainPeg_op (h : T m) : PlainPeg T (op m) := ⟨by decide, h⟩

variable (hT : Lexemes T)
include hT

theorem Lexemes.punct (h : marks s.toList = true) : PlainPeg T (punct s) := hT.literal h

theorem Lexemes.keyword (h : isName s.toList = true) (hb : s ∉ boundWords) :
    PlainPeg T (keyword s) := hT.word h hb

theorem Lexemes.moreBehindCommas (h : PlainPeg T p) : PlainPeg T (moreBehindCommas p) :=
  ⟨plainPeg_rule rfl, hT.punct (by decide), plainPeg_rule rfl, h, trivial⟩

theorem Lexemes.plainPeg_statement : PlainPeg T (hostForm .statement) :=
  ⟨plainPeg_rule rfl, plainPeg_rule rfl, ⟨plainPeg_rule rfl, plainPeg_rule rfl, trivial⟩,
    plainPeg_rule rfl, plainPeg_rule rfl, plainPeg_rule rfl, plainPeg_rule rfl, plainPeg_rule rfl,
    ⟨by decide, hT.word (by decide) (by decide), plainPeg_rule rfl, trivial⟩,
    ⟨by decide, hT.word (by decide) (by decide), plainPeg_rule rfl, trivial⟩,
    ⟨by decide, hT.semicolon⟩, plainPeg_rule rfl, trivial⟩

theorem Lexemes.plainPeg_varDecl : PlainPeg T (hostForm .varDecl) :=
  ⟨by decide, by decide, ⟨by decide, hT.words ["let", "const", "var"] (by decide)⟩,
    plainPeg_rule rfl, plainPeg_rule rfl, hT.moreBehindCommas (plainPeg_rule rfl), trivial⟩

theorem Lexemes.plainPeg_ifStatement : PlainPeg T (hostForm .ifStatement) :=
  ⟨by decide, by decide,
    ⟨hT.keyword (by decide) (by decide), plainPeg_rule rfl, hT.punct (by decide),
      plainPeg_rule rfl, plainPeg_rule rfl, plainPeg_rule rfl, hT.punct (by decide),
      plainPeg_rule rfl, plainPeg_rule rfl, trivial⟩,
    ⟨by decide, by decide, plainPeg_rule rfl, hT.keyword (by decide) (by decide),
      plainPeg_rule rfl, plainPeg_rule rfl, trivial⟩, trivial⟩

theorem Lexemes.plainPeg_forStatement : PlainPeg T (hostForm .forStatement) :=
  have semicolon : PlainPeg T (Grammar.punct ";") := hT.semicolon
  ⟨by decide, by decide, hT.keyword (by decide) (by decide), plainPeg_rule rfl,
    hT.punct (by decide), plainPeg_rule rfl,
    ⟨by decide, by decide, plainPeg_rule rfl, plainPeg_rule rfl, trivial⟩, plainPeg_rule rfl,
    semicolon, plainPeg_rule rfl, ⟨by decide, by decide, plainPeg_rule rfl⟩, plainPeg_rule rfl,
    semicolon, plainPeg_rule rfl, ⟨by decide, by decide, plainPeg_rule rfl⟩, plainPeg_rule rfl,
    hT.punct (by decide), plainPeg_rule rfl, plainPeg_rule rfl, trivial⟩

theorem Lexemes.plainPeg_whileStatement : PlainPeg T (hostForm .whileStatement) :=
  ⟨by decide, by decide, hT.keyword (by decide) (by decide), plainPeg_rule rfl,
    hT.punct (by decide), plainPeg_rule rfl, plainPeg_rule rfl, plainPeg_rule rfl,
    hT.punct (by decide), plainPeg_rule rfl, plainPeg_rule rfl, trivial⟩

theorem Lexemes.plainPeg_doWhileStatement : PlainPeg T (hostForm .doWhileStatement) :=
  ⟨by decide, by decide,
    ⟨hT.keyword (by decide) (by decide), plainPeg_rule rfl, plainPeg_rule rfl, plainPeg_rule rfl,
      hT.keyword (by decide) (by decide), plainPeg_rule rfl, hT.punct (by decide),
      plainPeg_rule rfl, plainPeg_rule rfl, plainPeg_rule rfl, hT.punct (by decide), trivial⟩,
    plainPeg_rule (T := T) rfl, trivial⟩

theorem Lexemes.plainPeg_conditional : PlainPeg T (hostForm .conditional) :=
  ⟨by decide, by decide, plainPeg_rule rfl,
    ⟨by decide, by decide, plainPeg_rule rfl, hT.punct (by decide), plainPeg_rule rfl,
      plainPeg_rule rfl, plainPeg_rule rfl, hT.punct (by decide), plainPeg_rule rfl,
      plainPeg_rule rfl, trivial⟩, trivial⟩

theorem Lexemes.plainPeg_binary (l : Level) : PlainPeg T (hostForm (.binary l)) := by
  have operand : PlainPeg T (operand l) := by cases l <;> exact plainPeg_rule rfl
  exact ⟨by decide, fun _ => by cases l <;> rfl, operand,
    ⟨by decide, fun h => absurd h (by decide), plainPeg_rule rfl, plainPeg_op (hT.operator l),
      plainPeg_rule rfl, operand, trivial⟩, trivial⟩

theorem Lexemes.plainPeg_primary : PlainPeg T (hostForm .primary) :=
  have boolean : T (.firstOf [.word "true", .word "false"]) :=
    hT.words ["true", "false"] (by decide)
  ⟨⟨by decide, hT.numeral⟩, plainPeg_rule rfl, plainPeg_rule rfl, ⟨by decide, boolean⟩,
    ⟨by decide, hT.word (by decide) (by decide)⟩, ⟨by decide, hT.word (by decide) (by decide)⟩,
    plainPeg_rule rfl, plainPeg_rule rfl, plainPeg_rule rfl, trivial⟩

/-- **The plain rules have lexemes of such a sort.** -/
theorem Lexemes.plainPeg (h : isPlain name = true) : PlainPeg T (hostForm name) := by
  cases name <;> try cases h
  case item => exact ⟨plainPeg_rule rfl, plainPeg_rule rfl, trivial⟩
  case statement => exact hT.plainPeg_statement
  case varDecl => exact hT.plainPeg_varDecl
  case declarator =>
    exact ⟨by decide, by decide, plainPeg_rule rfl,
      ⟨plainPeg_rule rfl, hT.notBefore (by decide), plainPeg_rule rfl, plainPeg_rule rfl, trivial⟩,
      trivial⟩
  case ifStatement => exact hT.plainPeg_ifStatement
  case forStatement => exact hT.plainPeg_forStatement
  case whileStatement => exact hT.plainPeg_whileStatement
  case doWhileStatement => exact hT.plainPeg_doWhileStatement
  case returnStatement =>
    exact ⟨by decide, by decide, hT.keyword (by decide) (by decide),
      ⟨hT.sameLine, plainPeg_rule rfl, trivial⟩, plainPeg_rule rfl, trivial⟩
  case expressionStatement =>
    exact ⟨by decide, by decide, plainPeg_rule rfl, plainPeg_rule rfl, trivial⟩
  case expression =>
    exact ⟨by decide, by decide, plainPeg_rule rfl,
      ⟨by decide, by decide, hT.moreBehindCommas (plainPeg_rule rfl)⟩, trivial⟩
  case assignment =>
    exact ⟨by decide, by decide, plainPeg_rule rfl,
      ⟨by decide, by decide, plainPeg_rule rfl, plainPeg_op hT.assignOperator, plainPeg_rule rfl,
        plainPeg_rule rfl, trivial⟩, trivial⟩
  case conditional => exact hT.plainPeg_conditional
  case binary l => exact hT.plainPeg_binary l
  case postfixed =>
    exact ⟨by decide, by decide, plainPeg_rule rfl, plainPeg_op hT.updateOperator, trivial⟩
  case access =>
    exact ⟨by decide, by decide, plainPeg_rule rfl,
      ⟨plainPeg_rule rfl, plainPeg_rule rfl, plainPeg_rule rfl, trivial⟩, trivial⟩
  case callArguments =>
    exact ⟨by decide, by decide, plainPeg_rule rfl, hT.punct (by decide), plainPeg_rule rfl,
      ⟨plainPeg_rule rfl, hT.moreBehindCommas (plainPeg_rule rfl), trivial⟩, plainPeg_rule rfl,
      hT.punct (by decide), trivial⟩
  case indexAccess =>
    exact ⟨by decide, by decide, plainPeg_rule rfl, hT.punct (by decide), plainPeg_rule rfl,
      plainPeg_rule rfl, plainPeg_rule rfl, hT.punct (by decide), trivial⟩
  case primary => exact hT.plainPeg_primary
  case group =>
    exact ⟨by decide, by decide, hT.punct (by decide), plainPeg_rule rfl, plainPeg_rule rfl,
      plainPeg_rule rfl, hT.punct (by decide), trivial⟩
  case array =>
    exact ⟨by decide, by decide, hT.punct (by decide), plainPeg_rule rfl,
      ⟨plainPeg_rule rfl, hT.moreBehindCommas (plainPeg_rule rfl), hT.trailingComma, trivial⟩,
      plainPeg_rule rfl, hT.punct (by decide), trivial⟩
  case identifier => exact ⟨by decide, hT.identifier⟩

end PlainPegs

/-! ## Sequences that open and close -/

theorem passes_nil (P : Reader → List Char → Prop) : ObeysSeq hostForm n w [] (Passes b P P) :=
  ObeysSeq.nil (Passes.nil b P)

theorem passes_cons {p : Peg Rule} {ps : List (Peg Rule)} (hp : Obeys hostForm n w p (Passes b P Q))
    (hps : ObeysSeq hostForm n w ps (Passes b Q R)) :
    ObeysSeq hostForm n w (p :: ps) (Passes b P R) :=
  (ObeysSeq.cons hp hps).weaken fun _ _ _ _ => Passes.of_comp

/-- What holds for each of some frames holds for whichever the reader is in. -/
theorem passes_exists {ι : Type} {p : Peg Rule} {φ : ι → Prop}
    {P Q : ι → Reader → List Char → Prop}
    (h : ∀ i, φ i → Obeys hostForm n w p (Passes b (P i) (Q i))) :
    Obeys hostForm n w p
      (Passes b (fun r cs => ∃ i, φ i ∧ P i r cs) (fun r cs => ∃ i, φ i ∧ Q i r cs)) := by
  rintro m hm c ts d hrun r ⟨i, hi, hr⟩ htold
  rcases h i hi m hm c ts d hrun r hr htold with ⟨r', ha, hq, hrest⟩ | hstray
  · exact Or.inl ⟨r', ha, ⟨i, hi, hq⟩, hrest⟩
  · exact Or.inr hstray

/-- Punctuation that takes the reader from one place to another. -/
theorem obeys_punct {s : String} (hw : w ≠ .endOfStatement)
    (h : ∀ r c ds, c.rest = s.toList ++ ds → P r (s.toList ++ ds) →
      ∃ r', Along r (s.toList ++ ds) (Reading.mk w c s.toList.length).kinds r' ds ∧ Q r' ds) :
    Obeys hostForm n w (punct s) (Passes b P Q) := by
  refine obeys_silent hw fun c k hk r hr _ => ?_
  obtain ⟨hcs, rfl⟩ := literal_eq_some hk
  rw [hcs] at hr
  obtain ⟨r', h', hr'⟩ := h r c _ hcs hr
  rw [← hcs] at h'
  exact ⟨r', h', hr'⟩

/-- A leaf is legal anywhere. -/
theorem obeys_leafToken {tag : String} {m : Lexeme} (htag : tag ≠ "program")
    (h : Obeys hostForm n w (.token m) (Passes b P Q)) :
    Obeys hostForm n w (.leaf tag (.token m)) (Passes b P Q) := by
  refine obeys_leaf h fun c ts rs d hp => hp.build fun _ t ht => ?_
  obtain rfl := List.mem_singleton.mp ht
  exact Tree.legal_leaf htag

/-- A node that does not take its children apart is legal if they are. -/
theorem obeys_plainNode {tag : String} {p : Peg Rule} (hg : tag ∉ Tree.governing)
    (hc : tag ∉ Tree.chained) (h : Obeys hostForm n w p (Passes b P Q)) :
    Obeys hostForm n w (.node tag p) (Passes b P Q) := by
  refine obeys_node h fun c ts rs d hp => hp.build fun hl t ht => ?_
  obtain rfl := List.mem_singleton.mp ht
  exact Tree.legal_node hg (fun hm => absurd hm hc) hl

theorem obeys_string : Obeys hostForm n .string (hostForm .string) (Passes b (At F ok) (At F ok)) :=
  obeys_leafToken (by decide) (obeys_token fun _ _ hk => passes_token nofun fun _ hr _ => along_string hr hk)

theorem obeys_identifier : Obeys hostForm n .identifier (hostForm .identifier)
    (Passes b (At F ok) (At F ok)) :=
  obeys_leafToken (by decide) (obeys_plain rfl plain_identifier)

/-- A member access: the name behind the point may be any name. -/
theorem obeys_memberAccess : Obeys hostForm n .memberAccess (hostForm .memberAccess)
    (Passes b (At F Settled) (At F Settled)) := by
  refine obeys_plainNode (by decide) (by decide) (obeys_seq ?_)
  refine passes_cons obeys_blank (passes_cons (Q := AfterPoint F Settled) ?point
    (passes_cons (obeys_reference (obeys_gap fun _ _ => along_gap_afterPoint))
      (passes_cons ?name (passes_nil _))))
  case point =>
    refine obeys_punct nofun fun r c ds _ hr => ?_
    obtain ⟨r', h', ho, hm⟩ := along_point hr
    exact ⟨r', h', ho, Or.inl hm⟩
  case name =>
    refine obeys_leafToken (by decide)
      (obeys_token fun c k hk => passes_token nofun fun r hr htold => ?_)
    exact along_property hr (fun _ => nofun) hk ((htold (take_ne_nil_of_property? hk)).mpr rfl)

/-- The reader is inside of a block. -/
def InBlock (F : Frame) (b : Bool) (r : Reader) (cs : List Char) : Prop :=
  ∃ p, Opens F b p ∧ At (F.braced p) Settled r cs

/-- A block: the body of the pending declaration, or an ordinary one. -/
theorem obeys_block (hF : F.Sound)
    (ih : ∀ p, Opens F b p → Obeys hostForm n .block (.rule .item)
      (Passes b (At (F.braced p) Settled) (At (F.braced p) Settled))) :
    Obeys hostForm n .block (hostForm .block) (Passes b (At F (Opens F b)) (At F Settled)) := by
  refine obeys_plainNode (by decide) (by decide) (obeys_seq ?_)
  refine passes_cons (Q := InBlock F b) ?opening (passes_cons (Q := InBlock F b) ?items
    (passes_cons (Q := InBlock F b) ?gap (passes_cons ?closing (passes_nil _))))
  case opening =>
    refine obeys_punct nofun fun r c ds _ hr => ?_
    obtain ⟨p, r', hp, h', hr'⟩ := along_openBrace hr
    exact ⟨r', h', p, hp, (hr'.at ds).mono fun q hq => by rw [hq]; exact nofun⟩
  case items =>
    exact passes_exists fun p hp => obeys_many (Passes.closed b _) (ih p hp)
  case gap =>
    exact passes_exists fun p _ => obeys_blank
  case closing =>
    refine obeys_punct nofun fun r c ds _ hr => ?_
    obtain ⟨p, -, hr⟩ := hr
    obtain ⟨r', h', hr'⟩ := along_closeBrace hF hr
    exact ⟨r', h', hr'.at ds⟩

/-- The reader is in template text. -/
def InTemplate (F : Frame) (r : Reader) (_ : List Char) : Prop := Inside .template F Settled r

/-- A template. -/
theorem obeys_template
    (ih : Obeys hostForm n .template (.rule .interpolation)
      (Passes b (InTemplate F) (InTemplate F))) :
    Obeys hostForm n .template (hostForm .template)
      (Passes b (At F Settled) (At F Settled)) := by
  refine obeys_plainNode (by decide) (by decide) (obeys_seq ?_)
  refine passes_cons (Q := InTemplate F) ?opening
    (passes_cons (Q := InTemplate F) ?parts (passes_cons ?closing (passes_nil _)))
  case opening =>
    exact obeys_punct nofun fun r c ds _ hr => along_openTemplate hr
  case parts =>
    refine obeys_many (Passes.closed b _) (obeys_choice fun p hp => ?_)
    simp only [List.mem_cons, List.not_mem_nil, or_false] at hp
    rcases hp with rfl | rfl
    · refine obeys_leafToken (by decide) (obeys_token fun c k hk => passes_token nofun fun r hr _ => ?_)
      have hlen : chunkLength c.rest = k := by
        unfold chunk? at hk
        dsimp only at hk
        split_ifs at hk
        exact Option.some.inj hk
      rw [← hlen]
      exact along_chunk hr c.rest
    · exact ih
  case closing =>
    refine obeys_punct nofun fun r c ds _ hr => ?_
    obtain ⟨r', h', hr'⟩ := along_closeTemplate hr ds
    exact ⟨r', h', hr'.at ds⟩

/-- An interpolation. -/
theorem obeys_interpolation (hF : F.Sound)
    (ih : Obeys hostForm n .interpolation (.rule .expression)
      (Passes b (At F.interpolated Settled) (At F.interpolated Settled))) :
    Obeys hostForm n .interpolation (hostForm .interpolation)
      (Passes b (InTemplate F) (InTemplate F)) := by
  refine obeys_plainNode (by decide) (by decide) (obeys_seq ?_)
  refine passes_cons (Q := At F.interpolated Settled) ?opening
    (passes_cons obeys_blank (passes_cons ih (passes_cons obeys_blank
      (passes_cons ?closing (passes_nil _)))))
  case opening =>
    refine obeys_punct nofun fun r c ds _ hr => ?_
    obtain ⟨r', h', hr'⟩ := along_openInterpolation hr ds
    exact ⟨r', h', hr'.at ds⟩
  case closing =>
    exact obeys_punct nofun fun r c ds _ hr => along_closeInterpolation hF hr

end LedSketch.Grammar
