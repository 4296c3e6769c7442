import LedSketch.Proofs.Grammar.Passes

/-!
# The reader goes along with the parser

The two rules that decide where an `await` may stand, and the walk through the whole grammar.

* `obeys_unary`: an `await` that the reader heeds stands where the body suspends.
* `obeys_functionDecl`: the body of a function suspends only if its declaration is async.
* `walk`: every rule of the grammar passes.
-/

namespace LedSketch.Grammar

open Text Scan Scanner Dialect

variable {b : Bool} {P Q R : Reader → List Char → Prop} {c d e : Cursor} {ts us : List Tree}
  {rs ss : List (Reading Rule)} {F : Frame} {ok : Option Bool → Prop} {n : Nat} {w : Rule}
  {r : Reader} {cs ds : List Char}

/-! ## Unary operators -/

theorem offset_advance (k : Nat) (c : Cursor) (h : k ≤ c.rest.length) :
    (c.advance k).offset = c.offset + k := by
  induction k generalizing c with
  | zero => rfl
  | succ k ih =>
    obtain ⟨rest, offset, line, col⟩ := c
    cases rest with
    | nil => cases h
    | cons x xs =>
      have hle : k ≤ xs.length := Nat.le_of_succ_le_succ h
      rw [Cursor.advance]
      split
      · rw [ih _ hle]
        dsimp only
        omega
      · rw [ih _ hle]
        dsimp only
        omega

/-- The operator `await` is a word of its own. -/
theorem unaryOperator_await {k : Nat} (hk : unaryOperator cs = some k) :
    k ≤ cs.length ∧ (String.ofList (cs.take k) = "await" →
      cs = "await".toList ++ cs.drop k ∧ StopsRun isNameChar (cs.drop k)) := by
  have mark {s : String} (hs : s ≠ "await") (h : Lexeme.literal s cs = some k) :
      k ≤ cs.length ∧ (String.ofList (cs.take k) = "await" →
        cs = "await".toList ++ cs.drop k ∧ StopsRun isNameChar (cs.drop k)) := by
    obtain ⟨hcs, rfl⟩ := literal_eq_some h
    generalize cs.drop s.toList.length = ds at hcs
    subst hcs
    refine ⟨by simp, fun he => absurd ?_ hs⟩
    rw [List.take_left] at he
    simpa using he
  obtain ⟨m, hm, hmk⟩ := List.exists_of_findSome?_eq_some hk
  simp only [List.mem_cons, List.not_mem_nil, or_false] at hm
  rcases hm with rfl | rfl | rfl | rfl | rfl | rfl | rfl | rfl
  · exact mark (by decide) hmk
  · exact mark (by decide) hmk
  · exact mark (by decide) hmk
  · exact mark (by decide) hmk
  · exact mark (by decide) hmk
  · exact mark (by decide) hmk
  · exact mark (by decide) (word_eq_some hmk).1
  · obtain ⟨hlit, hstop⟩ := word_eq_some hmk
    obtain ⟨hcs, rfl⟩ := literal_eq_some hlit
    refine ⟨?_, fun _ => ⟨hcs, hstop⟩⟩
    rw [hcs]
    simp

/-- The passage of an operator: if it is an `await` that the reader heeds, then the body suspends. -/
def Operates (F : Frame) (b : Bool) : Passage Rule := fun c ts rs d =>
  Passes b (At F Settled) (At F Settled) c ts rs d ∧
    ∀ us r, At F Settled r c.rest → r.Heeds c.rest → Tree.awaitFirst (ts ++ us) = true → b = true

theorem obeys_unaryOperator (hb : F.suspendable = true → b = true) :
    Obeys hostForm n .unary (op unaryOperator) (Operates F b) := by
  have hplain : Obeys hostForm n .unary (.token unaryOperator)
      (fun c ts rs d => Passes b (At F Settled) (At F Settled) c ts rs d ∧
        ∃ k, unaryOperator c.rest = some k ∧ d = c.advance k) := by
    refine obeys_token fun c k hk => ⟨?_, k, hk, rfl⟩
    refine passes_token nofun fun r hr _ => ?_
    exact plain_unaryOperator F c.rest k hk r hr
  refine obeys_leaf hplain ?_
  rintro c ts rs d ⟨hp, k, hk, rfl⟩
  refine ⟨hp.build fun _ t ht => ?_, fun us r hr hh ha => hb ?_⟩
  · obtain rfl := List.mem_singleton.mp ht
    exact Tree.legal_leaf (by simp [Cursor.mark])
  · obtain ⟨hle, hawait⟩ := unaryOperator_await hk
    have htext : String.ofList (c.rest.take k) = "await" := by
      simpa [Tree.awaitFirst, Tree.text, Cursor.mark, Cursor.upTo, offset_advance k c hle] using ha
    obtain ⟨hcs, hstop⟩ := hawait htext
    rw [← hr.toOpen.suspendable]
    refine hh [] r c.rest (.refl r _) ⟨?_, by decide, _, hcs, hstop, ?_⟩
    · rw [hcs] at hr
      exact hr.code
    · intro x hx
      rw [hcs] at hx hr
      cases hx
      exact not_goesOn_of_isNameStart hr.between (by decide)

/-- **A unary expression**, which may be an `await`. -/
theorem obeys_unary (hb : F.suspendable = true → b = true)
    (ih : ∀ name, isPart name = true →
      Obeys hostForm n .unary (.rule name) (Passes b (At F Settled) (At F Settled))) :
    Obeys hostForm n .unary (hostForm .unary) (Passes b (At F Settled) (At F Settled)) := by
  refine obeys_choice fun p hp => ?_
  simp only [List.mem_cons, List.not_mem_nil, or_false] at hp
  rcases hp with rfl | rfl
  · have hrest : ObeysSeq hostForm n .unary [blank, .rule .unary]
        (Passes b (At F Settled) (At F Settled)) :=
      passes_cons obeys_blank (passes_cons (ih .unary rfl) (passes_nil _))
    refine obeys_node (obeys_seq (ObeysSeq.cons (obeys_unaryOperator hb) hrest)) ?_
    rintro c ts rs d ⟨e, ts₁, ts₂, rs₁, rs₂, ⟨h₁, hawait⟩, h₂, rfl, rfl⟩
    refine (h₁.append h₂).rebuild fun r hr hh hl t ht => ?_
    obtain rfl := List.mem_singleton.mp ht
    exact Tree.legal_unary rfl (hawait ts₂ r hr hh) hl
  · exact ih .postfixed rfl

/-! ## Function declarations -/

/-- The reader is in front of the word `function`; if it is behind `async`, then `a` holds. -/
structure Heading (F : Frame) (a : Bool) (r : Reader) (cs : List Char) : Prop where
  depth : r.scanner.nesting.depth = F.depth
  bodies : r.scanner.nesting.bodies = F.bodies
  interpolations : r.scanner.interpolations = F.interpolations
  lead : r.lead = .async → a = true
  between : Between r cs

theorem At.heading (h : At F ok r cs) (a : Bool) : Heading F a r cs :=
  ⟨h.depth, h.bodies, h.interpolations, fun hl => absurd hl h.lead, h.between⟩

/-- The children of a function declaration begin with a leaf, which is the mark of an async one as
`a` says. -/
def Marked (a : Bool) (ts : List Tree) : Prop :=
  Tree.asyncFirst ts = a ∧ ∀ t ∈ ts.head?, t.isLeaf = true

/-- The word `async` in front of a function. -/
theorem obeys_async : Obeys hostForm n .functionDecl (.leaf "async" (.token (.word "async")))
    (fun c ts rs d => (∀ us, Marked true (ts ++ us)) ∧
      Passes b (At F Settled) (Heading F true) c ts rs d) := by
  have hword : Obeys hostForm n .functionDecl (.token (.word "async"))
      (Passes b (At F Settled) (Heading F true)) := by
    refine obeys_token fun c k hk => passes_token nofun fun r hr htold => ?_
    obtain ⟨hlit, hstop⟩ := word_eq_some hk
    obtain ⟨hcs, rfl⟩ := literal_eq_some hlit
    have htext : c.rest.take "async".toList.length ≠ [] := by
      rw [hcs, List.take_left]
      decide
    have hmember : r.members c.rest.length = false := by
      simpa using htold htext
    rw [hcs] at hr
    have hg : ∀ x ∈ "async".toList.head?, ¬ r.GoesOn x := by
      rintro x ⟨⟩
      exact not_goesOn_of_isNameStart hr.between (by decide)
    have hstep := step_word hr.code (by decide) hg hstop
    rw [← hcs] at hstep
    refine ⟨_, hstep, ?_⟩
    have heq : String.ofList "async".toList = "async" := by simp
    unfold Reader.word
    rw [heq, if_neg (by decide), if_pos rfl, hmember]
    exact ⟨hr.depth, hr.bodies, hr.interpolations, fun _ => rfl, Or.inl hr.code, nofun⟩
  refine obeys_leaf hword fun c ts rs d hp => ⟨fun us => ⟨rfl, ?_⟩, hp.build fun _ t ht => ?_⟩
  · rintro t ⟨⟩
    rfl
  · obtain rfl := List.mem_singleton.mp ht
    exact Tree.legal_leaf (by simp [Cursor.mark])

theorem Heading.gap {a : Bool} (r : Reader) (cs : List Char) (h : Heading F a r cs) :
    ∃ r', Along r cs (gapKinds cs) r' (cs.drop (gapKinds cs).length) ∧
      Heading F a r' (cs.drop (gapKinds cs).length) := by
  obtain ⟨r', h', hs', hb'⟩ := along_gap h.between
  refine ⟨r', h', ?_, ?_, ?_, ?_, hb'⟩
  · rw [hs'.nesting, h.depth]
  · rw [hs'.nesting, h.bodies]
  · rw [hs'.interpolations, h.interpolations]
  · rw [hs'.lead]
    exact h.lead

/-- **The word `function`** declares a body that suspends only behind `async`. -/
theorem obeys_function {a : Bool} : Obeys hostForm n .functionDecl (keyword "function")
    (Passes b (Heading F a) (At F (Opens F a))) := by
  refine obeys_silent nofun fun c k hk r hr _ => ?_
  obtain ⟨hlit, hstop⟩ := word_eq_some hk
  obtain ⟨hcs, rfl⟩ := literal_eq_some hlit
  have hb := hr.between
  rw [hcs] at hb
  have hg : ∀ x ∈ "function".toList.head?, ¬ r.GoesOn x := by
    rintro x ⟨⟩
    exact not_goesOn_of_isNameStart hb (by decide)
  have hstep := step_word hb.code (by decide) hg hstop
  rw [← hcs] at hstep
  refine ⟨_, hstep, ?_⟩
  have heq : String.ofList "function".toList = "function" := by simp
  unfold Reader.word
  rw [heq, if_pos rfl]
  refine ⟨⟨hr.depth, hr.bodies, hr.interpolations, ?_, nofun⟩, Or.inl hb.code, nofun⟩
  intro hs
  exact hr.lead (by simpa [Frame.suspendable, Frame.braced, Nesting.declare] using hs)

theorem obeys_name :
    Obeys hostForm n w (.rule .identifier) (Passes b (At F ok) (At F ok)) :=
  obeys_reference fun _ => obeys_identifier

theorem obeys_plainPunct {s : String} (hw : isCode w = true) (hs : marks s.toList = true) :
    Obeys hostForm n w (punct s) (Passes b (At F ok) (At F ok)) :=
  obeys_drop (A := Passes b (At F ok) (At F ok)) (obeys_plain hw (plain_literal hs))
    fun _ _ _ _ hp => hp.build (by simp)

/-- What comes behind `async`, or stands alone. -/
def functionParts : List (Peg Rule) :=
  [blank, keyword "function", blank, .rule .identifier, blank, punct "(", blank,
    .optional (.seq [.rule .identifier, moreBehindCommas (.rule .identifier)]), blank, punct ")",
    blank, .rule .block]

theorem obeys_functionParts
    (ih : ∀ a, Obeys hostForm n .functionDecl (.rule .block)
      (Passes a (At F (Opens F a)) (At F Settled))) (a : Bool) :
    ObeysSeq hostForm n .functionDecl functionParts (Passes a (Heading F a) (At F Settled)) := by
  have more : Obeys hostForm n .functionDecl (moreBehindCommas (.rule .identifier))
      (Passes a (At F (Opens F a)) (At F (Opens F a))) :=
    obeys_many (Passes.closed a _) (obeys_seq (passes_cons obeys_blank
      (passes_cons (obeys_plainPunct rfl (by decide)) (passes_cons obeys_blank
        (passes_cons obeys_name (passes_nil _))))))
  have params := obeys_optional (Passes.nil a _)
    (obeys_seq (passes_cons obeys_name (passes_cons more (passes_nil _))))
  exact passes_cons (obeys_reference (obeys_gap Heading.gap)) (passes_cons obeys_function
    (passes_cons obeys_blank (passes_cons obeys_name
      (passes_cons obeys_blank (passes_cons (obeys_plainPunct rfl (by decide))
        (passes_cons obeys_blank (passes_cons params
          (passes_cons obeys_blank (passes_cons (obeys_plainPunct rfl (by decide))
            (passes_cons obeys_blank (passes_cons (ih a) (passes_nil _))))))))))))

/-- Whatever the parts behind `async` build, it does not begin with the mark of an async function. -/
theorem obeys_unmarked :
    ObeysSeq hostForm n w functionParts (fun _ ts _ _ => Marked false ts) := by
  have silent {m : Lexeme} {n : Nat} {w : Rule} :
      Obeys hostForm n w (Grammar.silent m) (fun _ ts _ _ => ts = []) :=
    obeys_drop (.true w _) fun _ _ _ _ _ => rfl
  have gap : Obeys hostForm n w blank (fun _ ts _ _ => ts = []) := obeys_reference fun _ => silent
  have name : Obeys hostForm n w (.rule .identifier) (fun _ ts _ _ => ∀ us, Marked false (ts ++ us)) := by
    refine obeys_reference fun _ => obeys_leaf (.true _ _) fun _ _ _ _ _ us => ⟨rfl, ?_⟩
    rintro t ⟨⟩
    rfl
  have others : ∀ ps, ObeysSeq hostForm n w ps (fun _ _ _ _ => True) := fun _ _ _ _ _ _ _ => trivial
  refine (ObeysSeq.cons gap (ObeysSeq.cons silent (ObeysSeq.cons gap
    (ObeysSeq.cons name (others _))))).weaken ?_
  rintro c ts rs d ⟨_, _, _, _, _, rfl, ⟨_, _, _, _, _, rfl, ⟨_, _, _, _, _, rfl,
    ⟨_, _, us, _, _, h, -, rfl, -⟩, rfl, -⟩, rfl, -⟩, rfl, -⟩
  exact h us

/-- The passage of the mark of an async function, if there is one. -/
def Begins (F : Frame) : Passage Rule := fun c ts rs d =>
  ∃ a, (∀ us, Marked false us → Marked a (ts ++ us)) ∧
    Passes a (At F Settled) (Heading F a) c ts rs d

/-- **A function declaration**: its body suspends if it is async. -/
theorem obeys_functionDecl
    (ih : ∀ a, Obeys hostForm n .functionDecl (.rule .block)
      (Passes a (At F (Opens F a)) (At F Settled))) :
    Obeys hostForm n .functionDecl (hostForm .functionDecl)
      (Passes b (At F Settled) (At F Settled)) := by
  have mark : Obeys hostForm n .functionDecl
      (.optional (.leaf "async" (.token (.word "async")))) (Begins F) := by
    refine obeys_optional (fun c => ?_) ((obeys_async (b := true) (F := F)).weaken fun c ts rs d h => ?_)
    · exact ⟨false, fun us h => h,
        (Passes.nil false _ c).mono (fun _ _ h => h) fun _ _ h => h.heading false⟩
    · exact ⟨true, fun us _ => h.1 us, h.2⟩
  have parts : ObeysSeq hostForm n .functionDecl functionParts (fun c ts rs d =>
      (∀ a, Passes a (Heading F a) (At F Settled) c ts rs d) ∧ Marked false ts) :=
    fun m hm c ts d hrun => ⟨fun a => obeys_functionParts ih a m hm c ts d hrun,
      obeys_unmarked (w := .functionDecl) m hm c ts d hrun⟩
  refine obeys_node (obeys_seq (ObeysSeq.cons mark parts)) ?_
  rintro c ts rs d ⟨e, ts₁, ts₂, rs₁, rs₂, ⟨a, hmark, h₁⟩, ⟨h₂, hnone⟩, rfl, rfl⟩
  refine (h₁.append (h₂ a)).build fun hl t ht => ?_
  obtain rfl := List.mem_singleton.mp ht
  obtain ⟨hasync, hleaf⟩ := hmark ts₂ hnone
  exact Tree.legal_function rfl hleaf (by rw [hasync]; exact hl)

/-! ## The walk -/

/-- What a rule of the grammar means for the reader. Only a block may follow a declaration whose body
is still to come. -/
def Walks (F : Frame) (b : Bool) : Rule → Passage Rule
  | .interpolation => Passes b (InTemplate F) (InTemplate F)
  | .block => Passes b (At F (Opens F b)) (At F Settled)
  | _ => Passes b (At F Settled) (At F Settled)

/-- Where the body may suspend as `b` says, a brace behind a settled declaration opens as `b` says. -/
theorem opens_of_settled (hb : F.suspendable = true → b = true) {p : Option Bool}
    (hp : Settled p) : Opens F b p := by
  intro hs
  cases p with
  | none => exact hb hs
  | some s =>
    obtain rfl : s = true := hs
    exact absurd rfl hp

theorem Walks.passes (hb : F.suspendable = true → b = true) {name : Rule}
    (hname : isPart name = true) (h : Walks F b name c ts rs d) :
    Passes b (At F Settled) (At F Settled) c ts rs d := by
  by_cases hblock : name = .block
  · subst hblock
    exact Passes.mono h (fun _ _ hr => hr.mono fun _ => opens_of_settled hb) fun _ _ hr => hr
  · cases name <;> first | exact absurd rfl hblock | exact h | cases hname

/-- **The reader goes along with every part of the grammar**, as long as every end of statement is
proper. -/
theorem walk (n : Nat) : ∀ (F : Frame) (b : Bool) (w name : Rule), name ≠ .program → F.Sound →
    (name ≠ .block → F.suspendable = true → b = true) →
    Obeys hostForm n w (.rule name) (Walks F b name) := by
  induction n with
  | zero => exact fun _ _ _ _ _ _ _ => Obeys.zero _ _ _
  | succ n ih =>
    intro F b w name hprogram hF hb
    have others (hb : F.suspendable = true → b = true) (w name : Rule)
        (hname : isPart name = true) :
        Obeys hostForm n w (.rule name) (Passes b (At F Settled) (At F Settled)) :=
      (ih F b w name (by rintro rfl; cases hname) hF fun _ => hb).weaken fun _ _ _ _ =>
        Walks.passes hb hname
    refine obeys_rule ?_
    by_cases hplain : isPlain name = true
    · have hcode : isCode name = true := by cases name <;> first | rfl | cases hplain
      have hblock : name ≠ .block := by rintro rfl; cases hplain
      have h := PlainPeg.obeys hcode (others (hb hblock) name) _
        ((lexemes_plain nofun).plainPeg hplain)
      cases name <;> first | exact h | cases hplain
    cases name with
    | blank => exact obeys_gap At.gap n
    | endOfStatement => exact obeys_end nofun n
    | block =>
      refine obeys_block hF fun p hp => ?_
      exact ih (F.braced p) b .block .item nofun (hF.braced p) fun _ => hp
    | functionDecl =>
      exact obeys_functionDecl fun a => ih F a .functionDecl .block nofun hF fun h => absurd rfl h
    | unary => exact obeys_unary (hb nofun) (others (hb nofun) .unary)
    | memberAccess => exact obeys_memberAccess
    | string => exact obeys_string
    | template => exact obeys_template (ih F b .template .interpolation nofun hF fun _ => hb nofun)
    | interpolation =>
      refine obeys_interpolation hF ?_
      exact ih F.interpolated b .interpolation .expression nofun hF.interpolated fun _ => hb nofun
    | program => exact absurd rfl hprogram
    | _ => exact absurd rfl hplain

/-- **The reader goes along with a whole program**, whose statements are not in an async function. -/
theorem walk_program (n : Nat) (F : Frame) (w : Rule) (hF : F.Sound)
    (hb : F.suspendable = true → b = true) :
    Obeys hostForm n w (.rule .program) (fun c ts rs d => ∃ m us, ts = [.node m us] ∧
      m.tag = "program" ∧ Passes b (At F Settled) (At F Settled) c us rs d) := by
  refine obeys_reference fun n => obeys_node (obeys_seq (passes_cons ?_ (passes_cons obeys_blank
    (passes_nil (At F Settled))))) fun c ts rs d hp => ⟨_, ts, rfl, rfl, hp⟩
  refine obeys_many (Passes.closed b _) ?_
  exact walk n F b .program .item nofun hF fun _ => hb

end LedSketch.Grammar
