import LedSketch.Proofs.Dialect.Heralds
import LedSketch.Proofs.Grammar.Shapes
import LedSketch.Proofs.Grammar.Sources
import LedSketch.Proofs.Syntax.Climbing

/-!
# The async functions of a source

Where the parser takes the declaration of an async function among the statements of a source, a
reader of the source meets the word `async`. And if an announcement stands there, the function has
the name that is announced.

* `Tree.AsyncNamed`: the declaration of an async function, with its name.
* `obeys_spelled`: such a declaration is spelled as it is announced.
* `names_of_parse`: if every `async` that is met is announced, then so is every async function.
-/

namespace LedSketch

/-- **The declaration of an async function** of the name `v`. -/
def Tree.AsyncNamed (t : Tree) (v : String) : Prop :=
  ∃ m a b ts, t = .node m (a :: b :: ts) ∧ m.tag = "function-decl" ∧ a.tag = .ok "async" ∧
    b.text = .ok v

theorem Tree.AsyncNamed.isDeclaration {t : Tree} {v : String} (h : t.AsyncNamed v) :
    t.isDeclaration = true := by
  obtain ⟨m, a, b, ts, rfl, hm, -, -⟩ := h
  simp [Tree.isDeclaration, hm]

namespace Grammar

open Text Scan Scanner Dialect

variable {n : Nat} {w : Rule} {c d : Cursor} {ts : List Tree} {rs : List (Reading Rule)}
  {F : Frame} {r : Reader} {cs ds v es fs : List Char} {N : List String}

/-! ## Names behind blanks -/

theorem solid_name (hv : isName v = true) (cs : List Char) : Solid (v ++ cs) := by
  cases v with
  | nil => cases hv
  | cons c v =>
    have hc := (isName_cons.mp hv).1
    refine solid_cons ?_ ?_ _
    · by_contra hwhite
      rw [isNameStart_of_isSpace (isSpace_of_isWhiteSpace (by simpa using hwhite))] at hc
      cases hc
    · rintro rfl
      revert hc
      decide

/-- **A name behind blanks**, which the grammar finds behind the blanks that it skips. -/
theorem eq_of_behindGap {blank : List Char} (hb : ∀ c ∈ blank, isSpace c = true)
    (hv : isName v = true) (hes : StopsRun isNameChar es) {u : List Char} (hu : isName u = true)
    (hfs : StopsRun isNameChar fs) (h : behindGap (blank ++ (v ++ es)) = u ++ fs) : v = u := by
  induction blank with
  | nil =>
    rw [List.nil_append, solid_name hv] at h
    rw [← takeWhile_name hv hes, h, takeWhile_name hu hfs]
  | cons c blank ih =>
    have hc := hb c List.mem_cons_self
    rw [List.cons_append] at h
    cases hwhite : isWhiteSpace c with
    | true =>
      rw [behindGap_blank hwhite] at h
      exact ih (fun d hd => hb d (List.mem_cons_of_mem c hd)) h
    | false =>
      -- a blank that the grammar does not skip starts no name
      have hslash : c ≠ '/' := by
        rintro rfl
        revert hc
        decide
      rw [solid_cons hwhite hslash] at h
      cases u with
      | nil => cases hu
      | cons d u =>
        have hd := (isName_cons.mp hu).1
        rw [← (List.cons.inj h).1, isNameStart_of_isSpace hc] at hd
        cases hd

/-! ## The parts of a declaration -/

/-- The passage over blanks. -/
def OverBlanks : Passage Rule := fun c ts _ d => ts = [] ∧ d.rest = behindGap c.rest

theorem obeys_overBlanks : Obeys hostForm n w blank OverBlanks := by
  refine obeys_reference fun _ => obeys_drop (A := fun c _ _ d => d.rest = behindGap c.rest)
    (obeys_token fun c k hk => ?_) fun _ _ _ _ h => ⟨rfl, h⟩
  obtain rfl : gapLength c.rest = k := Option.some.inj hk
  exact rest_advance _ c

/-- The passage over a word of its own. -/
def Spells (v : List Char) (c d : Cursor) : Prop :=
  c.rest = v ++ d.rest ∧ StopsRun isNameChar d.rest

theorem obeys_spellsWord (s : String) :
    Obeys hostForm n w (.token (.word s)) (fun c _ _ d => Spells s.toList c d) := by
  refine obeys_token fun c k hk => ?_
  obtain ⟨hlit, hstop⟩ := word_eq_some hk
  obtain ⟨hcs, -⟩ := literal_eq_some hlit
  rw [Spells, rest_advance]
  exact ⟨hcs, hstop⟩

theorem obeys_spellsName : Obeys hostForm n w (.rule .identifier) (fun c ts _ d =>
    ∃ m v, ts = [.leaf m] ∧ m.tag = "name" ∧ m.text = some (String.ofList v) ∧
      isName v = true ∧ Spells v c d) := by
  refine obeys_reference fun _ => obeys_leaf (A := fun c _ _ d =>
    ∃ v, c.upTo d = String.ofList v ∧ isName v = true ∧ Spells v c d)
    (obeys_token fun c k hk => ?_) ?_
  · unfold identifier? at hk
    split at hk
    · rename_i j hj
      split_ifs at hk
      cases hk
      obtain ⟨hv, hstop, -⟩ := property?_eq_some hj
      refine ⟨_, upTo_advance c k, hv, ?_, ?_⟩
      · rw [rest_advance, List.take_append_drop]
      · rw [rest_advance]
        exact hstop
    · cases hk
  · rintro c ts rs d ⟨v, htext, hv⟩
    exact ⟨_, v, rfl, rfl, congrArg some htext, hv⟩

/-- The passage over what comes behind `async`: the word `function` and the name. -/
def Signed : Passage Rule := fun c ts _ _ =>
  ∃ m us v ds fs, ts = .leaf m :: us ∧ m.tag = "name" ∧ m.text = some (String.ofList v) ∧
    behindGap c.rest = "function".toList ++ ds ∧ behindGap ds = v ++ fs ∧ isName v = true ∧
    StopsRun isNameChar fs

theorem obeys_signed : ObeysSeq hostForm n w functionParts Signed := by
  have function : Obeys hostForm n w (keyword "function")
      (fun c ts _ d => ts = [] ∧ Spells "function".toList c d) :=
    obeys_drop (obeys_spellsWord "function") fun _ _ _ _ h => ⟨rfl, h⟩
  have others : ∀ ps, ObeysSeq hostForm n w ps (fun _ _ _ _ => True) := fun _ _ _ _ _ _ _ => trivial
  refine (ObeysSeq.cons obeys_overBlanks (ObeysSeq.cons function (ObeysSeq.cons obeys_overBlanks
    (ObeysSeq.cons obeys_spellsName (others _))))).weaken ?_
  rintro c ts rs d ⟨c₁, _, _, _, _, ⟨rfl, h₁⟩, ⟨c₂, _, _, _, _, ⟨rfl, h₂⟩,
    ⟨c₃, _, _, _, _, ⟨rfl, h₃⟩, ⟨c₄, _, us, _, _, ⟨m, v, rfl, hm, htext, hv, h₄⟩, -, rfl, -⟩,
      rfl, -⟩, rfl, -⟩, rfl, -⟩
  exact ⟨m, us, v, c₂.rest, c₄.rest, rfl, hm, htext, h₁.symm.trans h₂.1, h₃.symm.trans h₄.1, hv,
    h₄.2⟩

/-- **How the declarations of async functions are spelled**: with the word `async`, and with the name
that is announced if one is. -/
def Spelled : Passage Rule := fun c ts _ _ => ∀ t ∈ ts, ∀ v, t.AsyncNamed v →
  (∃ ds, c.rest = "async".toList ++ ds ∧ StopsRun isNameChar ds) ∧
    ∀ N, Announces N c.rest → v ∈ N

/-- An announced name is the one that is taken. -/
theorem mem_of_announces (h : Announces N ("async".toList ++ cs))
    (hcs : behindGap cs = "function".toList ++ ds) (hds : behindGap ds = v ++ fs)
    (hv : isName v = true) (hfs : StopsRun isNameChar fs) : String.ofList v ∈ N := by
  obtain ⟨blank, name, es, heq, hblank, hname, hes, hmem⟩ := h
  have hsplit : "async function".toList = "async".toList ++ ' ' :: "function".toList := by decide
  rw [hsplit, List.append_assoc] at heq
  obtain rfl := List.append_cancel_left heq
  rw [List.cons_append, behindGap_space (solid_name (by decide) _)] at hcs
  obtain rfl := List.append_cancel_left hcs
  rwa [← eq_of_behindGap hblank hname hes hv hfs hds]

theorem obeys_spelledFunction :
    Obeys hostForm n .functionDecl (hostForm .functionDecl) Spelled := by
  have mark : Obeys hostForm n .functionDecl (.optional (.leaf "async" (.token (.word "async"))))
      (fun c ts _ d => ts = [] ∨ ∃ m, ts = [.leaf m] ∧ Spells "async".toList c d) :=
    obeys_optional (fun _ => Or.inl rfl)
      (obeys_leaf (obeys_spellsWord "async") fun _ _ _ _ h => Or.inr ⟨_, rfl, h⟩)
  refine obeys_node (obeys_seq (ObeysSeq.cons mark obeys_signed)) ?_
  rintro c ts rs d ⟨e, ts₁, ts₂, -, -, hmark, ⟨m, us, v, ds, fs, rfl, hm, htext, h₁, h₂, hv, hfs⟩,
    rfl, -⟩ t ht name ⟨m', a, b, rest, heq, -, hasync, hname⟩
  obtain rfl := List.mem_singleton.mp ht
  obtain ⟨-, hchildren⟩ := Tree.node.inj heq
  rcases hmark with rfl | ⟨m₁, rfl, hspells⟩
  · -- without the mark the first child is the name
    obtain ⟨rfl, -⟩ := List.cons.inj hchildren
    simp [Tree.tag, hm] at hasync
  · obtain ⟨-, hchildren⟩ := List.cons.inj hchildren
    obtain ⟨rfl, -⟩ := List.cons.inj hchildren
    obtain rfl : String.ofList v = name := by simpa [Tree.text, htext] using hname
    refine ⟨⟨e.rest, hspells⟩, fun N hN => ?_⟩
    rw [hspells.1] at hN
    exact mem_of_announces hN h₁ h₂ hv hfs

/-- What yields no declarations spells none. -/
theorem Declarationless.spelled (h : Declarationless c ts rs d) : Spelled c ts rs d := by
  intro t ht v hv
  have := hv.isDeclaration
  rw [h t ht] at this
  cases this

/-- **Statements spell their declarations.** -/
theorem obeys_spelled (n : Nat) (w : Rule) : Obeys hostForm n w (.rule .statement) Spelled := by
  have others {n : Nat} {p : Peg Rule} (hp : Undeclared p = true) :
      Obeys hostForm n .statement p Spelled :=
    (obeys_undeclared (fun name => undeclared n .statement name) p hp).weaken
      fun _ _ _ _ h => h.spelled
  refine obeys_reference fun n => obeys_choice fun p hp => ?_
  by_cases hfunction : p = .rule .functionDecl
  · subst hfunction
    exact obeys_reference fun _ => obeys_spelledFunction
  · simp only [List.mem_cons, List.not_mem_nil, or_false] at hp
    rcases hp with rfl | rfl | rfl | rfl | rfl | rfl | rfl | rfl | rfl | rfl | rfl | rfl
    all_goals first
      | exact absurd rfl hfunction
      | exact others rfl

/-! ## The reader in front of a declaration -/

/-- The passage over statements: the reader goes along, and in front of every declaration of an async
function that is among them it meets `async`. -/
def Meeting (F : Frame) : Passage Rule := fun c ts rs d =>
  ∀ r, At F Settled r c.rest → (∀ x ∈ rs, x.Told r ∧ x.Proper) →
    (∃ ks r', Along r c.rest ks r' d.rest ∧ At F Settled r' d.rest) ∧
    ∀ t ∈ ts, ∀ v, t.AsyncNamed v → ∃ ks r' ds, Along r c.rest ks r' ds ∧
      r'.Meets ds "async".toList ∧ ∀ N, Announces N ds → v ∈ N

theorem Meeting.of_passes {b : Bool} (h : Passes b (At F Settled) (At F Settled) c ts rs d)
    (hs : Spelled c ts rs d) : Meeting F c ts rs d := by
  intro r hr hreadings
  refine ⟨?_, fun t ht v hv => ?_⟩
  · rcases h r hr fun x hx => (hreadings x hx).1 with ⟨r', ha, hr', -⟩ | hstray
    · exact ⟨_, r', ha, hr'⟩
    · obtain ⟨us, x, vs, r', ks, rfl, hx, -⟩ := hstray
      exact absurd (hreadings x (by simp)).2 hx
  · obtain ⟨⟨ds, hds, hstop⟩, hN⟩ := hs t ht v hv
    refine ⟨[], r, c.rest, .refl r _, ?_, hN⟩
    rw [hds] at hr ⊢
    refine ⟨hr.code, by decide, ds, rfl, hstop, ?_⟩
    rintro x ⟨⟩
    exact not_goesOn_of_isNameStart hr.between (by decide)

theorem Meeting.closed (F : Frame) : (Meeting F).Closed where
  nil c r hr _ := ⟨⟨[], r, .refl r _, hr⟩, by simp⟩
  append := by
    intro c ts rs d us ss e h h' r hr hreadings
    obtain ⟨⟨ks, r₁, ha, hr₁⟩, hts⟩ := h r hr fun x hx => hreadings x (List.mem_append_left _ hx)
    have hreadings' : ∀ x ∈ ss, x.Told r₁ ∧ x.Proper := by
      intro x hx
      obtain ⟨htold, hproper⟩ := hreadings x (List.mem_append_right _ hx)
      refine ⟨?_, hproper⟩
      rwa [Reading.Told, ha.members]
    obtain ⟨⟨ls, r₂, ha', hr₂⟩, hus⟩ := h' r₁ hr₁ hreadings'
    refine ⟨⟨_, r₂, ha.trans ha', hr₂⟩, fun t ht v hv => ?_⟩
    rcases List.mem_append.mp ht with ht | ht
    · exact hts t ht v hv
    · obtain ⟨ms, r', ds, hb, hmeets, hN⟩ := hus t ht v hv
      exact ⟨_, r', ds, ha.trans hb, hmeets, hN⟩

/-- What holds of blanks and of statements holds of what is in a program. -/
theorem obeys_program {A : Passage Rule} (hA : A.Closed)
    (blanks : ∀ n w, Obeys hostForm n w blank A)
    (statements : ∀ n w, Obeys hostForm n w (.rule .statement) A) (n : Nat) (w : Rule) :
    Obeys hostForm n w (.rule .program)
      (fun c ts rs d => ∃ m us, ts = [.node m us] ∧ m.tag = "program" ∧ A c us rs d) := by
  have item (n : Nat) (w : Rule) : Obeys hostForm n w (.rule .item) A := by
    refine obeys_reference fun n => obeys_seq (ObeysSeq.of_closed hA ?_)
    exact List.forall_mem_cons.mpr
      ⟨blanks n .item, List.forall_mem_cons.mpr ⟨statements n .item, by simp⟩⟩
  refine obeys_reference fun n => obeys_node (obeys_seq (ObeysSeq.of_closed hA ?_))
    fun c ts rs d h => ⟨_, ts, rfl, rfl, h⟩
  exact List.forall_mem_cons.mpr
    ⟨obeys_many hA (item n .program), List.forall_mem_cons.mpr ⟨blanks n .program, by simp⟩⟩

theorem meeting_blank (n : Nat) (w : Rule) : Obeys hostForm n w blank (Meeting F) :=
  ((obeys_blank (b := false)).and obeys_overBlanks).weaken fun _ _ _ _ ⟨hp, hs⟩ =>
    Meeting.of_passes hp (by rw [hs.1]; nofun)

/-- **Statements** that are in no function. -/
theorem meeting_statement (n : Nat) (w : Rule) :
    Obeys hostForm n w (.rule .statement) (Meeting .empty) :=
  ((walk n .empty false w .statement nofun Frame.sound_empty fun _ => nofun).and
    (obeys_spelled n w)).weaken fun _ _ _ _ ⟨hp, hs⟩ => Meeting.of_passes hp hs

/-- **Every async function of a source is announced**, if every `async` that is met is. -/
theorem names_of_parse {source : String} {t : Tree} (h : parse source = .ok t)
    (hproper : ∀ x ∈ lexemes source.toList, x.Proper)
    (hN : (readerOf source.toList).Heralds N source.toList) :
    ∃ m ts, t = .node m ts ∧ m.tag = "program" ∧ ∀ u ∈ ts, ∀ v, u.AsyncNamed v → v ∈ N := by
  obtain ⟨d, hrun, -⟩ := parse_eq_ok h
  have htiled := tiles _ .program .program _ le_rfl _ _ _ hrun
  obtain ⟨m, ts, ht, hm, hmeeting⟩ :=
    obeys_program (Meeting.closed _) meeting_blank meeting_statement _ .program _ le_rfl _ _ _ hrun
  obtain ⟨rfl, -⟩ := List.cons.inj ht
  refine ⟨m, ts, rfl, hm, fun u hu v hv => ?_⟩
  obtain ⟨-, hmeets⟩ := hmeeting (readerOf source.toList) (at_start _ _)
    fun x hx => ⟨htiled.told rfl x hx, hproper x hx⟩
  obtain ⟨ks, r', ds, ha, hmeet, hname⟩ := hmeets u hu v hv
  exact hname N (hN ks r' ds ha hmeet)

end Grammar
end LedSketch
