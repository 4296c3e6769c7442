import LedSketch.Proofs.Grammar.Shapes

/-!
# What expressions build

`Builds R p ts` reads off an expression which trees it may build, if every rule builds trees as `R`
says. What is closed under the table of a grammar holds of every run.

* `Builds`: the trees of an expression, as a recursion on the expression.
* `builds_of_run`: if `R` is closed under the grammar, every run builds such trees.
* `Lexeme.Takes`: the texts that a lexeme takes.
-/

namespace LedSketch.Grammar

variable {ρ : Type}

/-- A lexeme takes this text from somewhere. -/
def Lexeme.Takes (m : Lexeme) (s : String) : Prop :=
  ∃ cs k, m cs = some k ∧ s = String.ofList (cs.take k)

/-- The text of a leaf of an expression: that of its lexeme, if it is one. -/
def Peg.Spells : Peg ρ → String → Prop
  | .token m, s => Lexeme.Takes m s
  | _, _ => True

mutual

/-- **The trees that an expression builds**, if each rule builds trees as `R` says. -/
def Builds (R : ρ → List Tree → Prop) : Peg ρ → List Tree → Prop
  | .token _, ts | .drop _, ts => ts = []
  | .seq ps, ts => BuildsSeq R ps ts
  | .choice ps, ts => BuildsAny R ps ts
  | .many p, ts => ∃ tss : List (List Tree), (∀ us ∈ tss, Builds R p us) ∧ ts = tss.flatten
  | .optional p, ts => ts = [] ∨ Builds R p ts
  | .rule name, ts => R name ts
  | .node tag p, ts => ∃ (c d : Cursor) (us : List Tree), Builds R p us ∧
    ts = [.node (c.mark d tag) us]
  | .leaf tag p, ts => ∃ c d : Cursor, p.Spells (c.upTo d) ∧ ts = [.leaf (c.mark d tag)]

/-- The trees of the parts of a sequence, one behind the other. -/
def BuildsSeq (R : ρ → List Tree → Prop) : List (Peg ρ) → List Tree → Prop
  | [], ts => ts = []
  | p :: ps, ts => ∃ us vs, Builds R p us ∧ BuildsSeq R ps vs ∧ ts = us ++ vs

/-- The trees of one of the alternatives. -/
def BuildsAny (R : ρ → List Tree → Prop) : List (Peg ρ) → List Tree → Prop
  | [], _ => False
  | p :: ps, ts => Builds R p ts ∨ BuildsAny R ps ts

end

variable {R : ρ → List Tree → Prop} {g : ρ → Peg ρ} {n : Nat} {w : ρ} {p : Peg ρ}
  {ps : List (Peg ρ)} {ts : List Tree}

theorem buildsAny_iff : BuildsAny R ps ts ↔ ∃ p ∈ ps, Builds R p ts := by
  induction ps with
  | nil => simp [BuildsAny]
  | cons p ps ih => simp [BuildsAny, ih]

/-- What holds of the trees of each turn of a repetition holds of all of them. -/
theorem Builds.many {P : Tree → Prop} (h : Builds R (.many p) ts)
    (hp : ∀ us, Builds R p us → ∀ t ∈ us, P t) : ∀ t ∈ ts, P t := by
  rw [Builds] at h
  obtain ⟨tss, hts, rfl⟩ := h
  intro t ht
  obtain ⟨us, hus, ht⟩ := List.mem_flatten.mp ht
  exact hp us (hts us hus) t ht

/-! ## Runs -/

theorem obeys_leafText {tag : String} {A : Passage ρ}
    (h : ∀ c d rs, p.Spells (c.upTo d) → A c [.leaf (c.mark d tag)] rs d) :
    Obeys g n w (.leaf tag p) A := by
  intro fuel hle c ts d hrun
  cases fuel with
  | zero => rw [run] at hrun; cases hrun
  | succ fuel =>
    rw [run] at hrun
    obtain ⟨us, hu, rfl⟩ := Outcome.build_eq_got hrun
    refine h c d _ ?_
    cases p with
    | token m =>
      cases fuel with
      | zero => rw [run] at hu; cases hu
      | succ fuel =>
        rw [run] at hu
        cases hm : m c.rest with
        | none => rw [hm] at hu; cases hu
        | some k =>
          rw [hm] at hu
          cases hu
          exact ⟨c.rest, k, hm, upTo_advance c k⟩
    | _ => trivial

/-- The runs of an expression build what it says, if those of the rules do. -/
theorem obeys_builds (hrule : ∀ w name, Obeys g n w (.rule name) fun _ ts _ _ => R name ts) :
    ∀ w p, Obeys g n w p fun _ ts _ _ => Builds R p ts
  | w, .token m => obeys_token fun _ _ _ => by rw [Builds]
  | w, .drop p => obeys_drop (.true w p) fun _ _ _ _ _ => by rw [Builds]
  | w, .seq ps => obeys_seq ((allSeq w ps).weaken fun _ _ _ _ h => by rwa [Builds])
  | w, .choice ps => obeys_choice fun p hp => (allAny w ps p hp).weaken fun _ ts _ _ h => by
    rw [Builds, buildsAny_iff]
    exact ⟨p, hp, h⟩
  | w, .many p => by
    refine obeys_many ⟨fun _ => ?_, ?_⟩ ((obeys_builds hrule w p).weaken fun _ ts _ _ h => ?_)
    · rw [Builds]
      exact ⟨[], by simp, rfl⟩
    · intro _ _ _ _ _ _ _ h h'
      rw [Builds] at h h' ⊢
      obtain ⟨tss, hts, rfl⟩ := h
      obtain ⟨uss, hus, rfl⟩ := h'
      exact ⟨tss ++ uss, fun us h => (List.mem_append.mp h).elim (hts us) (hus us), by simp⟩
    · rw [Builds]
      exact ⟨[ts], by simpa using h, by simp⟩
  | w, .optional p => by
    refine obeys_optional (fun _ => ?_) ((obeys_builds hrule w p).weaken fun _ ts _ _ h => ?_)
    · rw [Builds]
      exact Or.inl rfl
    · rw [Builds]
      exact Or.inr h
  | w, .rule name => (hrule w name).weaken fun _ _ _ _ h => by rwa [Builds]
  | w, .node tag p => obeys_node (obeys_builds hrule w p) fun c ts _ d h => by
    rw [Builds]
    exact ⟨c, d, ts, h, rfl⟩
  | w, .leaf tag p => obeys_leafText fun c d _ h => by
    rw [Builds]
    exact ⟨c, d, h, rfl⟩
where
  allSeq : ∀ w ps, ObeysSeq g n w ps fun _ ts _ _ => BuildsSeq R ps ts
  | w, [] => ObeysSeq.nil fun _ => by rw [BuildsSeq]
  | w, p :: ps => by
    refine (ObeysSeq.cons (obeys_builds hrule w p) (allSeq w ps)).weaken ?_
    rintro _ ts _ _ ⟨_, us, vs, _, _, hus, hvs, rfl, -⟩
    rw [BuildsSeq]
    exact ⟨us, vs, hus, hvs, rfl⟩
  allAny : ∀ w ps, ∀ p ∈ ps, Obeys g n w p fun _ ts _ _ => Builds R p ts
  | _, [] => by simp
  | w, p :: ps => by
    intro q hq
    rcases List.mem_cons.mp hq with hqp | hq
    · rw [hqp]
      exact obeys_builds hrule w p
    · exact allAny w ps q hq

/-- **What is closed under a grammar holds of all that its rules build.** -/
theorem builds_of_run (hR : ∀ name ts, Builds R (g name) ts → R name ts) (n : Nat) (w name : ρ) :
    Obeys g n w (.rule name) fun _ ts _ _ => R name ts := by
  induction n generalizing w name with
  | zero => exact Obeys.zero _ _ _
  | succ n ih => exact obeys_rule ((obeys_builds ih name (g name)).weaken fun _ ts _ _ => hR name ts)

/-! ## Lexemes -/

section Lexemes

variable {s r : String} {ms : List Lexeme} {m : Lexeme}

theorem takes_literal (h : (Lexeme.literal r).Takes s) : s = r := by
  obtain ⟨cs, k, hk, rfl⟩ := h
  obtain ⟨hcs, rfl⟩ := literal_eq_some hk
  rw [hcs, List.take_left, String.ofList_toList]

theorem takes_notBefore {stop : String} (h : (Lexeme.notBefore stop r).Takes s) : s = r := by
  obtain ⟨cs, k, hk, rfl⟩ := h
  exact takes_literal ⟨cs, k, (notBefore_eq_some hk).1, rfl⟩

theorem takes_word (h : (Lexeme.word r).Takes s) : s = r := by
  obtain ⟨cs, k, hk, rfl⟩ := h
  exact takes_literal ⟨cs, k, (word_eq_some hk).1, rfl⟩

theorem takes_firstOf (h : (Lexeme.firstOf ms).Takes s) : ∃ m ∈ ms, Lexeme.Takes m s := by
  obtain ⟨cs, k, hk, rfl⟩ := h
  obtain ⟨m, hm, hmk⟩ := List.exists_of_findSome?_eq_some hk
  exact ⟨m, hm, cs, k, hmk, rfl⟩

end Lexemes

end LedSketch.Grammar
