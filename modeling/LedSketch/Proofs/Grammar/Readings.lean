import LedSketch.Grammar.Peg

/-!
# The lexemes that a run takes

A tree keeps no trace of blanks and punctuation. `readings` lists every lexeme that a run takes, in
order, each with the rule that asks for it. A `Passage` relates the two ends of a run with its trees
and readings; what holds of the parts of an expression carries over to the expression.

* `readings`: the lexemes of a run.
* `Obeys`: every run of an expression up to some fuel is such a passage.
* `obeys_seq`, `obeys_choice`, `obeys_many`, …: one closure lemma for each kind of expression.
* `obeys_any`: passages of lexemes are passages of whole rules.
-/

namespace LedSketch.Grammar

variable {ρ : Type}

/-- A lexeme that was taken: for which rule, where, and how many characters. -/
structure Reading (ρ : Type) where
  rule : ρ
  place : Cursor
  count : Nat

/-- The characters that a lexeme takes. -/
def Reading.text (x : Reading ρ) : List Char := x.place.rest.take x.count

mutual

/-- The lexemes that a run takes, as long as it is not refused; `w` is the rule that asks. -/
def readings (g : ρ → Peg ρ) : Nat → ρ → Peg ρ → Cursor → List (Reading ρ)
  | 0, _, _, _ => []
  | _ + 1, w, .token m, c => match m c.rest with
    | some k => [⟨w, c, k⟩]
    | none => []
  | fuel + 1, w, .seq parts, c => readingsSeq g fuel w parts c
  | fuel + 1, w, .choice alternatives, c => readingsChoice g fuel w alternatives c
  | fuel + 1, w, .many part, c => match run g fuel part c with
    | .got _ d => readings g fuel w part c ++ readings g fuel w (.many part) d
    | _ => []
  | fuel + 1, w, .optional part, c => match run g fuel part c with
    | .got .. => readings g fuel w part c
    | _ => []
  | fuel + 1, _, .rule name, c => readings g fuel name (g name) c
  | fuel + 1, w, .node _ part, c => readings g fuel w part c
  | fuel + 1, w, .leaf _ part, c => readings g fuel w part c
  | fuel + 1, w, .drop part, c => readings g fuel w part c

/-- The lexemes of the parts of a sequence. -/
def readingsSeq (g : ρ → Peg ρ) : Nat → ρ → List (Peg ρ) → Cursor → List (Reading ρ)
  | 0, _, _, _ => []
  | _ + 1, _, [], _ => []
  | fuel + 1, w, p :: ps, c => match run g fuel p c with
    | .got _ d => readings g fuel w p c ++ readingsSeq g fuel w ps d
    | _ => []

/-- The lexemes of the first alternative that fits. -/
def readingsChoice (g : ρ → Peg ρ) : Nat → ρ → List (Peg ρ) → Cursor → List (Reading ρ)
  | 0, _, _, _ => []
  | _ + 1, _, [], _ => []
  | fuel + 1, w, p :: ps, c => match run g fuel p c with
    | .refused => readingsChoice g fuel w ps c
    | _ => readings g fuel w p c

end

-- The equations of the readings are made here, once, for all the lemmas that open them.
attribute [local simp] readings readingsSeq readingsChoice

/-- How the ends of a run are related, given its trees and readings. -/
abbrev Passage (ρ : Type) := Cursor → List Tree → List (Reading ρ) → Cursor → Prop

/-- Passages that may be put one behind the other. -/
structure Passage.Closed (A : Passage ρ) : Prop where
  nil : ∀ c, A c [] [] c
  append : ∀ {c ts rs d us ss e}, A c ts rs d → A d us ss e → A c (ts ++ us) (rs ++ ss) e

/-- One passage behind another. -/
def Passage.comp (A B : Passage ρ) : Passage ρ := fun c ts rs d =>
  ∃ e ts₁ ts₂ rs₁ rs₂, A c ts₁ rs₁ e ∧ B e ts₂ rs₂ d ∧ ts = ts₁ ++ ts₂ ∧ rs = rs₁ ++ rs₂

/-- Every run with at most `n` fuel that takes something is a passage of `A`. -/
def Obeys (g : ρ → Peg ρ) (n : Nat) (w : ρ) (p : Peg ρ) (A : Passage ρ) : Prop :=
  ∀ m ≤ n, ∀ c ts d, run g m p c = .got ts d → A c ts (readings g m w p c) d

/-- The same of the parts of a sequence. -/
def ObeysSeq (g : ρ → Peg ρ) (n : Nat) (w : ρ) (ps : List (Peg ρ)) (A : Passage ρ) : Prop :=
  ∀ m ≤ n, ∀ c ts d, runSeq g m ps c = .got ts d → A c ts (readingsSeq g m w ps c) d

variable {g : ρ → Peg ρ} {n : Nat} {w : ρ} {p : Peg ρ} {ps : List (Peg ρ)} {A B : Passage ρ}

theorem Outcome.build_eq_got {o : Outcome} {f : List Tree → Cursor → List Tree} {ts : List Tree}
    {d : Cursor} (h : o.build f = .got ts d) : ∃ us, o = .got us d ∧ ts = f us d := by
  cases o with
  | got us e =>
    simp only [Outcome.build, Outcome.got.injEq] at h
    obtain ⟨rfl, rfl⟩ := h
    exact ⟨us, rfl, rfl⟩
  | refused => cases h
  | spent => cases h

theorem Outcome.andThen_eq_got {o : Outcome} {f : Cursor → Outcome} {ts : List Tree} {d : Cursor}
    (h : o.andThen f = .got ts d) :
    ∃ us e vs, o = .got us e ∧ f e = .got vs d ∧ ts = us ++ vs := by
  cases o with
  | got us e =>
    simp only [Outcome.andThen] at h
    cases hf : f e with
    | got vs d' =>
      rw [hf] at h
      cases h
      exact ⟨us, e, vs, rfl, hf, rfl⟩
    | refused => rw [hf] at h; cases h
    | spent => rw [hf] at h; cases h
  | refused => cases h
  | spent => cases h

theorem Obeys.weaken (h : Obeys g n w p A) (hAB : ∀ c ts rs d, A c ts rs d → B c ts rs d) :
    Obeys g n w p B :=
  fun m hm c ts d hrun => hAB _ _ _ _ (h m hm c ts d hrun)

theorem Obeys.zero (w : ρ) (p : Peg ρ) (A : Passage ρ) : Obeys g 0 w p A := by
  intro m hm c ts d h
  obtain rfl : m = 0 := Nat.le_zero.mp hm
  rw [run] at h
  cases h

theorem Obeys.and (hA : Obeys g n w p A) (hB : Obeys g n w p B) :
    Obeys g n w p (fun c ts rs d => A c ts rs d ∧ B c ts rs d) :=
  fun m hm c ts d hrun => ⟨hA m hm c ts d hrun, hB m hm c ts d hrun⟩

theorem Obeys.true (w : ρ) (p : Peg ρ) : Obeys g n w p (fun _ _ _ _ => True) :=
  fun _ _ _ _ _ _ => trivial

/-! ## Closure -/

theorem obeys_token {m : Lexeme}
    (h : ∀ c k, m c.rest = some k → A c [] [⟨w, c, k⟩] (c.advance k)) :
    Obeys g n w (.token m) A := by
  intro fuel _ c ts d hrun
  cases fuel with
  | zero => rw [run] at hrun; cases hrun
  | succ fuel =>
    rw [run] at hrun
    rw [readings]
    cases hm : m c.rest with
    | none => rw [hm] at hrun; cases hrun
    | some k =>
      rw [hm] at hrun
      cases hrun
      exact h c k hm

theorem ObeysSeq.nil (h : ∀ c, A c [] [] c) : ObeysSeq g n w [] A := by
  intro fuel _ c ts d hrun
  cases fuel with
  | zero => rw [runSeq] at hrun; cases hrun
  | succ fuel =>
    rw [runSeq] at hrun
    cases hrun
    rw [readingsSeq]
    exact h c

theorem ObeysSeq.cons (hp : Obeys g n w p A) (hps : ObeysSeq g n w ps B) :
    ObeysSeq g n w (p :: ps) (A.comp B) := by
  intro fuel hle c ts d hrun
  cases fuel with
  | zero => rw [runSeq] at hrun; cases hrun
  | succ fuel =>
    rw [runSeq] at hrun
    obtain ⟨us, e, vs, h₁, h₂, rfl⟩ := Outcome.andThen_eq_got hrun
    rw [readingsSeq, h₁]
    exact ⟨e, us, vs, _, _, hp fuel (by omega) c us e h₁, hps fuel (by omega) e vs d h₂, rfl, rfl⟩

theorem ObeysSeq.weaken (h : ObeysSeq g n w ps A)
    (hAB : ∀ c ts rs d, A c ts rs d → B c ts rs d) : ObeysSeq g n w ps B :=
  fun m hm c ts d hrun => hAB _ _ _ _ (h m hm c ts d hrun)

theorem ObeysSeq.of_closed (hA : A.Closed) (h : ∀ p ∈ ps, Obeys g n w p A) :
    ObeysSeq g n w ps A := by
  induction ps with
  | nil => exact ObeysSeq.nil hA.nil
  | cons p ps ih =>
    have hps := ih fun q hq => h q (List.mem_cons_of_mem p hq)
    refine (ObeysSeq.cons (h p List.mem_cons_self) hps).weaken ?_
    rintro c ts rs d ⟨e, ts₁, ts₂, rs₁, rs₂, h₁, h₂, rfl, rfl⟩
    exact hA.append h₁ h₂

theorem obeys_seq (h : ObeysSeq g n w ps A) : Obeys g n w (.seq ps) A := by
  intro fuel hle c ts d hrun
  cases fuel with
  | zero => rw [run] at hrun; cases hrun
  | succ fuel =>
    rw [run] at hrun
    rw [readings]
    exact h fuel (by omega) c ts d hrun

theorem obeys_choice (h : ∀ p ∈ ps, Obeys g n w p A) : Obeys g n w (.choice ps) A := by
  have key : ∀ qs, (∀ p ∈ qs, Obeys g n w p A) → ∀ fuel ≤ n, ∀ c ts d,
      runChoice g fuel qs c = .got ts d → A c ts (readingsChoice g fuel w qs c) d := by
    intro qs
    induction qs with
    | nil =>
      intro _ fuel _ c ts d hrun
      cases fuel <;> rw [runChoice] at hrun <;> cases hrun
    | cons q qs ih =>
      intro hq fuel hle c ts d hrun
      cases fuel with
      | zero => rw [runChoice] at hrun; cases hrun
      | succ fuel =>
        rw [runChoice] at hrun
        rw [readingsChoice]
        cases ho : run g fuel q c with
        | got us e =>
          rw [ho] at hrun
          cases hrun
          exact hq q List.mem_cons_self fuel (by omega) c ts d ho
        | refused =>
          rw [ho] at hrun
          exact ih (fun p hp => hq p (List.mem_cons_of_mem q hp)) fuel (by omega) c ts d hrun
        | spent => rw [ho] at hrun; cases hrun
  intro fuel hle c ts d hrun
  cases fuel with
  | zero => rw [run] at hrun; cases hrun
  | succ fuel =>
    rw [run] at hrun
    rw [readings]
    exact key ps h fuel (by omega) c ts d hrun

theorem obeys_many (hA : A.Closed) (h : Obeys g n w p A) : Obeys g n w (.many p) A := by
  intro fuel
  induction fuel with
  | zero => intro _ c ts d hrun; rw [run] at hrun; cases hrun
  | succ fuel ih =>
    intro hle c ts d hrun
    rw [run] at hrun
    rw [readings]
    cases ho : run g fuel p c with
    | got us e =>
      rw [ho] at hrun
      obtain ⟨vs, hv, rfl⟩ := Outcome.build_eq_got hrun
      exact hA.append (h fuel (by omega) c us e ho) (ih (by omega) e vs d hv)
    | refused =>
      rw [ho] at hrun
      cases hrun
      exact hA.nil c
    | spent => rw [ho] at hrun; cases hrun

theorem obeys_optional (hA : ∀ c, A c [] [] c) (h : Obeys g n w p A) :
    Obeys g n w (.optional p) A := by
  intro fuel hle c ts d hrun
  cases fuel with
  | zero => rw [run] at hrun; cases hrun
  | succ fuel =>
    rw [run] at hrun
    rw [readings]
    cases ho : run g fuel p c with
    | got us e =>
      rw [ho] at hrun
      cases hrun
      exact h fuel (by omega) c ts d ho
    | refused =>
      rw [ho] at hrun
      cases hrun
      exact hA c
    | spent => rw [ho] at hrun; cases hrun

theorem obeys_rule {name : ρ} (h : Obeys g n name (g name) A) :
    Obeys g (n + 1) w (.rule name) A := by
  intro fuel hle c ts d hrun
  cases fuel with
  | zero => rw [run] at hrun; cases hrun
  | succ fuel =>
    rw [run] at hrun
    rw [readings]
    exact h fuel (by omega) c ts d hrun

theorem obeys_node {tag : String} (h : Obeys g n w p A)
    (hAB : ∀ c ts rs d, A c ts rs d → B c [.node (c.mark d tag) ts] rs d) :
    Obeys g n w (.node tag p) B := by
  intro fuel hle c ts d hrun
  cases fuel with
  | zero => rw [run] at hrun; cases hrun
  | succ fuel =>
    rw [run] at hrun
    obtain ⟨us, hu, rfl⟩ := Outcome.build_eq_got hrun
    rw [readings]
    exact hAB _ _ _ _ (h fuel (by omega) c us d hu)

theorem obeys_leaf {tag : String} (h : Obeys g n w p A)
    (hAB : ∀ c ts rs d, A c ts rs d → B c [.leaf (c.mark d tag)] rs d) :
    Obeys g n w (.leaf tag p) B := by
  intro fuel hle c ts d hrun
  cases fuel with
  | zero => rw [run] at hrun; cases hrun
  | succ fuel =>
    rw [run] at hrun
    obtain ⟨us, hu, rfl⟩ := Outcome.build_eq_got hrun
    rw [readings]
    exact hAB _ _ _ _ (h fuel (by omega) c us d hu)

theorem obeys_drop (h : Obeys g n w p A) (hAB : ∀ c ts rs d, A c ts rs d → B c [] rs d) :
    Obeys g n w (.drop p) B := by
  intro fuel hle c ts d hrun
  cases fuel with
  | zero => rw [run] at hrun; cases hrun
  | succ fuel =>
    rw [run] at hrun
    obtain ⟨us, hu, rfl⟩ := Outcome.build_eq_got hrun
    rw [readings]
    exact hAB _ _ _ _ (h fuel (by omega) c us d hu)

/-- A passage that looks at no trees, and that every lexeme is, is what every expression is. -/
theorem obeys_any (hA : A.Closed) (htrees : ∀ c ts us rs d, A c ts rs d → A c us rs d)
    (htoken : ∀ (m : Lexeme) c k, m c.rest = some k → A c [] [⟨w, c, k⟩] (c.advance k))
    (hrule : ∀ name, Obeys g n w (.rule name) A) : ∀ p, Obeys g n w p A
  | .token m => obeys_token (htoken m)
  | .seq ps => obeys_seq (ObeysSeq.of_closed hA (all ps))
  | .choice ps => obeys_choice (all ps)
  | .many p => obeys_many hA (obeys_any hA htrees htoken hrule p)
  | .optional p => obeys_optional hA.nil (obeys_any hA htrees htoken hrule p)
  | .rule name => hrule name
  | .node _ p => obeys_node (obeys_any hA htrees htoken hrule p) fun _ _ _ _ => htrees _ _ _ _ _
  | .leaf _ p => obeys_leaf (obeys_any hA htrees htoken hrule p) fun _ _ _ _ => htrees _ _ _ _ _
  | .drop p => obeys_drop (obeys_any hA htrees htoken hrule p) fun _ _ _ _ => htrees _ _ _ _ _
where
  all : ∀ ps, ∀ p ∈ ps, Obeys g n w p A
  | [] => by simp
  | p :: ps => by
    intro q hq
    rcases List.mem_cons.mp hq with hqp | hq
    · rw [hqp]
      exact obeys_any hA htrees htoken hrule p
    · exact all ps q hq

end LedSketch.Grammar
