import LedSketch.Program.Compiled
import LedSketch.Proofs.Grammar.Phrases

/-!
# Why a source is not compiled

A source is compiled or refused, and refused with an error that says so. If the grammar takes it,
only a static rule that its tree breaks, or what it declares, is a reason.

* `parse_phrases`: the tree of a source is a program of phrases.
* `not_overlong_of_short`: in a short source there is no integer that is too long.
* `compile_eq_ok`: what a source that is compiled has.
* `compile_settled`: what becomes of a source.
-/

namespace LedSketch

open HostText (Setting)
open Grammar

/-- **The tree of a source** is a program of statements. -/
theorem parse_phrases {source : String} {t : Tree} (h : Grammar.parse source = .ok t) :
    ∃ (c d : Cursor) (us : List Tree), (∀ u ∈ us, u.Is .statement) ∧
      t = .node (c.mark d "program") us := by
  unfold Grammar.parse at h
  split at h
  · rename_i u c hrun
    split_ifs at h
    cases h
    obtain ⟨c, d, us, hus, heq⟩ := builds_of_run phrases_hostForm _ .program .program _ le_rfl
      _ _ _ hrun
    exact ⟨c, d, us, hus, List.singleton_inj.mp heq⟩
  · cases h

/-- A parsed tree becomes a program that can be run, or accounts for why it does not. -/
theorem elaborate_parsed {source : String} {t : Tree} (h : Grammar.parse source = .ok t) :
    match t.elaborate with
    | .ok n => Tree.IsRun n
    | .error f => t.Accounts ⟨none, false⟩ f := by
  obtain ⟨c, d, us, hus, rfl⟩ := parse_phrases h
  exact Tree.root_program hus

/-! ## Short sources -/

section Short

variable {ρ : Type} {g : ρ → Peg ρ} {n N : Nat} {w : ρ}

/-- No text in a tree is longer than so many characters. -/
def Tree.Within (N : Nat) (t : Tree) : Prop :=
  ∀ u, Tree.Part t u → ∀ s, u.text = .ok s → s.length ≤ N

/-- The passage that stays within the last so many characters. -/
def Staying (N : Nat) : Passage ρ := fun c ts _ d =>
  c.rest.length ≤ N → d.rest.length ≤ N ∧ ∀ t ∈ ts, t.Within N

theorem Staying.closed : (Staying (ρ := ρ) N).Closed where
  nil _ h := ⟨h, by simp⟩
  append h h' hc :=
    ⟨(h' (h hc).1).1, fun t ht => (List.mem_append.mp ht).elim ((h hc).2 t) ((h' (h hc).1).2 t)⟩

theorem length_upTo (c d : Cursor) : (c.upTo d).length ≤ c.rest.length := by
  rw [Cursor.upTo, String.length_ofList]
  exact (List.length_take_le' _ _)

theorem within_node {c d : Cursor} {tag : String} {ts : List Tree} (hc : c.rest.length ≤ N)
    (h : ∀ t ∈ ts, t.Within N) : (Tree.node (c.mark d tag) ts).Within N := by
  intro u hu s hs
  cases hu with
  | refl =>
    cases hs
    exact (length_upTo c d).trans hc
  | step hcs hmem hpart =>
    cases hcs
    exact h _ hmem u hpart s hs

theorem within_leaf {c d : Cursor} {tag : String} (hc : c.rest.length ≤ N) :
    (Tree.leaf (c.mark d tag)).Within N := by
  intro u hu s hs
  cases hu with
  | refl =>
    cases hs
    exact (length_upTo c d).trans hc
  | step hcs hmem => cases hcs; cases hmem

/-- The runs of an expression stay, if those of the rules do. -/
theorem obeys_staying (hrule : ∀ w name, Obeys g n w (.rule name) (Staying N)) :
    ∀ w p, Obeys g n w p (Staying N)
  | w, .token m => obeys_token fun c k _ hc =>
    ⟨by rw [rest_advance, List.length_drop]; omega, by simp⟩
  | w, .seq ps => obeys_seq (ObeysSeq.of_closed Staying.closed (all w ps))
  | w, .choice ps => obeys_choice (all w ps)
  | w, .many p => obeys_many Staying.closed (obeys_staying hrule w p)
  | w, .optional p => obeys_optional Staying.closed.nil (obeys_staying hrule w p)
  | w, .rule name => hrule w name
  | w, .node _ p => obeys_node (obeys_staying hrule w p) fun _ _ _ _ h hc =>
    ⟨(h hc).1, by simpa using within_node hc (h hc).2⟩
  | w, .leaf _ p => obeys_leaf (obeys_staying hrule w p) fun _ _ _ _ h hc =>
    ⟨(h hc).1, by simpa using within_leaf hc⟩
  | w, .drop p => obeys_drop (obeys_staying hrule w p) fun _ _ _ _ h hc => ⟨(h hc).1, by simp⟩
where
  all : ∀ w ps, ∀ p ∈ ps, Obeys g n w p (Staying N)
  | _, [] => by simp
  | w, p :: ps => by
    intro q hq
    rcases List.mem_cons.mp hq with hqp | hq
    · rw [hqp]
      exact obeys_staying hrule w p
    · exact all w ps q hq

theorem obeys_stayingRules (N n : Nat) : ∀ w name, Obeys g n w (.rule name) (Staying N) := by
  induction n with
  | zero => exact fun _ _ => Obeys.zero _ _ _
  | succ n ih => exact fun w name => obeys_rule (obeys_staying ih name (g name))

end Short

/-- **A short source has no integer that is too long.** -/
theorem not_overlong_of_short {source : String} {t : Tree} (hlen : source.length ≤ Reading.digitLimit)
    (h : Grammar.parse source = .ok t) : ¬ t.Overlong := by
  rintro ⟨u, s, hpart, -, hs, -, hlong⟩
  unfold Grammar.parse at h
  split at h
  · rename_i v c hrun
    split_ifs at h
    cases h
    have hstays := obeys_stayingRules (g := hostForm) Reading.digitLimit _ Rule.program Rule.program
      (fuelFor source.toList) le_rfl (Cursor.start source.toList) _ _ hrun
    have hshort := (hstays (by simpa [Cursor.start, String.length_toList] using hlen)).2 _ (by simp) u hpart s hs
    omega
  · cases h

/-! ## Compiling -/

/-- A broken rule is reported as an error of compiling. -/
theorem Tree.Breaks.kind {p : Setting} {t v : Tree} {c : Complaint} (h : t.Breaks p c v) :
    c.kind = .compile := by
  cases h <;> rfl

theorem Tree.Violates.kind {p : Setting} {t : Tree} {e : SketchError} (h : t.Violates p e) :
    e.complaint.kind = .compile := by
  obtain ⟨_, _, _, _, -, hbreaks, _, _, -, rfl⟩ := h
  exact hbreaks.kind

/-- A failure that is an error of compiling. -/
def Fault.IsRefusal (f : Fault) : Prop := ∃ e, f = .sketch e ∧ e.complaint.kind = .compile

theorem checkEntryPoint_refuses {functions : List (String × Signature)} {name : String} {f : Fault}
    (h : Compiled.checkEntryPoint functions name = .error f) : f.IsRefusal := by
  unfold Compiled.checkEntryPoint at h
  split at h
  · cases h
    exact ⟨_, rfl, rfl⟩
  · dsimp only at h
    split_ifs at h
    · cases h
      exact ⟨_, rfl, rfl⟩
    · cases h
      exact ⟨_, rfl, rfl⟩

/-- A check that fails for several things fails for one of them. -/
theorem exists_of_forM_eq_error {α : Type} {check : α → Except Fault Unit} {as : List α} {f : Fault}
    (h : as.forM check = .error f) : ∃ a ∈ as, check a = .error f := by
  induction as with
  | nil => cases h
  | cons a as ih =>
    change (check a >>= fun _ => as.forM check) = .error f at h
    cases ha : check a with
    | error f' =>
      rw [ha] at h
      cases h
      exact ⟨a, List.mem_cons_self, ha⟩
    | ok =>
      rw [ha] at h
      obtain ⟨b, hb, hf⟩ := ih h
      exact ⟨b, List.mem_cons_of_mem a hb, hf⟩

/-- **A source that can be read is refused** for what it declares. -/
theorem compile_of_read {source : String} {n : Node} (h : readHostForm source = .ok n) {f : Fault}
    (hf : compile source = .error f) : f = .sketch { complaint := .entryPointsUndefined } ∨
      ∃ name, Compiled.checkEntryPoint (declaredFunctions n.statements) name = .error f := by
  rw [compile, h] at hf
  simp only [bind, Except.bind] at hf
  split_ifs at hf
  · cases hf
    exact Or.inl rfl
  · split at hf
    · rename_i hchecks
      cases hf
      obtain ⟨name, -, hcheck⟩ := exists_of_forM_eq_error hchecks
      exact Or.inr ⟨name, hcheck⟩
    · cases hf

theorem forM_eq_ok {α : Type} {check : α → Except Fault Unit} {as : List α}
    (h : as.forM check = .ok ()) : ∀ a ∈ as, check a = .ok () := by
  induction as with
  | nil => simp
  | cons a as ih =>
    change (check a >>= fun _ => as.forM check) = .ok () at h
    cases ha : check a with
    | error f => rw [ha] at h; cases h
    | ok _ =>
      rw [ha] at h
      exact List.forall_mem_cons.mpr ⟨ha, ih h⟩

/-- **A source that is compiled** has a tree, which becomes its statements, and these declare both
entry points. -/
theorem compile_eq_ok {source : String} {p : Compiled} (h : compile source = .ok p) :
    ∃ t n, Grammar.parse source = .ok t ∧ t.elaborate = .ok n ∧ n.statements = p.statements ∧
      ∀ name ∈ Dialect.entryPoints,
        Compiled.checkEntryPoint (declaredFunctions p.statements) name = .ok () := by
  cases hr : readHostForm source with
  | error f => rw [compile, hr] at h; cases h
  | ok n =>
    rw [compile, hr] at h
    simp only [bind, Except.bind] at h
    split_ifs at h
    split at h
    · cases h
    · rename_i hchecks
      cases h
      unfold readHostForm at hr
      split at hr
      · cases hr
      · rename_i t ht
        exact ⟨t, n, ht, hr, rfl, forM_eq_ok hchecks⟩

/-- **What becomes of a source** without integers that are too long: it is compiled, or refused with
an error of compiling; and if the grammar takes it, elaboration refuses it only for a static rule
that its tree breaks where the error says. -/
theorem compile_settled {source : String}
    (h : ∀ t, Grammar.parse source = .ok t → ¬ t.Overlong) :
    ((∃ p, compile source = .ok p) ∨
      ∃ e, compile source = .error (.sketch e) ∧ e.complaint.kind = .compile) ∧
    ∀ t f, Grammar.parse source = .ok t → t.elaborate = .error f →
      ∃ e, f = .sketch e ∧ t.Violates ⟨none, false⟩ e := by
  have refusal {t : Tree} {f : Fault} (ht : Grammar.parse source = .ok t)
      (hf : t.elaborate = .error f) : ∃ e, f = .sketch e ∧ t.Violates ⟨none, false⟩ e := by
    have haccounts := elaborate_parsed ht
    rw [hf] at haccounts
    cases f with
    | sketch e => exact ⟨e, rfl, haccounts⟩
    | mishap m => exact absurd haccounts (h t ht)
  refine ⟨?_, fun t f => refusal⟩
  have key {f : Fault} (hf : compile source = .error f) : f.IsRefusal := by
    cases hread : readHostForm source with
    | ok n =>
      obtain rfl | ⟨name, hcheck⟩ := compile_of_read hread hf
      · exact ⟨_, rfl, rfl⟩
      · exact checkEntryPoint_refuses hcheck
    | error f' =>
      obtain rfl : f' = f := by
        rw [compile, hread] at hf
        exact Except.error.inj hf
      unfold readHostForm at hread
      split at hread
      · cases hread
        exact ⟨_, rfl, rfl⟩
      · obtain ⟨e, rfl, he⟩ := refusal ‹_› hread
        exact ⟨e, rfl, he.kind⟩
  cases hc : compile source with
  | ok p => exact Or.inl ⟨p, rfl⟩
  | error f =>
    obtain ⟨e, rfl, he⟩ := key hc
    exact Or.inr ⟨e, rfl, he⟩

/-- A short source with a jump outside of every loop. -/
theorem compile_settled_jump :
    let source := "async function setup() \x7b break; \x7d async function loop() \x7b \x7d"
    (∀ t, Grammar.parse source = .ok t → ¬ t.Overlong) ∧
      ((∃ p, compile source = .ok p) ∨
        ∃ e, compile source = .error (.sketch e) ∧ e.complaint.kind = .compile) ∧
      ∀ t f, Grammar.parse source = .ok t → t.elaborate = .error f →
        ∃ e, f = .sketch e ∧ t.Violates ⟨none, false⟩ e := by
  intro source
  have short : ∀ t, Grammar.parse source = .ok t → ¬ t.Overlong := fun _ =>
    not_overlong_of_short (by decide)
  exact ⟨short, compile_settled short⟩

end LedSketch
