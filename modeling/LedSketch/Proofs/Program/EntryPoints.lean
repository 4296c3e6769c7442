import LedSketch.Proofs.Grammar.Announced
import LedSketch.Proofs.Program.Refusals
import LedSketch.Proofs.Running.Scoping
import LedSketch.Proofs.Syntax.Attendance
import LedSketch.Proofs.Syntax.Conforming

/-!
# Sketches that compile pass the quick check

A compiled sketch has an async function for each entry point. A statement of its tree declares it,
the host form spells that with `async`, and in a sketch without this word it is the pass that has
written it, where the quick check finds the entry point too. So the quick check refuses no sketch
that compiles, as long as the scanner and the grammar agree on what is a comment.

* `yields_statement`, `yields_asyncNamed`: functions of a program are declared by its tree.
* `exists_entryPoint`: a compiled program declares its entry points.
* `checkEntryPoints_of_compile`: a sketch that compiles passes the quick check.
* `checkEntryPoints_passedBy`: a sketch that compiles and does not pass.
-/

namespace LedSketch

open Dialect Grammar Scan

variable {n : Nat} {w : Rule} {t : Tree} {ts : List Tree} {v : String} {source : String}

/-- The name of the async function that a node declares. -/
def Node.asyncName? : Node → Option String
  | .functionDecl _ name _ _ true => some name
  | _ => none

/-! ## Statements -/

namespace Tree

/-- The tags of statements. -/
def statementTags : List String :=
  ["block", "function-decl", "var-decl", "if", "for", "while", "do-while", "return", "break",
    "continue", "empty", "expr-stmt"]

def isStatement : Tree → Bool
  | leaf m | node m _ => statementTags.contains m.tag
  | foreign .. => false

end Tree

namespace Grammar

theorem every_statementNode {name : Rule} {tag : String} {p : Peg Rule}
    (h : hostForm name = .node tag p) (htag : tag ∈ Tree.statementTags) :
    Obeys hostForm n w (.rule name) (Every Tree.isStatement) :=
  obeys_reference fun _ => h ▸ every_node (fun m ts hm => by simpa [Tree.isStatement, hm]) p

theorem every_statementLeaf {tag : String} (htag : tag ∈ Tree.statementTags) (p : Peg Rule) :
    Obeys hostForm n w (.leaf tag p) (Every Tree.isStatement) :=
  obeys_leaf (.true w p) fun c ts rs d _ t ht => by
    obtain rfl := List.mem_singleton.mp ht
    simpa [Tree.isStatement, Cursor.mark] using htag

/-- **Statements are tagged so.** -/
theorem every_statement (n : Nat) (w : Rule) :
    Obeys hostForm n w (.rule .statement) (Every Tree.isStatement) := by
  refine obeys_reference fun n => obeys_choice fun p hp => ?_
  simp only [List.mem_cons, List.not_mem_nil, or_false] at hp
  rcases hp with rfl | rfl | rfl | rfl | rfl | rfl | rfl | rfl | rfl | rfl | rfl | rfl
  · exact every_statementNode rfl (by decide)
  · exact every_statementNode rfl (by decide)
  · exact every_seq (List.forall_mem_cons.mpr ⟨every_statementNode rfl (by decide),
      List.forall_mem_cons.mpr ⟨obeys_reference fun _ => every_drop _, by simp⟩⟩)
  · exact every_statementNode rfl (by decide)
  · exact every_statementNode rfl (by decide)
  · exact every_statementNode rfl (by decide)
  · exact every_statementNode rfl (by decide)
  · exact every_statementNode rfl (by decide)
  · exact every_statementLeaf (by decide) _
  · exact every_statementLeaf (by decide) _
  · exact every_statementLeaf (by decide) _
  · exact every_statementNode rfl (by decide)

theorem statements_of_parse {m : Mark} (h : parse source = .ok (.node m ts)) :
    ∀ u ∈ ts, u.isStatement = true := by
  obtain ⟨d, hrun, -⟩ := parse_eq_ok h
  obtain ⟨m', us, ht, -, hus⟩ := obeys_program (Every.closed _) (fun _ _ => every_blank)
    every_statement _ .program _ le_rfl _ _ _ hrun
  obtain ⟨-, rfl⟩ := Tree.node.inj (List.cons.inj ht).1
  exact hus

end Grammar

/-! ## Elaboration -/

namespace Elab

theorem yields_functionDecl (loc : Option Loc) (cs : List Tree) :
    Yields (fun m => ∀ v, m.asyncName? = some v →
      ∃ a b rest, cs = a :: b :: rest ∧ a.tag = .ok "async" ∧ b.text = .ok v)
      (functionDecl n loc cs) := by
  cases n with
  | zero => exact yields_throw _
  | succ n =>
    rw [functionDecl]
    refine (yields_element cs 0).bind fun a ha => (yields_reading _).bind fun tag htag => ?_
    dsimp only
    split
    · exact yields_throw _
    · exact yields_throw _
    · rename_i name rest _ hparts
      refine Yields.behind fun body => (yields_reading _).bind fun word hword =>
        Yields.behind fun params => Yields.pure fun v hv => ?_
      by_cases hasync : tag = "async"
      · simp only [hasync, decide_true, Node.asyncName?, Option.some.injEq] at hv
        subst hv hasync
        cases cs with
        | nil => cases ha
        | cons c cs =>
          cases ha
          rw [if_pos (by decide), List.drop_one, List.tail_cons] at hparts
          exact ⟨a, name, rest, by rw [hparts], htag, hword⟩
      · simp [hasync, Node.asyncName?] at hv

/-- **Only a declaration becomes a function declaration**, if it is a statement. -/
theorem yields_statement {Q : Node → Prop} (h : t.isStatement = true)
    (hother : ∀ m, m.isFunctionDecl = false → Q m)
    (hfunction : ∀ n cs, t.tag = .ok "function-decl" → t.children = .ok cs →
      Yields Q (functionDecl n (locOf t) cs)) : Yields Q (elaborateWithin n t) := by
  have other {m : Node} (hm : m.isFunctionDecl = false) : Yields Q (pure m) :=
    Yields.pure (hother m hm)
  cases n with
  | zero => exact yields_throw _
  | succ n =>
    rw [elaborateWithin.eq_def]
    split
    · contradiction
    · cases h
    · cases h
    · rename_i t _ _ _ heq _ _
      obtain rfl := Nat.succ.inj heq
      refine (yields_reading _).bind fun tag htag => (yields_reading _).bind fun cs hcs => ?_
      have hmem : tag ∈ Tree.statementTags := by
        cases t with
        | foreign d _ => cases h
        | leaf m => cases htag; simpa [Tree.isStatement] using h
        | node m ts => cases htag; simpa [Tree.isStatement] using h
      simp only [Tree.statementTags, List.mem_cons, List.not_mem_nil, or_false] at hmem
      rcases hmem with rfl | rfl | rfl | rfl | rfl | rfl | rfl | rfl | rfl | rfl | rfl | rfl
      · exact Yields.behind fun _ => other rfl
      · exact hfunction n cs htag hcs
      · exact Yields.behind fun _ => Yields.behind fun _ => Yields.behind fun _ => other rfl
      · -- the branch behind `else` comes first
        simp only
        split
        · exact Yields.behind fun _ => Yields.behind fun _ => Yields.behind fun _ => other rfl
        · exact Yields.behind fun _ => Yields.behind fun _ => Yields.behind fun _ =>
            Yields.behind fun _ => Yields.behind fun _ => other rfl
      · simp only
        cases n with
        | zero => exact yields_throw _
        | succ n =>
          rw [forLoop]
          exact Yields.behind fun _ => Yields.behind fun _ => Yields.behind fun _ => other rfl
      · exact Yields.behind fun _ => Yields.behind fun _ => Yields.behind fun _ => other rfl
      · exact Yields.behind fun _ => Yields.behind fun _ => Yields.behind fun _ => other rfl
      · refine Yields.behind fun _ => yields_unless ?_
        split
        · exact other rfl
        · exact Yields.behind fun _ => other rfl
      · exact Yields.behind fun _ => yields_unless (other rfl)
      · exact Yields.behind fun _ => yields_unless (other rfl)
      · exact other rfl
      · exact Yields.behind fun _ => other rfl

/-- **An async function comes from its declaration**, if it comes from a statement. -/
theorem yields_asyncNamed (h : t.isStatement = true) :
    Yields (fun m => ∀ v, m.asyncName? = some v → t.AsyncNamed v) (elaborateWithin n t) := by
  refine yields_statement h (fun m hm v hv => ?_) fun n cs htag hcs => ?_
  · cases m <;> first | cases hv | cases hm
  · refine (yields_functionDecl _ cs).mono fun m hm v hv => ?_
    obtain ⟨a, b, rest, rfl, ha, hb⟩ := hm v hv
    cases t with
    | foreign d _ => cases h
    | leaf m => cases hcs
    | node m ts =>
      cases hcs
      exact ⟨m, a, b, rest, rfl, Except.ok.inj htag, ha, hb⟩

theorem yields_each {Q : Tree → Node → Prop}
    (h : ∀ t ∈ ts, ∀ n, Yields (Q t) (elaborateWithin n t)) :
    Yields (fun ms : List Node => ∀ m ∈ ms, ∃ t ∈ ts, Q t m) (elaborateAll n ts) := by
  induction n generalizing ts with
  | zero => exact yields_throw _
  | succ n ih =>
    cases ts with
    | nil =>
      rw [elaborateAll]
      exact Yields.pure (by simp)
    | cons t ts =>
      rw [elaborateAll]
      refine (h t List.mem_cons_self n).bind fun m hm => ?_
      refine (ih fun t ht => h t (List.mem_cons_of_mem _ ht)).bind fun ms hms => Yields.pure ?_
      refine List.forall_mem_cons.mpr ⟨⟨t, List.mem_cons_self, hm⟩, fun m' hm' => ?_⟩
      obtain ⟨u, hu, hq⟩ := hms m' hm'
      exact ⟨u, List.mem_cons_of_mem _ hu, hq⟩

end Elab

/-- **The statements of a program** come from those of its tree. -/
theorem statement_of_elaborate {Q : Tree → Node → Prop} {m : Mark} {p : Node}
    (hm : m.tag = "program") (h : ∀ t ∈ ts, ∀ n, Elab.Yields (Q t) (elaborateWithin n t))
    (he : (Tree.node m ts).elaborate = .ok p) : ∀ f ∈ p.statements, ∃ t ∈ ts, Q t f := by
  have hyields : Elab.Yields (fun p => ∀ f ∈ p.statements, ∃ t ∈ ts, Q t f)
      (elaborateWithin (Tree.node m ts).reach (.node m ts)) := by
    rw [Tree.reach, Elab.elaborateWithin_program (t := .node m ts) (congrArg Except.ok hm) rfl
      fun _ _ hd => by cases hd]
    exact Elab.Yields.behind fun _ => (Elab.yields_each h).bind fun ns hns => Elab.Yields.pure hns
  exact hyields.of_elaborate he

theorem asyncNamed_of_elaborate {m : Mark} {p : Node} (hm : m.tag = "program")
    (h : ∀ t ∈ ts, t.isStatement = true) (he : (Tree.node m ts).elaborate = .ok p) :
    ∀ f ∈ p.statements, ∀ v, f.asyncName? = some v → ∃ t ∈ ts, t.AsyncNamed v := by
  intro f hf v hv
  obtain ⟨t, ht, hnamed⟩ :=
    statement_of_elaborate hm (fun t ht _ => Elab.yields_asyncNamed (h t ht)) he f hf
  exact ⟨t, ht, hnamed v hv⟩

/-! ## Compiled programs -/

theorem mem_declared {statements : List Node} {f : String × Signature}
    (found : List (String × Signature))
    (hfold : f ∈ statements.foldl (fun (found : List (String × Signature)) s => match s with
      | .functionDecl loc name params _ isAsync => putPair name ⟨params, isAsync, loc⟩ found
      | _ => found) found) : f ∈ found ∨
        ∃ body, .functionDecl f.2.loc f.1 f.2.params body f.2.isAsync ∈ statements := by
  induction statements generalizing found with
  | nil => exact Or.inl hfold
  | cons s ss ih =>
    rcases ih _ hfold with h | ⟨body, hbody⟩
    · dsimp only at h
      split at h
      · rename_i loc name params body isAsync
        rcases Store.mem_putPair h with rfl | h
        · exact Or.inr ⟨body, List.mem_cons_self⟩
        · exact Or.inl h
      · exact Or.inl h
    · exact Or.inr ⟨body, List.mem_cons_of_mem _ hbody⟩

/-- What is declared comes from a declaration. -/
theorem exists_declaration {statements : List Node} {f : String × Signature}
    (h : f ∈ declaredFunctions statements) :
    ∃ body, .functionDecl f.2.loc f.1 f.2.params body f.2.isAsync ∈ statements :=
  (mem_declared [] h).resolve_left List.not_mem_nil

/-- An entry point is an async function. -/
theorem isAsync_of_checkEntryPoint {functions : List (String × Signature)}
    (h : Compiled.checkEntryPoint functions v = .ok ()) :
    ∃ f ∈ functions, f.1 = v ∧ f.2.isAsync = true := by
  unfold Compiled.checkEntryPoint at h
  split at h
  · cases h
  · rename_i f hf
    dsimp only at h
    split_ifs at h with _ hasync
    obtain ⟨xs, ys, rfl, -⟩ := List.lookup_eq_some_iff.mp hf
    exact ⟨(v, f), by simp, rfl, by simpa using hasync⟩

/-- **A compiled program declares its entry points** as async functions. -/
theorem exists_entryPoint {p : Compiled} (h : compile source = .ok p) :
    ∃ t n, parse source = .ok t ∧ t.elaborate = .ok n ∧
      ∀ v ∈ entryPoints, ∃ s ∈ n.statements, s.asyncName? = some v := by
  obtain ⟨t, n, ht, hn, hstatements, hchecks⟩ := compile_eq_ok h
  refine ⟨t, n, ht, hn, fun v hv => ?_⟩
  obtain ⟨f, hf, rfl, hasync⟩ := isAsync_of_checkEntryPoint (hchecks v hv)
  obtain ⟨body, hbody⟩ := exists_declaration hf
  rw [hstatements]
  exact ⟨_, hbody, by rw [hasync]; rfl⟩

/-! ## The quick check -/

namespace Dialect

/-- **A sketch that compiles passes the quick check**, if no `async` is in its code and every end of
statement in its host form closes its comments at the first comment end. -/
theorem checkEntryPoints_of_compile {p : Compiled}
    (hasync : ⟨.code, "async".toList⟩ ∉ scan source.toList)
    (hproper : ∀ x ∈ lexemes (toHostForm source).toList, x.Proper)
    (h : compile (toHostForm source) = .ok p) : checkEntryPoints source = .ok () := by
  obtain ⟨t, n, hparse, helaborate, hpoints⟩ := exists_entryPoint h
  have hheralds : (readerOf (toHostForm source).toList).Heralds (declaredFrom {} none source.toList)
      (toHostForm source).toList := by
    have := heralds_run {} source.toList (readerOf (toHostForm source).toList) none
      ⟨.refl _, nofun⟩ hasync fun _ hx => hx
    rwa [toHostForm, String.toList_ofList] at this ⊢
  obtain ⟨m, ts, rfl, hm, hnames⟩ := names_of_parse hparse hproper hheralds
  have hfound : ∀ v ∈ entryPoints, v ∈ declaredFrom {} none source.toList := by
    intro v hv
    obtain ⟨s, hs, hname⟩ := hpoints v hv
    obtain ⟨u, hu, hasync⟩ :=
      asyncNamed_of_elaborate hm (statements_of_parse hparse) helaborate s hs v hname
    exact hnames u hu v hasync
  rw [checkEntryPoints, if_pos]
  simpa [declaresEntryPoints] using hfound

/-- A sketch whose entry points are spaced out. -/
theorem checkEntryPoints_spaced :
    let source := "void setup()\x7b\x7d /*;*/ void\nloop( )\x7bdelay(5);\x7d"
    ∃ p, ⟨.code, "async".toList⟩ ∉ scan source.toList ∧
      (∀ x ∈ lexemes (toHostForm source).toList, x.Proper) ∧
      compile (toHostForm source) = .ok p ∧ checkEntryPoints source = .ok () := by
  intro source
  have hasync : ⟨.code, "async".toList⟩ ∉ scan source.toList := by decide +kernel
  have hhost : toHostForm source =
      "async function setup()\x7b\x7d /*;*/ async function\nloop( )\x7bawait delay(5);\x7d" := by
    decide +kernel
  have hproper : ∀ x ∈ lexemes (toHostForm source).toList, x.Proper := by
    rw [hhost]
    decide +kernel
  have hok : (compile (toHostForm source)).isOk = true := by
    rw [hhost]
    decide +kernel
  cases hp : compile (toHostForm source) with
  | error f => rw [hp] at hok; cases hok
  | ok p => exact ⟨p, hasync, hproper, rfl, checkEntryPoints_of_compile hasync hproper hp⟩

/-- **A sketch that compiles and does not pass the quick check**: for the grammar its first statement
ends behind the second comment end, for the scanner a string is open there. -/
theorem checkEntryPoints_passedBy :
    let source := "x /* a */ \" */;\nasync function setup()\x7b\x7d\nasync function loop()\x7b\x7d"
    ⟨.code, "async".toList⟩ ∉ scan source.toList ∧ (compile (toHostForm source)).isOk = true ∧
      checkEntryPoints source = .error .entryPointsUndeclared := by
  intro source
  have hhost : toHostForm source = source := by decide +kernel
  refine ⟨by decide +kernel, ?_, ?_⟩
  · rw [hhost]
    decide +kernel
  · rw [checkEntryPoints, if_neg (by decide +kernel)]

end Dialect
end LedSketch
