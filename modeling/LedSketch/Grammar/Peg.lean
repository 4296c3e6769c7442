import LedSketch.Grammar.Lexeme
import LedSketch.Syntax.Tree

/-!
# Parsing expressions

A grammar is a table of parsing expressions: lexemes, sequences, ordered choice, greedy repetition,
options and references to rules. Marked expressions build trees. Choice commits to the first
alternative that fits, and repetition does not give back what it took.

Running an expression needs fuel, since rules may refer to each other; running out of it is an
outcome of its own and never mistaken for a refusal.

These are the forms in which `grammar/lumalab_grammar.yaml` writes its rules: `sequence`, `choice`,
`zero_or_more`, `optional`, `regex`, `literal` and `rule`, with `tag`, `leaf`, `discard` and
`promote` for the trees.

* `run_succ` — more fuel keeps a finished outcome.
-/

namespace LedSketch.Grammar

/-- A parsing expression over rules named by `ρ`. -/
inductive Peg (ρ : Type) where
  | token (lexeme : Lexeme)
  | seq (parts : List (Peg ρ))
  | choice (alternatives : List (Peg ρ))
  | many (part : Peg ρ)
  | optional (part : Peg ρ)
  | rule (name : ρ)
  /-- Builds a node of what the part builds. -/
  | node (tag : String) (part : Peg ρ)
  /-- Builds a leaf of the text that the part takes. -/
  | leaf (tag : String) (part : Peg ρ)
  /-- Builds nothing. -/
  | drop (part : Peg ρ)

/-- A place in a source: what is left, how much was taken, and the line and column. -/
structure Cursor where
  rest : List Char
  offset : Nat
  line : Nat
  col : Nat

namespace Cursor

/-- The start of a source. -/
def start (source : List Char) : Cursor := ⟨source, 0, 1, 1⟩

/-- Moves on by some characters; only a line feed starts a line. -/
def advance : Nat → Cursor → Cursor
  | 0, c => c
  | _ + 1, ⟨[], offset, line, col⟩ => ⟨[], offset, line, col⟩
  | n + 1, ⟨c :: cs, offset, line, col⟩ =>
    if c = '\n' then advance n ⟨cs, offset + 1, line + 1, 1⟩
    else advance n ⟨cs, offset + 1, line, col + 1⟩

/-- The text from a place up to a later one. -/
def upTo (c d : Cursor) : String := String.ofList (c.rest.take (d.offset - c.offset))

/-- The mark of a tree from a place up to a later one. -/
def mark (c d : Cursor) (tag : String) : Mark := ⟨tag, some (c.upTo d), some c.line, some c.col⟩

end Cursor

/-- The outcome of running an expression. -/
inductive Outcome where
  | got (trees : List Tree) (next : Cursor)
  | refused
  | spent

namespace Outcome

/-- Goes on behind a match, with the trees of both. -/
def andThen (o : Outcome) (f : Cursor → Outcome) : Outcome :=
  match o with
  | got ts c => match f c with
    | got us d => got (ts ++ us) d
    | refused => refused
    | spent => spent
  | refused => refused
  | spent => spent

/-- Builds trees of a match. -/
def build (o : Outcome) (f : List Tree → Cursor → List Tree) : Outcome :=
  match o with
  | got ts c => got (f ts c) c
  | refused => refused
  | spent => spent

end Outcome

variable {ρ : Type}

mutual

/-- Runs an expression at a place. -/
def run (g : ρ → Peg ρ) : Nat → Peg ρ → Cursor → Outcome
  | 0, _, _ => .spent
  | _ + 1, .token m, c => match m c.rest with
    | some n => .got [] (c.advance n)
    | none => .refused
  | fuel + 1, .seq parts, c => runSeq g fuel parts c
  | fuel + 1, .choice alternatives, c => runChoice g fuel alternatives c
  | fuel + 1, .many part, c => match run g fuel part c with
    | .got ts d => (run g fuel (.many part) d).build fun us _ => ts ++ us
    | .refused => .got [] c
    | .spent => .spent
  | fuel + 1, .optional part, c => match run g fuel part c with
    | .refused => .got [] c
    | o => o
  | fuel + 1, .rule name, c => run g fuel (g name) c
  | fuel + 1, .node tag part, c =>
    (run g fuel part c).build fun ts d => [.node (c.mark d tag) ts]
  | fuel + 1, .leaf tag part, c => (run g fuel part c).build fun _ d => [.leaf (c.mark d tag)]
  | fuel + 1, .drop part, c => (run g fuel part c).build fun _ _ => []

/-- Runs the parts of a sequence one after the other. -/
def runSeq (g : ρ → Peg ρ) : Nat → List (Peg ρ) → Cursor → Outcome
  | 0, _, _ => .spent
  | _ + 1, [], c => .got [] c
  | fuel + 1, p :: ps, c => (run g fuel p c).andThen (runSeq g fuel ps)

/-- Runs the first alternative that fits. -/
def runChoice (g : ρ → Peg ρ) : Nat → List (Peg ρ) → Cursor → Outcome
  | 0, _, _ => .spent
  | _ + 1, [], _ => .refused
  | fuel + 1, p :: ps, c => match run g fuel p c with
    | .refused => runChoice g fuel ps c
    | o => o

end

/-- Whether an outcome is not for want of fuel. -/
def Outcome.finished : Outcome → Bool
  | .spent => false
  | _ => true

theorem run_succ_aux (g : ρ → Peg ρ) (n : Nat) :
    (∀ p c, (run g n p c).finished = true → run g (n + 1) p c = run g n p c) ∧
    (∀ ps c, (runSeq g n ps c).finished = true → runSeq g (n + 1) ps c = runSeq g n ps c) ∧
    (∀ ps c, (runChoice g n ps c).finished = true →
      runChoice g (n + 1) ps c = runChoice g n ps c) := by
  induction n with
  | zero => simp [run, runSeq, runChoice, Outcome.finished]
  | succ n ih =>
    obtain ⟨hr, hs, hc⟩ := ih
    refine ⟨fun p c h => ?_, fun ps c h => ?_, fun ps c h => ?_⟩
    · cases p with
      | token m => rfl
      | seq parts => exact hs _ _ h
      | choice alternatives => exact hc _ _ h
      | many part =>
        rw [run] at h ⊢
        rw [run]
        cases hp : run g n part c with
        | got ts d =>
          rw [hp] at h
          rw [hr part c (by rw [hp]; rfl), hp]
          dsimp only at h ⊢
          cases hm : run g n (.many part) d with
          | got us e => rw [hr _ d (by rw [hm]; rfl), hm]
          | refused => rw [hr _ d (by rw [hm]; rfl), hm]
          | spent => simp [hm, Outcome.build, Outcome.finished] at h
        | refused => rw [hr part c (by rw [hp]; rfl), hp]
        | spent => simp [hp, Outcome.finished] at h
      | optional part =>
        rw [run] at h ⊢
        rw [run]
        cases hp : run g n part c with
        | got ts d => rw [hr part c (by rw [hp]; rfl), hp]
        | refused => rw [hr part c (by rw [hp]; rfl), hp]
        | spent => simp [hp, Outcome.finished] at h
      | rule name => exact hr _ _ h
      | node tag part =>
        rw [run] at h ⊢
        rw [run, hr part c]
        cases hp : run g n part c <;> simp_all [Outcome.build, Outcome.finished]
      | leaf tag part =>
        rw [run] at h ⊢
        rw [run, hr part c]
        cases hp : run g n part c <;> simp_all [Outcome.build, Outcome.finished]
      | drop part =>
        rw [run] at h ⊢
        rw [run, hr part c]
        cases hp : run g n part c <;> simp_all [Outcome.build, Outcome.finished]
    · cases ps with
      | nil => rfl
      | cons p ps =>
        rw [runSeq] at h ⊢
        rw [runSeq]
        cases hp : run g n p c with
        | got ts d =>
          rw [hp] at h
          rw [hr p c (by rw [hp]; rfl), hp]
          simp only [Outcome.andThen] at h ⊢
          cases hm : runSeq g n ps d with
          | got us e => rw [hs ps d (by rw [hm]; rfl), hm]
          | refused => rw [hs ps d (by rw [hm]; rfl), hm]
          | spent => simp [hm, Outcome.finished] at h
        | refused => rw [hr p c (by rw [hp]; rfl), hp]; rfl
        | spent => simp [hp, Outcome.andThen, Outcome.finished] at h
    · cases ps with
      | nil => rfl
      | cons p ps =>
        rw [runChoice] at h ⊢
        rw [runChoice]
        cases hp : run g n p c with
        | got ts d => rw [hr p c (by rw [hp]; rfl), hp]
        | refused =>
          rw [hp] at h
          rw [hr p c (by rw [hp]; rfl), hp]
          exact hc ps c h
        | spent => simp [hp, Outcome.finished] at h

/-- More fuel keeps a finished outcome. -/
theorem run_succ (g : ρ → Peg ρ) (n : Nat) (p : Peg ρ) (c : Cursor)
    (h : (run g n p c).finished = true) : run g (n + 1) p c = run g n p c :=
  (run_succ_aux g n).1 p c h

end LedSketch.Grammar
