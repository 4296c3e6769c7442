import LedSketch.Program.Compiled
import LedSketch.Proofs.Grammar.Enough
import LedSketch.Proofs.Syntax.WrittenStatements

/-!
# Programs are read back

A program that obeys the static rules, written as host text, is read as the same program, places
aside.

* `reads_program`: the grammar takes the whole text.
* `parse_of_reads`: what the rule of programs reads as a whole is the tree of the source.
* `readHostForm_text`: the round trip.
-/

namespace LedSketch

namespace Grammar

open LedSketch.Tree

/-- What all runs with enough fuel come to is what more of it comes to. -/
theorem ComesTo.of_finished {p : Peg Rule} {c : Cursor} {o : Outcome} {n : Nat}
    (h : ComesTo p c o) (hn : run hostForm n p c ≠ .spent) : run hostForm n p c = o := by
  obtain ⟨k, hk⟩ := h
  have hfinished : (run hostForm n p c).finished = true := by
    cases hr : run hostForm n p c with
    | spent => exact absurd hr hn
    | got ts d => rfl
    | refused => rfl
  have more (j : Nat) : run hostForm (n + j) p c = run hostForm n p c := by
    induction j with
    | zero => rfl
    | succ j ih =>
      rw [← Nat.add_assoc, run_succ hostForm (n + j) p c (by rw [ih]; exact hfinished), ih]
  rw [← more k, hk (n + k) (Nat.le_add_left k n)]

/-- **A source that the rule of programs reads as a whole** has the tree that is built there. -/
theorem parse_of_reads {cs : List Char} {P : Tree → Prop}
    (h : Reads (.rule .program) cs [] [P]) : ∃ t, parse (String.ofList cs) = .ok t ∧ P t := by
  obtain ⟨ts, k, hrun, hk, hts⟩ := h (Cursor.start cs) rfl
  obtain ⟨t, rfl, ht⟩ := hts.one
  have hread : readProgram cs = .got [t] ((Cursor.start cs).advance k) :=
    hrun.of_finished (readProgram_ne_spent cs)
  have hrest : ((Cursor.start cs).advance k).rest = [] := (rest_advance ..).trans hk
  exact ⟨t, by simp only [parse, String.toList_ofList, hread, hrest]; rfl, ht⟩

end Grammar

namespace HostText

open Grammar LedSketch.Tree

variable {l : Option Loc} {body : List Node}

/-- **One expression with a semicolon** is read as a program. -/
theorem readHostForm_expression {cs : List Char} {x : Node} (hcs : Opens cs)
    (h : Reads (.rule .expression) cs [';'] [Means ⟨none, false⟩ x]) :
    ∃ n, readHostForm (String.ofList cs) = .ok n ∧
      n.unplaced = (Node.program none [.exprStmt none x]).unplaced := by
  have inner := h.cons ((reads_end []).cons (reads_nil []))
  have statement : Reads (.rule .expressionStatement) cs []
      [Means ⟨none, false⟩ (.exprStmt none x)] :=
    .rule ((inner.node "expr-stmt").mono fun _ => means_exprStmt)
  have item : Reads (.rule .item) cs [] [Means ⟨none, false⟩ (.exprStmt none x)] :=
    .rule ((reads_blank hcs.solid).cons
      ((reads_expressionStatement hcs statement).cons (reads_nil [])))
  have parts := (item.many stops_nil.item.many).cons
    ((reads_blank solid_nil).cons (reads_nil []))
  obtain ⟨t, hparse, ht⟩ := parse_of_reads (.rule (parts.node "program"))
  rw [readHostForm, hparse]
  exact elaborate_program ht

/-- The text of a program is read up to its end. -/
theorem reads_program {loose : Bool} (h : ∀ n ∈ body, Statement ⟨none, false⟩ n) :
    Reads (.rule .program) ((Node.program l body).text loose) []
      [Tagged "program" (body.map (Means ⟨none, false⟩))] := by
  have items := (reads_items (fun n hn => line_statement (h n hn) loose) stops_nil).1
  have parts := items.cons ((reads_blank solid_nil).cons (reads_nil []))
  rw [List.append_nil, List.nil_append, List.append_nil] at parts
  exact .rule (parts.node "program")

/-- **A program that obeys the static rules is read back** from its text, places aside. -/
theorem readHostForm_text {program : Node} (h : Program program) (loose : Bool) :
    ∃ n, readHostForm (String.ofList (program.text loose)) = .ok n ∧
      n.unplaced = program.unplaced := by
  obtain @⟨l, body, h⟩ := h
  have hreads : Reads _ ((Node.program l body).text loose) [] _ := reads_program h
  obtain ⟨t, hparse, ht⟩ := parse_of_reads hreads
  rw [readHostForm, hparse]
  exact elaborate_program ht

/-- An entry point that waits while there is something left, and says how far it came. -/
def waitingProgram : Node :=
  .program none [.functionDecl none "setup" [] (.block none [
    .whileLoop none (.identifier none "left") (.block none [
      .exprStmt none (.await none (.call none (.identifier none "delay")
        [.literal none (.num (.int 50))])),
      .ifElse none (.unary none "!" (.identifier none "left")) (.block none [.breakStmt none])
        none]),
    .returnStmt none (some (.template none [.inl "at ", .inr (.identifier none "left")]))]) true]

theorem readHostForm_waitingProgram : Program waitingProgram ∧
    ∃ n, readHostForm (String.ofList (waitingProgram.text false)) = .ok n ∧
      n.unplaced = waitingProgram.unplaced := by
  have program : Program waitingProgram := by
    have left : Expression true (.identifier none "left") :=
      .identifier ⟨by decide, by decide⟩
    have delay : Expression true (.identifier none "delay") :=
      .identifier ⟨by decide, by decide⟩
    have fifty : Expression true (.literal none (.num (.int 50))) :=
      .literal (.number 50 (by decide))
    have wait : Statement ⟨some true, true⟩ (.exprStmt none (.await none _)) :=
      .plain (.expression (.await rfl (.call (l := none) delay
        (List.forall_mem_singleton.mpr fifty))))
    have leave : Statement ⟨some true, true⟩
        (.ifElse none (.unary none "!" _) (.block none _) none) :=
      .ifThen (.unary (by decide) left) (List.forall_mem_singleton.mpr (.breakStmt (l := none) rfl))
    have turn : Statement ⟨some true, false⟩ (.whileLoop none _ (.block none _)) :=
      .whileLoop left (List.forall_mem_cons.mpr ⟨wait, List.forall_mem_singleton.mpr leave⟩)
    have place : Expression true (.template none [.inl "at ", .inr (.identifier none "left")]) :=
      .template (by simp [Chunked]) (by simpa using left)
    have answer : Statement ⟨some true, false⟩ (.returnStmt none (some _)) :=
      .returnStmt nofun fun n hn => Option.mem_some_iff.mp hn ▸ place
    exact .intro (List.forall_mem_singleton.mpr
      (.functionDecl ⟨by decide, by decide⟩ nofun
        (List.forall_mem_cons.mpr ⟨turn, List.forall_mem_singleton.mpr answer⟩)))
  exact ⟨program, readHostForm_text program false⟩

end HostText
end LedSketch
