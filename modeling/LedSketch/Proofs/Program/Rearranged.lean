import LedSketch.Proofs.Program.Outcomes
import LedSketch.Proofs.Running.Rearranging
import LedSketch.Session.Rehearsal

/-!
# Programs whose functions are declared elsewhere

Functions may be moved inside the bodies that declare them, and no run of the program can tell: the
board is asked for the same, the sketch rests as long, the end is the same, and every name is bound
to the same value behind it. This holds for the statements of a program in any state that admits
them, and so for whole runs, which start with a memory without constants.

* `Eval.mirrorsAt_instantiate`: the top-level code of both runs alike, and so do their entry points.
* `Bench.runAlone_alike`: evaluations that run alike do the same to a bench.
* `Rehearsal.Step.Like`: steps that nobody can tell apart.
* `Compiled.runs_rearranged`: the theorem.
-/

namespace LedSketch

open Eval Running
open Node (Rearranges rearranges_of_perm)
open BoardFunctions (globalScope)
open Program (freshMemory)

variable {p p' : Compiled}

namespace Eval

theorem mirrors_entryPoint (name : String) :
    Mirrors (Program.entryPoint name) (Program.entryPoint name) := by
  refine mirrors_store_bind fun st st' hst => ?_
  rw [hst.get]
  refine (mirrors_ofComplaint _).bind fun v => ?_
  split
  · exact mirrors_pure _
  · exact mirrors_complain _

theorem mirrorsAt_instantiate (b : Binding) (h : Rearranges p.statements p'.statements) :
    MirrorsAt freshMemory freshMemory (Program.instantiate b p) (Program.instantiate b p') :=
  ((mirroring b stepBound).execBody globalScope h (.refl _) (admits_of_open open_freshMemory _)).bind
    fun _ => (mirrors_entryPoint "setup").bind fun _ => (mirrors_entryPoint "loop").bind fun _ =>
      mirrors_pure _

end Eval

/-- Evaluations that run alike do the same to a bench. -/
theorem Bench.runAlone_alike {α β : Type} {R : α → β → Prop} {x : Act α} {y : Act β}
    (h : Act.Alike R x y) (w : Wiring) (b : Bench) :
    R (b.runAlone w x).1 (b.runAlone w y).1 ∧ (b.runAlone w x).2 = (b.runAlone w y).2 := by
  induction h generalizing b with
  | done h => exact ⟨h, rfl⟩
  | ask r _ ih => exact ih _ _
  | rest nap _ ih => exact ih .rested _

namespace Rehearsal

/-- **Steps that nobody can tell apart**: they end alike, on the same bench, in memories that hold
the same. -/
structure Step.Like (s s' : Step) : Prop where
  name : s.name = s'.name
  result : s.result = s'.result
  memory : s.memory.Like s'.memory
  linesBefore : s.linesBefore = s'.linesBefore
  bench : s.bench = s'.bench

theorem callAll_like (b : Binding) (calls : List (String × EntryPoint)) {m m' : Memory}
    (hm : m.Like m') (bench : Bench) :
    List.Forall₂ Step.Like (callAll b calls m bench) (callAll b calls m' bench) := by
  induction calls generalizing m m' bench with
  | nil => exact .nil
  | cons call calls ih =>
    obtain ⟨name, e⟩ := call
    have alike := (mirroring b stepBound).callFunction e.home e.name [] m m' hm
    obtain ⟨⟨hr, hn⟩, hb⟩ := Bench.runAlone_alike alike {} bench
    exact .cons ⟨rfl, hr, hn, rfl, hb⟩ (hb ▸ ih hn _)

theorem steps_like (b : Binding) (h : Rearranges p.statements p'.statements) (loops : Nat)
    (bench : Bench) : List.Forall₂ Step.Like (steps p b loops bench) (steps p' b loops bench) := by
  obtain ⟨⟨hr, hm⟩, hb⟩ := Bench.runAlone_alike (mirrorsAt_instantiate b h) {} bench
  unfold steps
  generalize bench.runAlone {} ((Program.instantiate b p).runFrom freshMemory) = x at *
  generalize bench.runAlone {} ((Program.instantiate b p').runFrom freshMemory) = y at *
  obtain ⟨⟨r, m⟩, c⟩ := x
  obtain ⟨⟨r', m'⟩, c'⟩ := y
  subst hr hb
  cases r with
  | error i => exact .cons ⟨rfl, rfl, hm, rfl, rfl⟩ .nil
  | ok e => exact .cons ⟨rfl, rfl, hm, rfl, rfl⟩ (callAll_like b _ hm c)

end Rehearsal

/-- **Where a function is declared in its body makes no difference.** Two programs that differ only
by that run alike, whatever they are bound to and whatever is replied. From any memories that hold
the same and admit them, their statements ask and rest alike and end alike, and the memories hold the
same again; then so do all calls of functions. Top-level code starts in a fresh memory, which admits
every program, and so the two cannot be told apart by a rehearsal, on any bench. -/
theorem Compiled.runs_rearranged (h : Rearranges p.statements p'.statements) (b : Binding) :
    (∀ fuel scope m m', m.Like m' → Admits m.store scope p.statements →
      MirrorsAt m m' (execBody b fuel scope p.statements)
        (execBody b fuel scope p'.statements)) ∧
    (∀ fuel home name args,
      Mirrors (callFunction b fuel home name args) (callFunction b fuel home name args)) ∧
    MirrorsAt freshMemory freshMemory (Program.instantiate b p) (Program.instantiate b p') ∧
    ∀ loops bench, List.Forall₂ Rehearsal.Step.Like (Rehearsal.steps p b loops bench)
      (Rehearsal.steps p' b loops bench) :=
  ⟨fun fuel scope _ _ hm ha => (mirroring b fuel).execBody scope h hm ha,
    fun fuel => (mirroring b fuel).callFunction,
    mirrorsAt_instantiate b h, Rehearsal.steps_like b h⟩

/-- A function that is called before its declaration moves in front of the call, and so does one
inside `setup`. -/
theorem Compiled.runs_rearranged_greeting :
    let call (name : String) : Node := .exprStmt (some ⟨2, 1⟩)
      (.call (some ⟨2, 1⟩) (.identifier (some ⟨2, 1⟩) name) [])
    let greet : Node := .functionDecl (some ⟨1, 1⟩) "greet" [] (.block (some ⟨1, 18⟩) [
      .exprStmt (some ⟨1, 20⟩) (.call (some ⟨1, 20⟩) (.identifier (some ⟨1, 20⟩) "print")
        [.literal (some ⟨1, 26⟩) (.str "hello")])]) false
    let setup (body : List Node) : Node :=
      .functionDecl (some ⟨3, 1⟩) "setup" [] (.block (some ⟨3, 24⟩) body) true
    let loop : Node := .functionDecl (some ⟨4, 1⟩) "loop" [] (.block (some ⟨4, 23⟩) []) true
    let p : Compiled := ⟨"", [call "greet", greet, setup [call "greet", greet], loop]⟩
    let p' : Compiled := ⟨"", [greet, call "greet", loop, setup [greet, call "greet"]]⟩
    Rearranges p.statements p'.statements ∧
    (∀ fuel scope m m', m.Like m' → Admits m.store scope p.statements →
      MirrorsAt m m' (execBody {} fuel scope p.statements)
        (execBody {} fuel scope p'.statements)) ∧
    (∀ fuel home name args,
      Mirrors (callFunction {} fuel home name args) (callFunction {} fuel home name args)) ∧
    MirrorsAt freshMemory freshMemory (Program.instantiate {} p) (Program.instantiate {} p') ∧
    ∀ loops bench, List.Forall₂ Rehearsal.Step.Like (Rehearsal.steps p {} loops bench)
      (Rehearsal.steps p' {} loops bench) := by
  intro call greet setup loop p p'
  have inside : Rearranges [call "greet", greet] [greet, call "greet"] :=
    rearranges_of_perm (List.forall₂_same.mpr fun _ _ => .refl _) (.swap _ _ _) rfl (by decide)
  have setups : (setup [call "greet", greet]).Rearranged (setup [greet, call "greet"]) :=
    .functionDecl _ _ _ (inside.block _) _
  have outside : Rearranges p.statements p'.statements :=
    rearranges_of_perm (.cons (.refl _) (.cons (.refl _) (.cons setups (.cons (.refl _) .nil))))
      ((List.Perm.swap greet _ _).trans (.cons _ (.cons _ (.swap loop _ [])))) rfl (by decide)
  exact ⟨outside, Compiled.runs_rearranged outside {}⟩

end LedSketch
