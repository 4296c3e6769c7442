import LedSketch.Program.Compiled
import LedSketch.Running.Evaluate

/-!
# Instances of programs

An instance is a program whose top-level code has run against a board: its memory holds the globals,
and its entry points are the functions that the names `setup` and `loop` stand for afterwards.

`instantiate` makes the instance of section 3 of the specification (`SPEC_FULL.md:102-105`), and
`callEntry` calls its `setup` and `loop`.
-/

namespace LedSketch

/-- A function of a sketch: the scope that declares it, and its name there. -/
structure EntryPoint where
  home : ScopeRef
  name : String
deriving DecidableEq

instance : Inhabited EntryPoint := ⟨⟨0, ""⟩⟩

/-- The entry points of a program whose top-level code has run. -/
structure EntryPoints where
  setup : EntryPoint
  loop : EntryPoint
deriving DecidableEq

instance : Inhabited EntryPoints := ⟨⟨default, default⟩⟩

namespace Program

open Eval BoardFunctions

/-- A memory whose global scope holds the names that every sketch starts with. -/
def freshMemory : Memory := { store := storeWith globals }

/-- Runs top-level code. -/
def runTop (b : Binding) (statements : List Node) : Eval Unit :=
  Running.execBody b stepBound globalScope statements

/-- The function that a global name stands for. -/
def entryPoint (name : String) : Eval EntryPoint := do
  match ← ofComplaint ((← store).get globalScope name) with
  | .function home name => return ⟨home, name⟩
  | _ => complain (.entryPointReassigned name)

/-- Runs the top-level code of a program and finds its entry points. -/
def instantiate (b : Binding) (p : Compiled) : Eval EntryPoints := do
  runTop b p.statements
  return { setup := ← entryPoint "setup", loop := ← entryPoint "loop" }

/-- Calls an entry point. -/
def callEntry (b : Binding) (e : EntryPoint) : Eval Value :=
  Running.callFunction b stepBound e.home e.name []

end Program
end LedSketch
