import LedSketch.Grammar.HostForm
import LedSketch.Syntax.Elaborate
import LedSketch.Dialect.Words
import LedSketch.Store.Basic

/-!
# Compiled programs

A compiled program is the elaborated tree of a source in host form that declares both entry points
as async functions without parameters.

`compile` is what section 2 of the specification calls parse, transform and validate
(`SPEC_FULL.md:87-90`); the entry points it asks for are those of section 6
(`SPEC_FULL.md:260-261`).

* `compile` — parses, elaborates and validates a source;
* `compile_source` — a compiled program remembers the source it was made from.
-/

namespace LedSketch

/-- A declared function: its parameters, whether it is async, and where it is declared. -/
structure Signature where
  params : List String
  isAsync : Bool
  loc : Option Loc

/-- The functions that statements declare, by name; the last one of a name wins. -/
def declaredFunctions (statements : List Node) : List (String × Signature) :=
  statements.foldl (fun found s => match s with
    | .functionDecl loc name params _ isAsync => putPair name ⟨params, isAsync, loc⟩ found
    | _ => found) []

/-- A validated program and the source it was made from. -/
structure Compiled where
  source : String
  statements : List Node

namespace Compiled

instance : Inhabited Compiled := ⟨⟨"", []⟩⟩

/-- A description of a compiled program. -/
def describe (p : Compiled) : String := s!"<CompiledProgram statements={p.statements.length}>"

/-- Whether a function can be an entry point of the given name. -/
def checkEntryPoint (functions : List (String × Signature)) (name : String) : Except Fault Unit :=
  match functions.lookup name with
  | none => .error (.sketch { complaint := .entryPointsUndefined })
  | some f =>
    let place := f.loc.map Loc.place
    if !f.params.isEmpty then
      .error (.sketch { complaint := .entryPointTakesParameters name, place })
    else if !f.isAsync then .error (.sketch { complaint := .entryPointNotVoid name, place })
    else .ok ()

end Compiled

/-- The elaborated tree of a source in host form. -/
def readHostForm (source : String) : Except Fault Node :=
  match Grammar.parse source with
  | .error problem => .error (.sketch { complaint := .syntaxProblem problem.text })
  | .ok tree => tree.elaborate

/-- Compiles a source in host form. -/
def compile (source : String) : Except Fault Compiled := do
  let statements := (← readHostForm source).statements
  let functions := declaredFunctions statements
  if Dialect.entryPoints.any fun name => (functions.lookup name).isNone then
    throw (.sketch { complaint := .entryPointsUndefined })
  Dialect.entryPoints.forM (Compiled.checkEntryPoint functions)
  return ⟨source, statements⟩

theorem compile_source {source : String} {p : Compiled} (h : compile source = .ok p) :
    p.source = source := by
  simp only [compile, bind, Except.bind, pure, Except.pure] at h
  grind

end LedSketch
