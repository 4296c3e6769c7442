/-!
# Nesting of braces and function bodies

While a sketch is read from left to right, `Nesting` counts its open braces and remembers which of
them opened function bodies, so that it can answer whether the place reached may suspend.

A declaration is *pending* until the next ordinary brace opens its body. An interpolation inside a
template counts as an open brace, but it never opens a pending body.

This is the context tracker of section 4.2 of the specification (`SPEC_FULL.md:139-157`), and a
`Body` is one of its function contexts (`SPEC_FULL.md:98-100`).

* `bodies_closeBrace` — closing a brace leaves exactly the bodies entered at or below the new depth
  on top of the stack.
-/

namespace LedSketch.Scan

/-- A function body that is open: whether it may suspend, and the depth just inside its brace. -/
structure Body where
  suspendable : Bool
  entryDepth : Nat
deriving DecidableEq, Repr

/-- Open braces and open function bodies, the innermost body first. -/
structure Nesting where
  depth : Nat := 0
  bodies : List Body := []
  /-- A declaration whose body has not been opened yet, and whether that body may suspend. -/
  pending : Option Bool := none
deriving DecidableEq, Repr

namespace Nesting

/-- Whether the innermost open function body may suspend. -/
def suspendable (n : Nesting) : Bool :=
  match n.bodies with
  | [] => false
  | b :: _ => b.suspendable

/-- A function declaration was met; its body comes next. -/
def declare (n : Nesting) (suspendable : Bool) : Nesting :=
  { n with pending := some suspendable }

/-- The pending declaration was a prototype without a body. -/
def cancelPending (n : Nesting) : Nesting := { n with pending := none }

/-- An ordinary brace opens; it is the body of the pending declaration, if there is one. -/
def openBrace (n : Nesting) : Nesting :=
  match n.pending with
  | some s => { depth := n.depth + 1, bodies := ⟨s, n.depth + 1⟩ :: n.bodies, pending := none }
  | none => { n with depth := n.depth + 1 }

/-- An interpolation opens inside a template. -/
def openInterpolation (n : Nesting) : Nesting := { n with depth := n.depth + 1 }

/-- A brace closes, and with it every body that was entered deeper than what remains. -/
def closeBrace (n : Nesting) : Nesting :=
  { n with
    depth := n.depth - 1
    bodies := n.bodies.dropWhile fun b => n.depth - 1 < b.entryDepth }

@[simp] theorem depth_openBrace (n : Nesting) : n.openBrace.depth = n.depth + 1 := by
  unfold openBrace; split <;> rfl

@[simp] theorem depth_openInterpolation (n : Nesting) :
    n.openInterpolation.depth = n.depth + 1 := rfl

@[simp] theorem depth_closeBrace (n : Nesting) : n.closeBrace.depth = n.depth - 1 := rfl

theorem bodies_closeBrace (n : Nesting) :
    n.closeBrace.bodies = n.bodies.dropWhile fun b => n.closeBrace.depth < b.entryDepth := rfl

/-! ## Description -/

private def boolWord (b : Bool) : String := if b then "True" else "False"

/-- One line that shows the whole state, the outermost body first. -/
def describe (n : Nesting) : String :=
  let body (b : Body) :=
    s!"FunctionContext(is_suspendable={boolWord b.suspendable}, "
      ++ s!"brace_depth_at_entry={b.entryDepth})"
  let bodies := ", ".intercalate (n.bodies.reverse.map body)
  let pending := match n.pending with
    | none => "None"
    | some b => boolWord b
  s!"<ContextTracker depth={n.depth} stack=[{bodies}] pending={pending}>"

end Nesting
end LedSketch.Scan
