import LedSketch.Running.Act
import LedSketch.Store.Operators

/-!
# Evaluation

What evaluation carries along, and the ways in which it ends early. The memory holds the store and
the calls that are active, the innermost first; it survives an early end, so what a sketch did
before an error stays done.

This is the state of the evaluator of section 2 of the specification (`SPEC_FULL.md:67-69`): its
scopes and its frames.

* `Eval.withFrame` — a call is active exactly while its body runs;
* `Eval.inStatement`, `Eval.inCall` — errors get their place and their stack from the innermost
  statement or call that meets them.
-/

namespace LedSketch

/-- Why evaluation ends early. -/
inductive Interrupt where
  | sketch (e : SketchError)
  | mishap (m : Mishap)
  /-- The session is not current any more. -/
  | unwind
  | cancelled
  | breakLoop
  | continueLoop
  | returned (v : Value)
  /-- The bound on the number of steps is reached. -/
  | spent
deriving DecidableEq

/-- The store and the active calls, the innermost first. -/
structure Memory where
  store : Store := {}
  calls : List Frame := []

instance : Inhabited Memory := ⟨{}⟩

/-- Evaluation may end early, changes the memory, and asks the board. -/
abbrev Eval := ExceptT Interrupt (StateT Memory Act)

/-- What a sketch is bound to, as far as its library needs to know. -/
structure Binding where
  startedAt : Float := 0.0
  yieldsOnZeroDelay : Bool := true

namespace Eval

/-- Runs an evaluation from a memory. -/
def runFrom {α : Type} (x : Eval α) (m : Memory) : Act (Except Interrupt α × Memory) := x.run.run m

/-- Asks the board. -/
def ask (r : Request) : Eval r.Reply := ExceptT.lift fun m => .ask r fun reply => .done (reply, m)

/-- Rests. -/
def rest (nap : Nap) : Eval Unit := do
  match ← (ExceptT.lift fun m => .rest nap fun wake => .done (wake, m) : Eval Wake) with
  | .rested => pure ()
  | .cancelled => throw .cancelled

/-- The store. -/
def store : Eval Store := return (← get).store

/-- Replaces the store. -/
def setStore (st : Store) : Eval Unit := modify fun m => { m with store := st }

/-- Ends early with a complaint. -/
def complain {α : Type} (c : Complaint) : Eval α := throw (.sketch { complaint := c })

/-- Goes on with a result that a mishap may have prevented. -/
def ofMishap {α : Type} : Except Mishap α → Eval α
  | .ok a => pure a
  | .error m => throw (.mishap m)

/-- Goes on with a result that a complaint may have prevented. -/
def ofComplaint {α : Type} : Except Complaint α → Eval α
  | .ok a => pure a
  | .error c => complain c

/-- Goes on with a result that a fault may have prevented. -/
def ofFault {α : Type} : Except Fault α → Eval α
  | .ok a => pure a
  | .error (.sketch e) => throw (.sketch e)
  | .error (.mishap m) => throw (.mishap m)

/-- A fresh token. -/
def freshToken : Eval Nat := do
  let (token, st) := (← store).freshToken
  setStore st
  return token

/-- A new list. -/
def newList (vs : List Value) : Eval Value := do
  let (ref, st) := (← store).newList vs
  setStore st
  return .list ref

/-- A new scope within another one. -/
def newScope (parent : ScopeRef) : Eval ScopeRef := do
  let (ref, st) := (← store).newScope (some parent)
  setStore st
  return ref

/-- How a sketch shows a value. -/
def display (v : Value) : Eval String := do ofMishap ((← store).display v)

/-- Ends early if the session is not current any more. -/
def checkLive : Eval Unit := do
  let live : Bool ← ask .isLive
  if live then return () else throw .unwind

/-- Goes on with what the board replied. -/
def granted {α : Type} : Except Denial α → Eval α
  | .ok a => pure a
  | .error .dead => throw .unwind
  | .error (.refused r) => do complain (← ofMishap (r.complaint (← store)))

/-- Runs with a call on top of the active ones. -/
def withFrame {α : Type} (f : Frame) (x : Eval α) : Eval α := ExceptT.mk do
  modify fun m => { m with calls := f :: m.calls }
  let r ← x.run
  modify fun m => { m with calls := m.calls.drop 1 }
  return r

/-- Ends early with an error located at a node, unless it has been located before. -/
def throwAt {α : Type} (loc : Option Loc) (e : SketchError) : Eval α := do
  throw (.sketch (e.locate loc (← get).calls.reverse))

/-- Runs as a statement, which locates errors and reports mishaps. -/
def inStatement {α : Type} (loc : Option Loc) (x : Eval α) : Eval α :=
  tryCatch x fun
    | .sketch e => throwAt loc e
    | .mishap .tooDeep => throwAt loc { complaint := .stackExceeded }
    | .mishap m => throwAt loc { complaint := .mishapInStatement m }
    | i => throw i

/-- Runs as a call of a library function, which locates errors and reports mishaps. -/
def inCall {α : Type} (name : String) (loc : Option Loc) (x : Eval α) : Eval α :=
  tryCatch x fun
    | .sketch e => throwAt loc e
    | .mishap m => throwAt loc { complaint := .mishapInCall name m }
    | i => throw i

/-- Runs the body of a loop once; the answer says whether the loop goes on. -/
def loopBody (x : Eval Unit) : Eval Bool :=
  tryCatch (do x; return true) fun
    | .breakLoop => return false
    | .continueLoop => return true
    | i => throw i

/-- Runs the body of a function up to its return. -/
def returning (x : Eval Unit) : Eval Value :=
  tryCatch (do x; return .null) fun
    | .returned v => return v
    | i => throw i

end Eval
end LedSketch
