import LedSketch.Proofs.Running.Abiding

/-!
# Runs that nobody reports on

A bare run is a run in which errors are neither located nor put in other words, and in which a call
that fails with an error stays among the active calls. It stops where the error is raised: what it
fails with is what was raised, and its memory shows which functions of the sketch, functions of the
library and attempted callees were active at that moment.

Bare runs are what the stacks of reported errors are measured by. In all other respects they are the
runs of `Running`.
-/

namespace LedSketch

/-- Runs with a call on top of the active ones, which stays there if it fails with an error. -/
def Eval.entering {α : Type} (f : Frame) (x : Eval α) : Eval α := ExceptT.mk do
  modify fun m => { m with calls := f :: m.calls }
  let r ← x.run
  match r with
  | .error (.sketch _) | .error (.mishap _) => pure ()
  | _ => modify fun m => { m with calls := m.calls.drop 1 }
  return r

namespace Running.Bare

open Eval

variable (b : Binding)

mutual

/-- Runs a statement. -/
def exec : Nat → ScopeRef → Node → Eval Unit
  | 0, _, _ => throw .spent
  | fuel + 1, scope, s => execPlain fuel scope s

/-- Runs a statement of a kind. -/
def execPlain : Nat → ScopeRef → Node → Eval Unit
  | 0, _, _ => throw .spent
  | fuel + 1, scope, s =>
    match s with
    | .exprStmt _ e => do let _ ← evaluate fuel scope e
    | .varDecl _ kind ds => declareAll fuel scope (kind == "const") ds
    | .functionDecl .. | .empty _ => return
    | .block _ body => do execBody fuel (← newScope scope) body
    | .ifElse _ test yes no => do
      if (← evaluate fuel scope test).truthy then exec fuel scope yes
      else match no with
        | some no => exec fuel scope no
        | none => return
    | .forLoop _ init test update body => do
      let inner ← newScope scope
      match init with
      | some init => exec fuel inner init
      | none => pure ()
      forLoop fuel inner test update body
    | .whileLoop _ test body => whileLoop fuel scope test body
    | .doWhile _ body test => doLoop fuel scope test body
    | .returnStmt _ value => do
      match value with
      | none => throw (.returned .null)
      | some e => throw (.returned (← evaluate fuel scope e))
    | .breakStmt _ => throw .breakLoop
    | .continueStmt _ => throw .continueLoop
    | s => complain (.unknownStatement s.kindName)

/-- Runs a body: its functions are declared first. -/
def execBody : Nat → ScopeRef → List Node → Eval Unit
  | 0, _, _ => throw .spent
  | fuel + 1, scope, body => do
    hoist scope body
    execAll fuel scope (body.filter fun s => !s.isFunctionDecl)

/-- Runs statements in order. -/
def execAll : Nat → ScopeRef → List Node → Eval Unit
  | 0, _, _ => throw .spent
  | _ + 1, _, [] => return
  | fuel + 1, scope, s :: rest => do
    exec fuel scope s
    execAll fuel scope rest

/-- Runs the declarators of a declaration. -/
def declareAll : Nat → ScopeRef → Bool → List (String × Option Node) → Eval Unit
  | 0, _, _, _ => throw .spent
  | _ + 1, _, _, [] => return
  | fuel + 1, scope, constant, (name, init) :: rest => do
    let v ← match init with
      | some e => evaluate fuel scope e
      | none => pure .null
    declare scope name v constant
    declareAll fuel scope constant rest

/-- Runs a `for` loop behind its first clause. -/
def forLoop : Nat → ScopeRef → Option Node → Option Node → Node → Eval Unit
  | 0, _, _, _, _ => throw .spent
  | fuel + 1, scope, test, update, body => do
    let goes ← match test with
      | some e => pure (← evaluate fuel scope e).truthy
      | none => pure true
    if goes then
      if ← Eval.loopBody (exec fuel scope body) then
        match update with
        | some e => let _ ← evaluate fuel scope e
        | none => pure ()
        forLoop fuel scope test update body

/-- Runs a `while` loop. -/
def whileLoop : Nat → ScopeRef → Node → Node → Eval Unit
  | 0, _, _, _ => throw .spent
  | fuel + 1, scope, test, body => do
    if (← evaluate fuel scope test).truthy then
      if ← Eval.loopBody (exec fuel scope body) then
        whileLoop fuel scope test body

/-- Runs a `do` loop. -/
def doLoop : Nat → ScopeRef → Node → Node → Eval Unit
  | 0, _, _, _ => throw .spent
  | fuel + 1, scope, test, body => do
    if ← Eval.loopBody (exec fuel scope body) then
      if (← evaluate fuel scope test).truthy then
        doLoop fuel scope test body

/-- The value of an expression. -/
def evaluate : Nat → ScopeRef → Node → Eval Value
  | 0, _, _ => throw .spent
  | fuel + 1, scope, e =>
    match e with
    | .literal _ v => return v
    | .identifier _ name => do ofComplaint ((← store).get scope name)
    | .template _ parts => return .str (← templateText fuel scope parts)
    | .array _ items => do newList (← evaluateAll fuel scope items)
    | .unary _ op operand => do unaryOperator op (← evaluate fuel scope operand)
    | .binary _ op left right => do
      let x ← evaluate fuel scope left
      let y ← evaluate fuel scope right
      ofFault ((← store).binaryOperator op x y)
    | .logical _ op left right => do
      let x ← evaluate fuel scope left
      if (op == "&&") == x.truthy then evaluate fuel scope right else return x
    | .conditional _ test yes no => do
      if (← evaluate fuel scope test).truthy then evaluate fuel scope yes
      else evaluate fuel scope no
    | .assign _ op target value => do
      let v ←
        if op == "=" then evaluate fuel scope value
        else do
          let old ← evaluate fuel scope target
          let v ← evaluate fuel scope value
          ofFault ((← store).binaryOperator (compoundOperator op) old v)
      assign fuel scope target v
      return v
    | .update _ op before target => do
      let old := (← evaluate fuel scope target).toNumber
      let one : Number := .int 1
      let new ← ofMishap (if op == "++" then old.add one else old.sub one)
      assign fuel scope target (.num new)
      return .num (if before then new else old)
    | .call _ callee args => call fuel scope callee args false
    | .await _ (.call _ callee args) => call fuel scope callee args true
    | .await _ e => evaluate fuel scope e
    | .member _ object name => do Members.get (← evaluate fuel scope object) name
    | .index _ object key => do
      let container ← evaluate fuel scope object
      Members.element container (← evaluate fuel scope key)
    | e => complain (.cannotEvaluate e.kindName)

/-- The values of expressions, in order. -/
def evaluateAll : Nat → ScopeRef → List Node → Eval (List Value)
  | 0, _, _ => throw .spent
  | _ + 1, _, [] => return []
  | fuel + 1, scope, e :: rest => do
    let v ← evaluate fuel scope e
    return v :: (← evaluateAll fuel scope rest)

/-- The text of a template. -/
def templateText : Nat → ScopeRef → List (String ⊕ Node) → Eval String
  | 0, _, _ => throw .spent
  | _ + 1, _, [] => return ""
  | fuel + 1, scope, part :: rest => do
    let text ← match part with
      | .inl s => pure s
      | .inr e => display (← evaluate fuel scope e)
    return text ++ (← templateText fuel scope rest)

/-- Stores a value in a target. -/
def assign : Nat → ScopeRef → Node → Value → Eval Unit
  | 0, _, _, _ => throw .spent
  | fuel + 1, scope, target, v =>
    match target with
    | .identifier _ name => do setStore (← ofComplaint ((← store).assign scope name v))
    | .index _ object key => do
      match ← evaluate fuel scope object with
      | .list ref => Members.storeAt ref (← evaluate fuel scope key) v
      | w => complain (.indexedAssignment w.typeOf)
    | .member _ _ name => complain (.memberAssignment name)
    | _ => complain .badAssignmentTarget

/-- Runs a call, which may pause only if it is awaited. -/
def call : Nat → ScopeRef → Node → List Node → Bool → Eval Value
  | 0, _, _, _, _ => throw .spent
  | fuel + 1, scope, callee, args, awaited => do
    let f ← evaluate fuel scope callee
    let vs ← evaluateAll fuel scope args
    match f with
    | .function home name => callFunction fuel home name vs
    | f =>
      let name := calleeName callee f
      entering ⟨name, vs⟩ do
        if f = .board .delay && !awaited then complain (.cannotPauseHere name)
        callHost b fuel callee f vs

/-- Calls a function of a sketch. -/
def callFunction : Nat → ScopeRef → String → List Value → Eval Value
  | 0, _, _, _ => throw .spent
  | fuel + 1, home, name, args => do
    if callLimit ≤ (← get).calls.length then throw (.mishap .tooDeep)
    match (← store).closure? home name with
    | none => return .null
    | some c =>
      let inner ← newScope home
      bindParams inner c.params args
      entering ⟨name, args⟩ do
        returning (execBody fuel inner (bodyOf c.body))

end

end Running.Bare
end LedSketch
