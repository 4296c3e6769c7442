import LedSketch.Library.BoardFunctions

/-!
# Running programs

`exec` runs a statement and `evaluate` an expression. Statements of a body run in order, behind the
declarations of its functions. A block and the body of a function open a scope of their own, a `for`
loop one around its clauses and its body.

Every function takes a bound on the number of nested steps, and more of it never changes a result
that is not `spent`. Calls of sketch functions may be nested `callLimit` deep.

This is the evaluator of section 2 of the specification (`SPEC_FULL.md:67-69`).
-/

namespace LedSketch

open Eval

/-- How deep calls of sketch functions may be nested. -/
def callLimit : Nat := 400

/-- A bound on nested steps that no sketch reaches in practice. -/
def stepBound : Nat := 1000000000

namespace Running

/-- The name by which a report shows a callee that is no function of a sketch. -/
def calleeName (callee : Node) (f : Value) : String :=
  let host := f.hostName?.getD "<call>"
  match callee with
  | .identifier _ name | .member _ _ name | .functionDecl _ name .. =>
    if name.isEmpty then host else name
  | _ => host

/-- The word that says what is no function. -/
def refusedCallee (callee : Node) (f : Value) : Eval String :=
  match callee with
  | .identifier _ name => return name
  | _ => display f

/-- The statements of a body. -/
def bodyOf : Node → List Node
  | .block _ body | .program _ body => body
  | _ => []

/-- Declares the functions of a body. -/
def hoist (scope : ScopeRef) : List Node → Eval Unit
  | [] => return
  | .functionDecl _ name params body isAsync :: rest => do
    setStore (← ofComplaint ((← store).declareFunction scope name ⟨params, body, isAsync⟩))
    hoist scope rest
  | _ :: rest => hoist scope rest

/-- The result of a unary operator. -/
def unaryOperator (op : String) (v : Value) : Eval Value :=
  match op with
  | "!" => return .bool !v.truthy
  | "-" => return .num v.toNumber.neg
  | "+" => return .num v.toNumber
  | "~" => return .int (Word.complement v.toInt32)
  | "typeof" => return .str v.typeOf
  | _ => complain (.cannotEvaluate "Unary")

/-- The operator in front of the equals sign of a compound assignment. -/
def compoundOperator (op : String) : String := String.ofList op.toList.dropLast

/-- Binds the parameters of a call; missing arguments are null. -/
def bindParams (scope : ScopeRef) : List String → List Value → Eval Unit
  | [], _ => return
  | p :: ps, args => do
    setStore (← ofComplaint ((← store).declare scope p (args.headD .null) false))
    bindParams scope ps args.tail

/-- Declares a variable. -/
def declare (scope : ScopeRef) (name : String) (v : Value) (constant : Bool) : Eval Unit := do
  setStore (← ofComplaint ((← store).declare scope name v constant))

/-- Calls what is no function of a sketch. -/
def callHost (b : Binding) (fuel : Nat) (callee : Node) (f : Value) (args : List Value) :
    Eval Value :=
  match f with
  | .board g => BoardFunctions.call b fuel g args
  | .math g => Members.callMath g args
  | .listMember ref m _ => Members.callList ref m args
  | .textMember s m _ => Members.callText s m args
  | .toFixed n _ => Members.callToFixed n args
  | f => do complain (.notAFunction (← refusedCallee callee f))

variable (b : Binding)

mutual

/-- Runs a statement. -/
def exec : Nat → ScopeRef → Node → Eval Unit
  | 0, _, _ => throw .spent
  | fuel + 1, scope, s => inStatement s.loc (execPlain fuel scope s)

/-- Runs a statement without locating its errors. -/
def execPlain : Nat → ScopeRef → Node → Eval Unit
  | 0, _, _ => throw .spent
  | fuel + 1, scope, s =>
    match s with
    | .exprStmt _ e => do let _ ← evaluate fuel scope e
    | .varDecl _ kind ds => declareAll fuel scope (kind == "const") ds
    | .functionDecl .. | .empty _ => return
    | .block _ body => do execBody fuel (← newScope scope) body
    | .ifElse _ test yes no => do
      if (← evaluate fuel scope test).truthy then exec fuel scope yes
      else match no with
        | some no => exec fuel scope no
        | none => return
    | .forLoop _ init test update body => do
      let inner ← newScope scope
      match init with
      | some init => exec fuel inner init
      | none => pure ()
      forLoop fuel inner test update body
    | .whileLoop _ test body => whileLoop fuel scope test body
    | .doWhile _ body test => doLoop fuel scope test body
    | .returnStmt _ value => do
      match value with
      | none => throw (.returned .null)
      | some e => throw (.returned (← evaluate fuel scope e))
    | .breakStmt _ => throw .breakLoop
    | .continueStmt _ => throw .continueLoop
    | s => complain (.unknownStatement s.kindName)

/-- Runs a body: its functions are declared first. -/
def execBody : Nat → ScopeRef → List Node → Eval Unit
  | 0, _, _ => throw .spent
  | fuel + 1, scope, body => do
    hoist scope body
    execAll fuel scope (body.filter fun s => !s.isFunctionDecl)

/-- Runs statements in order. -/
def execAll : Nat → ScopeRef → List Node → Eval Unit
  | 0, _, _ => throw .spent
  | _ + 1, _, [] => return
  | fuel + 1, scope, s :: rest => do
    exec fuel scope s
    execAll fuel scope rest

/-- Runs the declarators of a declaration. -/
def declareAll : Nat → ScopeRef → Bool → List (String × Option Node) → Eval Unit
  | 0, _, _, _ => throw .spent
  | _ + 1, _, _, [] => return
  | fuel + 1, scope, constant, (name, init) :: rest => do
    let v ← match init with
      | some e => evaluate fuel scope e
      | none => pure .null
    declare scope name v constant
    declareAll fuel scope constant rest

/-- Runs a `for` loop behind its first clause. -/
def forLoop : Nat → ScopeRef → Option Node → Option Node → Node → Eval Unit
  | 0, _, _, _, _ => throw .spent
  | fuel + 1, scope, test, update, body => do
    let goes ← match test with
      | some e => pure (← evaluate fuel scope e).truthy
      | none => pure true
    if goes then
      if ← loopBody (exec fuel scope body) then
        match update with
        | some e => let _ ← evaluate fuel scope e
        | none => pure ()
        forLoop fuel scope test update body

/-- Runs a `while` loop. -/
def whileLoop : Nat → ScopeRef → Node → Node → Eval Unit
  | 0, _, _, _ => throw .spent
  | fuel + 1, scope, test, body => do
    if (← evaluate fuel scope test).truthy then
      if ← loopBody (exec fuel scope body) then
        whileLoop fuel scope test body

/-- Runs a `do` loop. -/
def doLoop : Nat → ScopeRef → Node → Node → Eval Unit
  | 0, _, _, _ => throw .spent
  | fuel + 1, scope, test, body => do
    if ← loopBody (exec fuel scope body) then
      if (← evaluate fuel scope test).truthy then
        doLoop fuel scope test body

/-- The value of an expression. -/
def evaluate : Nat → ScopeRef → Node → Eval Value
  | 0, _, _ => throw .spent
  | fuel + 1, scope, e =>
    match e with
    | .literal _ v => return v
    | .identifier _ name => do ofComplaint ((← store).get scope name)
    | .template _ parts => return .str (← templateText fuel scope parts)
    | .array _ items => do newList (← evaluateAll fuel scope items)
    | .unary _ op operand => do unaryOperator op (← evaluate fuel scope operand)
    | .binary _ op left right => do
      let x ← evaluate fuel scope left
      let y ← evaluate fuel scope right
      ofFault ((← store).binaryOperator op x y)
    | .logical _ op left right => do
      let x ← evaluate fuel scope left
      if (op == "&&") == x.truthy then evaluate fuel scope right else return x
    | .conditional _ test yes no => do
      if (← evaluate fuel scope test).truthy then evaluate fuel scope yes
      else evaluate fuel scope no
    | .assign _ op target value => do
      let v ←
        if op == "=" then evaluate fuel scope value
        else do
          let old ← evaluate fuel scope target
          let v ← evaluate fuel scope value
          ofFault ((← store).binaryOperator (compoundOperator op) old v)
      assign fuel scope target v
      return v
    | .update _ op before target => do
      let old := (← evaluate fuel scope target).toNumber
      let one : Number := .int 1
      let new ← ofMishap (if op == "++" then old.add one else old.sub one)
      assign fuel scope target (.num new)
      return .num (if before then new else old)
    | .call loc callee args => call fuel scope loc callee args false
    | .await _ (.call loc callee args) => call fuel scope loc callee args true
    | .await _ e => evaluate fuel scope e
    | .member _ object name => do Members.get (← evaluate fuel scope object) name
    | .index _ object key => do
      let container ← evaluate fuel scope object
      Members.element container (← evaluate fuel scope key)
    | e => complain (.cannotEvaluate e.kindName)

/-- The values of expressions, in order. -/
def evaluateAll : Nat → ScopeRef → List Node → Eval (List Value)
  | 0, _, _ => throw .spent
  | _ + 1, _, [] => return []
  | fuel + 1, scope, e :: rest => do
    let v ← evaluate fuel scope e
    return v :: (← evaluateAll fuel scope rest)

/-- The text of a template. -/
def templateText : Nat → ScopeRef → List (String ⊕ Node) → Eval String
  | 0, _, _ => throw .spent
  | _ + 1, _, [] => return ""
  | fuel + 1, scope, part :: rest => do
    let text ← match part with
      | .inl s => pure s
      | .inr e => display (← evaluate fuel scope e)
    return text ++ (← templateText fuel scope rest)

/-- Stores a value in a target. -/
def assign : Nat → ScopeRef → Node → Value → Eval Unit
  | 0, _, _, _ => throw .spent
  | fuel + 1, scope, target, v =>
    match target with
    | .identifier _ name => do setStore (← ofComplaint ((← store).assign scope name v))
    | .index _ object key => do
      match ← evaluate fuel scope object with
      | .list ref => Members.storeAt ref (← evaluate fuel scope key) v
      | w => complain (.indexedAssignment w.typeOf)
    | .member _ _ name => complain (.memberAssignment name)
    | _ => complain .badAssignmentTarget

/-- Runs a call, which may pause only if it is awaited. -/
def call : Nat → ScopeRef → Option Loc → Node → List Node → Bool → Eval Value
  | 0, _, _, _, _, _ => throw .spent
  | fuel + 1, scope, loc, callee, args, awaited => do
    let f ← evaluate fuel scope callee
    let vs ← evaluateAll fuel scope args
    match f with
    | .function home name => callFunction fuel home name vs
    | f =>
      let name := calleeName callee f
      withFrame ⟨name, vs⟩ do
        inCall name loc do
          if f = .board .delay && !awaited then complain (.cannotPauseHere name)
          callHost b fuel callee f vs

/-- Calls a function of a sketch. -/
def callFunction : Nat → ScopeRef → String → List Value → Eval Value
  | 0, _, _, _ => throw .spent
  | fuel + 1, home, name, args => do
    if callLimit ≤ (← get).calls.length then throw (.mishap .tooDeep)
    match (← store).closure? home name with
    | none => return .null
    | some c =>
      let inner ← newScope home
      bindParams inner c.params args
      withFrame ⟨name, args⟩ do
        returning (execBody fuel inner (bodyOf c.body))

end

end Running
end LedSketch
