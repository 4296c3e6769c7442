import LedSketch.Fault.SketchError
import LedSketch.Syntax.Escape
import LedSketch.Syntax.Tree

/-!
# From trees to programs

`Tree.elaborate` turns a tagged tree into a program and enforces the static rules of the host form
on the way: `await` only in async functions, `return` only in functions, `break` and `continue` only
in loops, assignable targets, and initialised constants. It visits the tree in the order of the
source, so the first violation is the one reported; a tree that no grammar yields is reported as a
mishap. The words of the tree are those of the program: of a source strings, of a tree from outside
any data, of which only strings can be numerals, literals and chunks of templates.

This is the transformer of section 2 of the specification (`SPEC_FULL.md:61-66`).
-/

namespace LedSketch

/-- What encloses a node: for each function whether it is async, the innermost first, and the number
of loops within the innermost one. -/
structure Enclosing where
  functions : List Bool := []
  loops : Int := 0

/-- Elaboration may fail, and keeps track of what encloses the node at hand. -/
abbrev Elab := StateT Enclosing (Except Fault)

namespace Elab

variable {ω : Type}

/-- Takes over a reading of a tree. -/
def reading {α : Type} (r : Except Mishap α) : Elab α :=
  match r with
  | .ok a => pure a
  | .error m => throw (.mishap m)

/-- Fails because a static rule is violated at a tree. -/
def refuse {α : Type} (complaint : Complaint) (t : Tree ω) : Elab α := do
  let (line, col) ← reading t.position
  throw (.sketch { complaint, place := some ⟨line, col⟩ })

/-- The element at a place of a list. -/
def element (ts : List (Tree ω)) (i : Nat) : Elab (Tree ω) :=
  match ts[i]? with
  | some t => pure t
  | none => throw (.mishap .noSuchElement)

/-- Exactly two elements. -/
def two (ts : List (Tree ω)) : Elab (Tree ω × Tree ω) :=
  match ts with
  | [a, b] => pure (a, b)
  | [] => throw (.mishap (.tooFew "2" 0))
  | [_] => throw (.mishap (.tooFew "2" 1))
  | _ => throw (.mishap (.tooMany 2))

/-- The place of a tree, if it gives both line and column. -/
def locOf (t : Tree ω) : Option Loc :=
  match t.position with
  | .ok (some line, some col) => some ⟨line, col⟩
  | _ => none

/-- The value of a numeral. -/
def numeral (s : String) : Elab Value := do
  return .num (← reading (Number.ofNumeral s))

/-- Runs inside a loop. -/
def inLoop {α : Type} (x : Elab α) : Elab α := do
  modify fun e => { e with loops := e.loops + 1 }
  let a ← x
  modify fun e => { e with loops := e.loops - 1 }
  return a

/-- Runs inside a function body, whose loops are counted on their own. -/
def inFunction {α : Type} (isAsync : Bool) (x : Elab α) : Elab α := do
  let saved := (← get).loops
  modify fun e => { functions := isAsync :: e.functions, loops := 0 }
  let a ← x
  match (← get).functions with
  | [] => throw (.mishap .emptyPop)
  | _ :: rest => set ({ functions := rest, loops := saved } : Enclosing)
  return a

/-- Refuses a target that cannot be assigned to. -/
def checkTarget (target : Node ω) (what : String) (t : Tree ω) : Elab Unit :=
  if target.isAssignable then pure () else refuse (.invalidTarget what) t

/-- The node of a binary operator. -/
def binaryNode [Wording ω] (loc : Option Loc) (op : ω) (left right : Node ω) : Node ω :=
  if Wording.spells op "&&" || Wording.spells op "||" then .logical loc op left right
  else .binary loc op left right

/-- The node of a binary operator; where only commas separate, of a comma. -/
def tailNode [Wording ω] (commas : Bool) (loc : Option Loc) (op : ω) (left right : Node ω) :
    Node ω :=
  if commas then .binary loc (Wording.ofString ",") left right else binaryNode loc op left right

/-- What stands in front of a loop: a declaration, or an expression as a statement. -/
def asStatement (loc : Option Loc) : Node ω → Node ω
  | .varDecl l kind ds => .varDecl l kind ds
  | n => .exprStmt loc n

/-- What refuses a text that is no string where a literal is to be cut out of it. -/
def notCut : Datum → Mishap
  | .list items => .noText (Datum.list items).typeName
  | .row items => .noText (Datum.row items).typeName
  | .map _ => .unhashable "slice"
  | d => .notIndexed d.typeName

/-- The text of a string literal without its quotes. -/
def unquoted (s : String) : String := String.ofList (s.toList.drop 1).dropLast

end Elab

open Elab

variable {ω : Type} [Wording ω]

mutual

/-- Elaborates a tree of at most `fuel` levels. -/
def elaborateWithin : Nat → Tree ω → Elab (Node ω)
  | 0, _ => throw (.mishap .tooDeep)
  | _ + 1, .foreign (.map entries) children =>
    match Datum.lookup? "tag" entries with
    | some tag => do
      let _ ← reading (Tree.foreign (.map entries) children).children
      throw (.mishap (.unknownTag tag.shown))
    | none => throw (.mishap (.notATree (Datum.map entries).shown))
  | _ + 1, .foreign d _ => throw (.mishap (.notATree d.shown))
  | fuel + 1, t => do
    let tag ← reading t.tag
    let children ← reading t.children
    let loc := locOf t
    match tag with
    | "program" =>
      set ({} : Enclosing)
      return .program loc (← elaborateAll fuel children)
    | "block" => return .block loc (← elaborateAll fuel children)
    | "var-decl" =>
      let kind ← reading (← element children 0).text
      return .varDecl loc kind (← declarators fuel kind (children.drop 1))
    | "function-decl" => functionDecl fuel loc children
    | "expr-stmt" => return .exprStmt loc (← child fuel children 0)
    | "if" =>
      let no ← match children.drop 2 with
        | [] => pure none
        | e :: _ => do pure (some (← child fuel (← reading e.children) 0))
      let test ← child fuel children 0
      return .ifElse loc test (← child fuel children 1) no
    | "for" => forLoop fuel loc children
    | "while" =>
      let test ← child fuel children 0
      return .whileLoop loc test (← loopBody fuel (← element children 1))
    | "do-while" =>
      let body ← loopBody fuel (← element children 0)
      return .doWhile loc body (← child fuel children 1)
    | "return" =>
      if (← get).functions.isEmpty then refuse .illegalReturn t
      match children with
      | [] => return .returnStmt loc none
      | c :: _ => return .returnStmt loc (some (← elaborateWithin fuel c))
    | "break" =>
      if (← get).loops = 0 then refuse (.illegalJump tag) t
      return .breakStmt loc
    | "continue" =>
      if (← get).loops = 0 then refuse (.illegalJump tag) t
      return .continueStmt loc
    | "empty" => return .empty loc
    | "number" =>
      let word ← reading (t.string fun d => .noMember d.typeName "lower")
      return .literal loc (← numeral word)
    | "boolean" => return .literal loc (.bool (Wording.spells (← reading t.text) "true"))
    | "null" | "undefined" => return .literal loc .null
    | "string" =>
      let word ← reading (t.string notCut)
      return .literal loc (.str (Escape.decodeText (unquoted word)))
    | "template" => return .template loc (← templateParts fuel children)
    | "name" => return .identifier loc (← reading t.text)
    | "array" => return .array loc (← elaborateAll fuel children)
    | "group" => child fuel children 0
    | "expression" | "binary" =>
      let first ← child fuel children 0
      foldTails fuel (tag = "expression") first (children.drop 1)
    | "assignment" =>
      let target ← child fuel children 0
      match children.drop 1 with
      | [] => return target
      | tail :: _ =>
        let parts ← reading tail.children
        let op ← element parts 0
        checkTarget target "assignment" op
        let word ← reading op.text
        return .assign (locOf op) word target (← child fuel parts 1)
    | "conditional" =>
      let test ← child fuel children 0
      match children.drop 1 with
      | [] => return test
      | tail :: _ =>
        let (yes, no) ← two (← reading tail.children)
        let yes ← elaborateWithin fuel yes
        return .conditional (locOf tail) test yes (← elaborateWithin fuel no)
    | "unary" => unary fuel children
    | "postfix" =>
      let target ← child fuel children 0
      match children.drop 1 with
      | [] => return target
      | op :: _ =>
        checkTarget target "update" op
        let word ← reading (op.string fun d => .noMember d.typeName "strip")
        let trimmed := String.ofList (Text.trim word.toList)
        return .update (locOf op) (Wording.ofString trimmed) false target
    | "access" =>
      let first ← child fuel children 0
      accessTails fuel first (children.drop 1)
    | _ => throw (.mishap (.unknownTag (Text.quoted tag)))

/-- Elaborates the child at a place. -/
def child : Nat → List (Tree ω) → Nat → Elab (Node ω)
  | 0, _, _ => throw (.mishap .tooDeep)
  | fuel + 1, ts, i => do elaborateWithin fuel (← element ts i)

/-- Elaborates trees from left to right. -/
def elaborateAll : Nat → List (Tree ω) → Elab (List (Node ω))
  | 0, _ => throw (.mishap .tooDeep)
  | _ + 1, [] => return []
  | fuel + 1, t :: ts => do
    let n ← elaborateWithin fuel t
    return n :: (← elaborateAll fuel ts)

/-- The declarations of a binding statement. -/
def declarators : Nat → ω → List (Tree ω) → Elab (List (ω × Option (Node ω)))
  | 0, _, _ => throw (.mishap .tooDeep)
  | _ + 1, _, [] => return []
  | fuel + 1, kind, t :: ts => do
    let parts ← reading t.children
    let init ← match parts.drop 1 with
      | [] => pure none
      | e :: _ => do pure (some (← elaborateWithin fuel e))
    if init.isNone && Wording.spells kind "const" then refuse .missingInitializer t
    let name ← reading (← element parts 0).text
    return (name, init) :: (← declarators fuel kind ts)

/-- Folds operators from left to right. -/
def foldTails : Nat → Bool → Node ω → List (Tree ω) → Elab (Node ω)
  | 0, _, _, _ => throw (.mishap .tooDeep)
  | _ + 1, _, left, [] => return left
  | fuel + 1, commas, left, tail :: ts => do
    let parts ← reading tail.children
    if (← reading tail.tag) = "comma-tail" then
      let right ← child fuel parts 0
      foldTails fuel commas (tailNode commas (locOf tail) (Wording.ofString ",") left right) ts
    else
      let (op, operand) ← two parts
      let word ← reading op.text
      let right ← elaborateWithin fuel operand
      foldTails fuel commas (tailNode commas (locOf op) word left right) ts

/-- An operator in front of an operand. -/
def unary : Nat → List (Tree ω) → Elab (Node ω)
  | 0, _ => throw (.mishap .tooDeep)
  | fuel + 1, children => do
    let (op, operand) ← two children
    let word ← reading op.text
    if Wording.spells word "await" then
      if !((← get).functions.headD false) then refuse .awaitOutsideAsync op
      return .await (locOf op) (← elaborateWithin fuel operand)
    else
      let target ← elaborateWithin fuel operand
      if Wording.spells word "++" || Wording.spells word "--" then
        checkTarget target "update" op
        return .update (locOf op) word true target
      else return .unary (locOf op) word target

/-- Calls, members and elements behind a primary expression. -/
def accessTails : Nat → Node ω → List (Tree ω) → Elab (Node ω)
  | 0, _, _ => throw (.mishap .tooDeep)
  | _ + 1, object, [] => return object
  | fuel + 1, object, tail :: ts => do
    let parts ← reading tail.children
    match ← reading tail.tag with
    | "call" => accessTails fuel (.call (locOf tail) object (← elaborateAll fuel parts)) ts
    | "member" =>
      let part ← element parts 0
      accessTails fuel (.member (locOf part) object (← reading part.text)) ts
    | "index" => accessTails fuel (.index (locOf tail) object (← child fuel parts 0)) ts
    | _ => accessTails fuel object ts

/-- The parts of a template. -/
def templateParts : Nat → List (Tree ω) → Elab (List (String ⊕ Node ω))
  | 0, _ => throw (.mishap .tooDeep)
  | _ + 1, [] => return []
  | fuel + 1, t :: ts => do
    if (← reading t.tag) = "chunk" then
      let chunk ← reading (t.string fun d => .noText d.typeName)
      return .inl (Escape.decodeText chunk) :: (← templateParts fuel ts)
    else
      let part ← child fuel (← reading t.children) 0
      return .inr part :: (← templateParts fuel ts)

/-- A function declaration. -/
def functionDecl : Nat → Option Loc → List (Tree ω) → Elab (Node ω)
  | 0, _, _ => throw (.mishap .tooDeep)
  | fuel + 1, loc, children => do
    let isAsync := (← reading (← element children 0).tag) = "async"
    let children := if isAsync then children.drop 1 else children
    match children with
    | [] | [_] => throw (.mishap (.tooFew "at least 2" children.length))
    | name :: rest =>
      let body ← inFunction isAsync (child fuel rest (rest.length - 1))
      let word ← reading name.text
      return .functionDecl loc word (← reading (rest.dropLast.mapM Tree.text)) body isAsync

/-- The body of a loop. -/
def loopBody : Nat → Tree ω → Elab (Node ω)
  | 0, _ => throw (.mishap .tooDeep)
  | fuel + 1, t => inLoop (elaborateWithin fuel t)

/-- A loop with three clauses. -/
def forLoop : Nat → Option Loc → List (Tree ω) → Elab (Node ω)
  | 0, _, _ => throw (.mishap .tooDeep)
  | fuel + 1, loc, children => do
    let (init, test, update) ← forClauses fuel (none, none, none) children.dropLast
    let body ← loopBody fuel (← element children (children.length - 1))
    return .forLoop loc init test update body

/-- The clauses of a loop; of clauses of one kind the last counts. -/
def forClauses : Nat → Option (Node ω) × Option (Node ω) × Option (Node ω) → List (Tree ω) →
    Elab (Option (Node ω) × Option (Node ω) × Option (Node ω))
  | 0, _, _ => throw (.mishap .tooDeep)
  | _ + 1, clauses, [] => return clauses
  | fuel + 1, (init, test, update), t :: ts => do
    let inner ← child fuel (← reading t.children) 0
    match ← reading t.tag with
    | "for-init" => forClauses fuel (some (asStatement (locOf t) inner), test, update) ts
    | "for-test" => forClauses fuel (init, some inner, update) ts
    | "for-update" => forClauses fuel (init, test, some inner) ts
    | _ => forClauses fuel (init, test, update) ts

end

namespace Tree

omit [Wording ω] in
/-- The number of steps that lead to any part of a tree. -/
def reach : Tree ω → Nat
  | node _ children | foreign _ children => reaches children + 4
  | leaf _ => 4
where
  reaches : List (Tree ω) → Nat
    | [] => 0
    | t :: ts => max (reach t) (reaches ts) + 1

/-- Elaborates a tree. -/
def elaborate (t : Tree ω) : Except Fault (Node ω) :=
  (elaborateWithin t.reach t).run' {}

/-- Elaborates a list of trees. -/
def elaborateList (ts : List (Tree ω)) : Except Fault (List (Node ω)) :=
  (elaborateAll (reach.reaches ts + 1) ts).run' {}

end Tree
end LedSketch
