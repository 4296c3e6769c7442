import LedSketch.Store.Basic
import LedSketch.Syntax.Tree

/-!
# Outlines

An outline shows a tree or a program as nested lists of data: the tag or the kind, the place, and
what belongs to it. Programs can also be read back from outlines without places, where the values of
literals may be lists, which are placed in a store.
-/

namespace LedSketch

open Datum (str list num bool null)
open Wording (toDatum)

variable {ω : Type} [Wording ω]

namespace Tree

/-- A number, or null. -/
def numberOrNull (n : Option Int) : Datum := (n.map fun n => num (.int n)).getD null

/-- What a tree says about itself, as a list. -/
def markOutline (m : Mark ω) : List Datum :=
  [str m.tag, numberOrNull m.line, numberOrNull m.col, (m.text.map toDatum).getD null]

mutual

/-- The outline of a tree. -/
def outline : Tree ω → Datum
  | leaf m => list (markOutline m)
  | node m children => list (markOutline m ++ [list (outlines children)])
  | foreign d _ => d

/-- The outlines of trees. -/
def outlines : List (Tree ω) → List Datum
  | [] => []
  | t :: ts => outline t :: outlines ts

end

end Tree

namespace Node

/-- The outline of a place. -/
def placeOutline : Option Loc → Datum
  | some l => str (Decimal.intText l.line ++ ":" ++ Decimal.intText l.col)
  | none => null

/-- The datum of a plain value. -/
def literalOutline : Value → Datum
  | .bool b => bool b
  | .num n => num n
  | .str s => str s
  | _ => null

mutual

/-- The outline of a node. -/
def outline (n : Node ω) : Datum := list (str n.kindName :: placeOutline n.loc :: fields n)

/-- The outlines of what belongs to a node. -/
def fields : Node ω → List Datum
  | literal _ v => [literalOutline v]
  | template _ parts => [list (partOutlines parts)]
  | identifier _ name => [toDatum name]
  | array _ ns | block _ ns | program _ ns => [list (outlines ns)]
  | unary _ op n => [toDatum op, outline n]
  | binary _ op a b | logical _ op a b | assign _ op a b => [toDatum op, outline a, outline b]
  | conditional _ a b c => [outline a, outline b, outline c]
  | update _ op before n => [toDatum op, bool before, outline n]
  | call _ f args => [outline f, list (outlines args)]
  | member _ n name => [outline n, toDatum name]
  | index _ a b | whileLoop _ a b | doWhile _ a b => [outline a, outline b]
  | await _ n | exprStmt _ n => [outline n]
  | varDecl _ kind ds => [toDatum kind, list (declaratorOutlines ds)]
  | functionDecl _ name params body isAsync =>
    [toDatum name, list (params.map toDatum), outline body, bool isAsync]
  | ifElse _ a b c => [outline a, outline b, outline? c]
  | forLoop _ a b c d => [outline? a, outline? b, outline? c, outline d]
  | returnStmt _ n => [outline? n]
  | breakStmt _ | continueStmt _ | empty _ | bare _ => []

/-- The outlines of nodes. -/
def outlines : List (Node ω) → List Datum
  | [] => []
  | n :: ns => outline n :: outlines ns

/-- The outline of a node, or null. -/
def outline? : Option (Node ω) → Datum
  | none => null
  | some n => outline n

/-- The outlines of the parts of a template. -/
def partOutlines : List (String ⊕ Node ω) → List Datum
  | [] => []
  | .inl s :: ps => str s :: partOutlines ps
  | .inr n :: ps => outline n :: partOutlines ps

/-- The outlines of declarators. -/
def declaratorOutlines : List (ω × Option (Node ω)) → List Datum
  | [] => []
  | (name, init) :: ds => list [toDatum name, outline? init] :: declaratorOutlines ds

end

/-! ## Reading back -/

mutual

/-- The value of a datum, whose lists are placed in the store. -/
def valueOf : Datum → StateM Store Value
  | .bool b => return .bool b
  | .num n => return .num n
  | .str s => return .str s
  | .list ds => do
    let vs ← valuesOf ds
    return .list (← modifyGet fun st => st.newList vs)
  | _ => return .null

/-- The values of data. -/
def valuesOf : List Datum → StateM Store (List Value)
  | [] => return []
  | d :: ds => do
    let v ← valueOf d
    return v :: (← valuesOf ds)

end

/-- The text of a datum, empty for anything else. -/
def word : Datum → String
  | .str s => s
  | _ => ""

/-- The texts of a list. -/
def words : Datum → List String
  | .list ds => ds.map word
  | _ => []

/-- The node of a kind to which nothing belongs. -/
def ofKind : String → Node
  | "Break" => breakStmt none
  | "Continue" => continueStmt none
  | "Empty" => empty none
  | _ => bare none

/-- The truth of a datum, false for anything else. -/
def flag : Datum → Bool
  | .bool b => b
  | _ => false

mutual

/-- Reads a node from an outline without places; what is no outline becomes a bare node. -/
def ofOutline : Datum → StateM Store Node
  | .list (.str kind :: parts) => ofFields kind parts
  | _ => return bare none

/-- Reads a node from its kind and what belongs to it. -/
def ofFields (kind : String) : List Datum → StateM Store Node
  | [] => return ofKind kind
  | [a] => match kind with
    | "Literal" => return literal none (← valueOf a)
    | "TemplateString" => return template none (← partsOf a)
    | "Identifier" => return identifier none (word a)
    | "ArrayLiteral" => return array none (← nodesOf a)
    | "Await" => return await none (← ofOutline a)
    | "Block" => return block none (← nodesOf a)
    | "ExprStmt" => return exprStmt none (← ofOutline a)
    | "Return" => return returnStmt none (← ofOutline? a)
    | "Program" => return program none (← nodesOf a)
    | _ => return bare none
  | [a, b] => match kind with
    | "Unary" => return unary none (word a) (← ofOutline b)
    | "Call" => return call none (← ofOutline a) (← nodesOf b)
    | "Member" => return member none (← ofOutline a) (word b)
    | "Index" => return index none (← ofOutline a) (← ofOutline b)
    | "VarDecl" => return varDecl none (word a) (← declaratorsOf b)
    | "While" => return whileLoop none (← ofOutline a) (← ofOutline b)
    | "DoWhile" => return doWhile none (← ofOutline a) (← ofOutline b)
    | _ => return bare none
  | [a, b, c] => match kind with
    | "Binary" => return binary none (word a) (← ofOutline b) (← ofOutline c)
    | "Logical" => return logical none (word a) (← ofOutline b) (← ofOutline c)
    | "Conditional" => return conditional none (← ofOutline a) (← ofOutline b) (← ofOutline c)
    | "Assign" => return assign none (word a) (← ofOutline b) (← ofOutline c)
    | "Update" => return update none (word a) (flag b) (← ofOutline c)
    | "If" => return ifElse none (← ofOutline a) (← ofOutline b) (← ofOutline? c)
    | _ => return bare none
  | [a, b, c, d] => match kind with
    | "FunctionDecl" => return functionDecl none (word a) (words b) (← ofOutline c) (flag d)
    | "For" =>
      return forLoop none (← ofOutline? a) (← ofOutline? b) (← ofOutline? c) (← ofOutline d)
    | _ => return bare none
  | _ => return bare none

/-- Reads the nodes of a list. -/
def nodesOf : Datum → StateM Store (List Node)
  | .list ds => ofOutlines ds
  | _ => return []

/-- Reads nodes from outlines. -/
def ofOutlines : List Datum → StateM Store (List Node)
  | [] => return []
  | d :: ds => do
    let n ← ofOutline d
    return n :: (← ofOutlines ds)

/-- Reads a node from an outline, unless it is null. -/
def ofOutline? : Datum → StateM Store (Option Node)
  | .null => return none
  | .list (.str kind :: parts) => return some (← ofFields kind parts)
  | _ => return some (bare none)

/-- Reads the parts of a template. -/
def partsOf : Datum → StateM Store (List (String ⊕ Node))
  | .list ds => partList ds
  | _ => return []

/-- Reads parts of a template. -/
def partList : List Datum → StateM Store (List (String ⊕ Node))
  | [] => return []
  | .str s :: ds => return .inl s :: (← partList ds)
  | d :: ds => do
    let n ← ofOutline d
    return .inr n :: (← partList ds)

/-- Reads the declarators of a declaration. -/
def declaratorsOf : Datum → StateM Store (List (String × Option Node))
  | .list ds => declaratorList ds
  | _ => return []

/-- Reads declarators. -/
def declaratorList : List Datum → StateM Store (List (String × Option Node))
  | [] => return []
  | .list [name, init] :: ds => do
    let init ← ofOutline? init
    return (word name, init) :: (← declaratorList ds)
  | _ :: ds => declaratorList ds

end

end Node
end LedSketch
