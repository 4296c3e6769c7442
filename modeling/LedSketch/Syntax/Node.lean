import LedSketch.Value.Basic

/-!
# Programs

The nodes of a program: expressions and statements, each with the place in the source that reports
point to, if it has one. Nodes that are built by hand may stand where they make no sense; running
them is an error of its own.

A program keeps the words of its tree as it finds them: its names, its operators and the kinds of
its declarations. Those of a source are strings, and so are those of a program that runs.

These are the data that the transformer of section 2 of the specification makes of trees
(`SPEC_FULL.md:61-66`).
-/

namespace LedSketch

/-- A line and a column, from one. -/
structure Loc where
  line : Int
  col : Int
deriving DecidableEq, Repr

/-- A node of a program whose words are of type `ω`. -/
inductive Node (ω : Type := String) where
  -- expressions
  | literal (loc : Option Loc) (value : Value)
  | template (loc : Option Loc) (parts : List (String ⊕ Node ω))
  | identifier (loc : Option Loc) (name : ω)
  | array (loc : Option Loc) (items : List (Node ω))
  | unary (loc : Option Loc) (op : ω) (operand : Node ω)
  | binary (loc : Option Loc) (op : ω) (left right : Node ω)
  | logical (loc : Option Loc) (op : ω) (left right : Node ω)
  | conditional (loc : Option Loc) (test yes no : Node ω)
  | assign (loc : Option Loc) (op : ω) (target value : Node ω)
  | update (loc : Option Loc) (op : ω) (before : Bool) (target : Node ω)
  | call (loc : Option Loc) (callee : Node ω) (args : List (Node ω))
  | member (loc : Option Loc) (object : Node ω) (name : ω)
  | index (loc : Option Loc) (object key : Node ω)
  | await (loc : Option Loc) (expr : Node ω)
  -- statements
  | block (loc : Option Loc) (body : List (Node ω))
  | varDecl (loc : Option Loc) (kind : ω) (declarations : List (ω × Option (Node ω)))
  | functionDecl (loc : Option Loc) (name : ω) (params : List ω) (body : Node ω)
      (isAsync : Bool)
  | exprStmt (loc : Option Loc) (expr : Node ω)
  | ifElse (loc : Option Loc) (test yes : Node ω) (no : Option (Node ω))
  | forLoop (loc : Option Loc) (init test update : Option (Node ω)) (body : Node ω)
  | whileLoop (loc : Option Loc) (test body : Node ω)
  | doWhile (loc : Option Loc) (body test : Node ω)
  | returnStmt (loc : Option Loc) (value : Option (Node ω))
  | breakStmt (loc : Option Loc)
  | continueStmt (loc : Option Loc)
  | empty (loc : Option Loc)
  | program (loc : Option Loc) (body : List (Node ω))
  /-- A node without any meaning. -/
  | bare (loc : Option Loc)

namespace Node

variable {ω : Type}

instance : Inhabited (Node ω) := ⟨.bare none⟩

/-- The place that reports point to. -/
def loc : Node ω → Option Loc
  | literal l _ | template l _ | identifier l _ | array l _ | unary l .. | binary l ..
  | logical l .. | conditional l .. | assign l .. | update l .. | call l .. | member l ..
  | index l .. | await l _ | block l _ | varDecl l .. | functionDecl l .. | exprStmt l _
  | ifElse l .. | forLoop l .. | whileLoop l .. | doWhile l .. | returnStmt l _ | breakStmt l
  | continueStmt l | empty l | program l _ | bare l => l

/-- The name of the kind of a node in messages. -/
def kindName : Node ω → String
  | literal .. => "Literal"
  | template .. => "TemplateString"
  | identifier .. => "Identifier"
  | array .. => "ArrayLiteral"
  | unary .. => "Unary"
  | binary .. => "Binary"
  | logical .. => "Logical"
  | conditional .. => "Conditional"
  | assign .. => "Assign"
  | update .. => "Update"
  | call .. => "Call"
  | member .. => "Member"
  | index .. => "Index"
  | await .. => "Await"
  | block .. => "Block"
  | varDecl .. => "VarDecl"
  | functionDecl .. => "FunctionDecl"
  | exprStmt .. => "ExprStmt"
  | ifElse .. => "If"
  | forLoop .. => "For"
  | whileLoop .. => "While"
  | doWhile .. => "DoWhile"
  | returnStmt .. => "Return"
  | breakStmt _ => "Break"
  | continueStmt _ => "Continue"
  | empty _ => "Empty"
  | program .. => "Program"
  | bare _ => "Node"

/-- Whether a value can be stored there. -/
def isAssignable : Node ω → Bool
  | identifier .. | member .. | index .. => true
  | _ => false

/-- Whether the node declares a function. -/
def isFunctionDecl : Node ω → Bool
  | functionDecl .. => true
  | _ => false

/-- The statements of a program. -/
def statements : Node ω → List (Node ω)
  | program _ body => body
  | _ => []

end Node
end LedSketch
