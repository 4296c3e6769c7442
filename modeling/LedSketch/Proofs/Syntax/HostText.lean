import LedSketch.Dialect.Words
import LedSketch.Grammar.Lexeme
import LedSketch.Number.Reading
import LedSketch.Syntax.Node

/-!
# Programs as host text

`Node.text` writes a node in host form, with every operand, callee, receiver, index, argument, item
and initializer in parentheses, so that no reading of it depends on how tightly operators bind.
Assignment targets stand bare; whether the targets of updates do is left open. A statement ends
with its `terminator`.

* `Node.unplaced`: a node without the places in it.
* `HostText.Expression`, `HostText.Statement`, `HostText.Program`: the nodes that obey the static
  rules and can be written.
-/

namespace LedSketch

open Grammar Dialect

/-! ## Texts -/

namespace HostText

/-- A text in parentheses. -/
def parens (cs : List Char) : List Char := '(' :: cs ++ [')']

/-- Texts with commas between them. -/
def listed : List (List Char) → List Char
  | [] => []
  | cs :: css => cs ++ css.flatMap fun ds => ',' :: ' ' :: ds

/-- A character in a string. -/
def quotedChar (c : Char) : List Char :=
  if c = '\n' then ['\\', 'n'] else if c = '"' ∨ c = '\\' then ['\\', c] else [c]

/-- A character in a string between two marks `q`. -/
def quotedBy (q c : Char) : List Char :=
  if c = '\n' then ['\\', 'n'] else if c = q ∨ c = '\\' then ['\\', c] else [c]

/-- A character in a template. -/
def chunkChar (c : Char) : List Char :=
  if c = '\x60' ∨ c = '$' ∨ c = '\\' then ['\\', c] else [c]

/-- The text of a literal value. -/
def ofValue : Value → List Char
  | .num (.int n) => Nat.toDigits 10 n.toNat
  | .str s => '"' :: s.toList.flatMap quotedChar ++ ['"']
  | .bool true => "true".toList
  | .bool false => "false".toList
  | .null => "null".toList
  | _ => []

end HostText

namespace Node

open HostText

/-- What ends a statement. -/
def terminator : Node → List Char
  | varDecl .. | exprStmt .. | doWhile .. | returnStmt .. | breakStmt _ | continueStmt _
  | empty _ => [';']
  | _ => []

mutual

/-- The text of a node, without its terminator; the targets of updates are in parentheses unless
`loose` is set. -/
def text (loose : Bool) : Node → List Char
  | literal _ v => ofValue v
  | template _ parts => '\x60' :: partsText loose parts ++ ['\x60']
  | identifier _ name => name.toList
  | array _ items => '[' :: listed (operandTexts loose items) ++ [']']
  | unary _ op x => op.toList ++ parens (text loose x)
  | binary _ op l r =>
    if op = "," then listed [parens (text loose l), parens (text loose r)]
    else parens (text loose l) ++ ' ' :: op.toList ++ ' ' :: parens (text loose r)
  | logical _ op l r => parens (text loose l) ++ ' ' :: op.toList ++ ' ' :: parens (text loose r)
  | conditional _ test yes no =>
    parens (text loose test) ++ ' ' :: '?' :: ' ' :: parens (text loose yes)
      ++ ' ' :: ':' :: ' ' :: parens (text loose no)
  | assign _ op target value =>
    text loose target ++ ' ' :: op.toList ++ ' ' :: parens (text loose value)
  | update _ op before target =>
    let inner := if loose then text loose target else parens (text loose target)
    if before then op.toList ++ inner else inner ++ op.toList
  | call _ callee args => parens (text loose callee) ++ parens (listed (operandTexts loose args))
  | member _ object name => parens (text loose object) ++ '.' :: name.toList
  | index _ object key => parens (text loose object) ++ '[' :: parens (text loose key) ++ [']']
  | await _ x => "await".toList ++ parens (text loose x)
  | block _ body => '{' :: bodyText loose body ++ ['\n', '}']
  | varDecl _ kind ds => kind.toList ++ ' ' :: listed (declarationTexts loose ds)
  | functionDecl _ name params body isAsync =>
    (if isAsync then "async ".toList else []) ++ "function ".toList ++ name.toList
      ++ parens (listed (params.map String.toList)) ++ ' ' :: text loose body
  | exprStmt _ x => text loose x
  | ifElse _ test yes no =>
    "if ".toList ++ parens (text loose test) ++ ' ' :: text loose yes ++ elseText loose no
  | forLoop _ init test step body =>
    "for (".toList ++ clauseText loose init ++ ';' :: ' ' :: clauseText loose test
      ++ ';' :: ' ' :: clauseText loose step ++ ')' :: ' ' :: text loose body
  | whileLoop _ test body => "while ".toList ++ parens (text loose test) ++ ' ' :: text loose body
  | doWhile _ body test =>
    "do ".toList ++ text loose body ++ " while ".toList ++ parens (text loose test)
  | returnStmt _ none => "return".toList
  | returnStmt _ (some x) => "return ".toList ++ text loose x
  | breakStmt _ => "break".toList
  | continueStmt _ => "continue".toList
  | program _ body => bodyText loose body
  | empty _ | bare _ => []

/-- The texts of nodes in parentheses. -/
def operandTexts (loose : Bool) : List Node → List (List Char)
  | [] => []
  | n :: ns => parens (text loose n) :: operandTexts loose ns

/-- Statements on lines of their own. -/
def bodyText (loose : Bool) : List Node → List Char
  | [] => []
  | n :: ns => '\n' :: text loose n ++ n.terminator ++ bodyText loose ns

/-- A node that may be missing. -/
def clauseText (loose : Bool) : Option Node → List Char
  | none => []
  | some n => text loose n

/-- The other branch, which may be missing. -/
def elseText (loose : Bool) : Option Node → List Char
  | none => []
  | some n => " else ".toList ++ text loose n

/-- The parts of a template. -/
def partsText (loose : Bool) : List (String ⊕ Node) → List Char
  | [] => []
  | .inl s :: ps => s.toList.flatMap chunkChar ++ partsText loose ps
  | .inr n :: ps => '$' :: '{' :: text loose n ++ '}' :: partsText loose ps

/-- The texts of declarations. -/
def declarationTexts (loose : Bool) : List (String × Option Node) → List (List Char)
  | [] => []
  | (name, none) :: ds => name.toList :: declarationTexts loose ds
  | (name, some n) :: ds =>
    (name.toList ++ ' ' :: '=' :: ' ' :: parens (text loose n)) :: declarationTexts loose ds

end

/-! ## Places aside -/

mutual

/-- A node without the places in it. -/
def unplaced : Node → Node
  | literal _ v => literal none v
  | template _ parts => template none (unplacedParts parts)
  | identifier _ name => identifier none name
  | array _ items => array none (unplacedAll items)
  | unary _ op x => unary none op (unplaced x)
  | binary _ op l r => binary none op (unplaced l) (unplaced r)
  | logical _ op l r => logical none op (unplaced l) (unplaced r)
  | conditional _ test yes no => conditional none (unplaced test) (unplaced yes) (unplaced no)
  | assign _ op target value => assign none op (unplaced target) (unplaced value)
  | update _ op before target => update none op before (unplaced target)
  | call _ callee args => call none (unplaced callee) (unplacedAll args)
  | member _ object name => member none (unplaced object) name
  | index _ object key => index none (unplaced object) (unplaced key)
  | await _ x => await none (unplaced x)
  | block _ body => block none (unplacedAll body)
  | varDecl _ kind ds => varDecl none kind (unplacedDeclarations ds)
  | functionDecl _ name params body isAsync =>
    functionDecl none name params (unplaced body) isAsync
  | exprStmt _ x => exprStmt none (unplaced x)
  | ifElse _ test yes no => ifElse none (unplaced test) (unplaced yes) (unplaced? no)
  | forLoop _ init test step body =>
    forLoop none (unplaced? init) (unplaced? test) (unplaced? step) (unplaced body)
  | whileLoop _ test body => whileLoop none (unplaced test) (unplaced body)
  | doWhile _ body test => doWhile none (unplaced body) (unplaced test)
  | returnStmt _ x => returnStmt none (unplaced? x)
  | breakStmt _ => breakStmt none
  | continueStmt _ => continueStmt none
  | empty _ => empty none
  | program _ body => program none (unplacedAll body)
  | bare _ => bare none

/-- Nodes without the places in them. -/
def unplacedAll : List Node → List Node
  | [] => []
  | n :: ns => unplaced n :: unplacedAll ns

/-- A node that may be missing. -/
def unplaced? : Option Node → Option Node
  | none => none
  | some n => some (unplaced n)

/-- The parts of a template. -/
def unplacedParts : List (String ⊕ Node) → List (String ⊕ Node)
  | [] => []
  | .inl s :: ps => .inl s :: unplacedParts ps
  | .inr n :: ps => .inr (unplaced n) :: unplacedParts ps

/-- Declarations. -/
def unplacedDeclarations : List (String × Option Node) → List (String × Option Node)
  | [] => []
  | (name, none) :: ds => (name, none) :: unplacedDeclarations ds
  | (name, some n) :: ds => (name, some (unplaced n)) :: unplacedDeclarations ds

end

theorem isAssignable_unplaced (n : Node) : n.unplaced.isAssignable = n.isAssignable := by
  cases n <;> rfl

/-- What can be assigned to does not depend on places. -/
theorem isAssignable_congr {m n : Node} (h : m.unplaced = n.unplaced) :
    m.isAssignable = n.isAssignable := by
  rw [← isAssignable_unplaced, h, isAssignable_unplaced]

end Node

/-! ## Programs that can be written -/

namespace HostText

/-- The operators of binary nodes, without the comma. -/
def binaryOperators : List String :=
  ["|", "^", "&", "===", "!==", "==", "!=", "<=", ">=", "<", ">", "<<", ">>", "+", "-", "*", "/",
    "%"]

/-- The operators that decide whether to look at their right side. -/
def logicalOperators : List String := ["||", "&&"]

/-- The operators in front of an operand that is not changed. -/
def unaryOperators : List String := ["!", "~", "+", "-", "typeof"]

/-- The operators that count up and down. -/
def updateOperators : List String := ["++", "--"]

/-- The operators of assignments. -/
def assignOperators : List String :=
  ["=", "<<=", ">>=", "-=", "+=", "*=", "/=", "%=", "&=", "|=", "^="]

/-- A name that is not reserved. -/
def IsIdentifier (name : String) : Prop := isName name.toList = true ∧ name ∉ reservedWords

/-- The values of literals: integers of few enough digits, texts, truth values and null. -/
inductive IsLiteral : Value → Prop
  | number (n : Nat) (h : (Nat.toDigits 10 n).length ≤ Reading.digitLimit) :
    IsLiteral (.num (.int n))
  | text (s : String) : IsLiteral (.str s)
  | truth (b : Bool) : IsLiteral (.bool b)
  | null : IsLiteral .null

/-- Chunks of a template are not empty, and no two of them are neighbours. -/
def Chunked : List (String ⊕ Node) → Prop
  | [] => True
  | .inl s :: ps => s ≠ "" ∧ (∀ t, ps.head? ≠ some (.inl t)) ∧ Chunked ps
  | .inr _ :: ps => Chunked ps

/-- **An expression that obeys the static rules**, where `a` tells whether it may wait. -/
inductive Expression (a : Bool) : Node → Prop
  | literal {l v} (hv : IsLiteral v) : Expression a (.literal l v)
  | template {l parts} (hc : Chunked parts) (hp : ∀ n, .inr n ∈ parts → Expression a n) :
    Expression a (.template l parts)
  | identifier {l name} (hn : IsIdentifier name) : Expression a (.identifier l name)
  | array {l items} (hi : ∀ n ∈ items, Expression a n) : Expression a (.array l items)
  | unary {l op x} (ho : op ∈ unaryOperators) (hx : Expression a x) : Expression a (.unary l op x)
  | comma {l x y} (hx : Expression a x) (hy : Expression a y) : Expression a (.binary l "," x y)
  | binary {l op x y} (ho : op ∈ binaryOperators) (hx : Expression a x) (hy : Expression a y) :
    Expression a (.binary l op x y)
  | logical {l op x y} (ho : op ∈ logicalOperators) (hx : Expression a x) (hy : Expression a y) :
    Expression a (.logical l op x y)
  | conditional {l x y z} (hx : Expression a x) (hy : Expression a y) (hz : Expression a z) :
    Expression a (.conditional l x y z)
  | assign {l op x y} (ho : op ∈ assignOperators) (ht : x.isAssignable = true)
    (hx : Expression a x) (hy : Expression a y) : Expression a (.assign l op x y)
  | update {l op before x} (ho : op ∈ updateOperators) (ht : x.isAssignable = true)
    (hx : Expression a x) : Expression a (.update l op before x)
  | call {l f args} (hf : Expression a f) (hargs : ∀ n ∈ args, Expression a n) :
    Expression a (.call l f args)
  | member {l x name} (hx : Expression a x) (hn : isName name.toList = true) :
    Expression a (.member l x name)
  | index {l x k} (hx : Expression a x) (hk : Expression a k) : Expression a (.index l x k)
  | await {l x} (ha : a = true) (hx : Expression a x) : Expression a (.await l x)

/-- What may stand in front of a loop: a declaration of names, or an expression. -/
inductive Initializer (a : Bool) : Node → Prop
  | declaration {l kind ds} (hk : kind ∈ ["let", "const", "var"]) (hne : ds ≠ [])
    (hn : ∀ d ∈ ds, IsIdentifier d.1) (hi : ∀ d ∈ ds, ∀ n ∈ d.2, Expression a n)
    (hc : kind = "const" → ∀ d ∈ ds, d.2 ≠ none) : Initializer a (.varDecl l kind ds)
  | expression {l x} (hx : Expression a x) : Initializer a (.exprStmt l x)

/-- What a statement stands in: the innermost function, async or not, and a loop or none. -/
structure Setting where
  function : Option Bool
  looping : Bool

/-- Whether what stands there may wait. -/
def Setting.waits (p : Setting) : Bool := p.function.getD false

/-- **A statement that obeys the static rules.** Branches and bodies are blocks. -/
inductive Statement : Setting → Node → Prop
  | plain {p n} (h : Initializer p.waits n) : Statement p n
  | block {p l body} (h : ∀ n ∈ body, Statement p n) : Statement p (.block l body)
  | functionDecl {p l name params l' body isAsync} (hn : IsIdentifier name)
    (hp : ∀ x ∈ params, IsIdentifier x) (h : ∀ n ∈ body, Statement ⟨some isAsync, false⟩ n) :
    Statement p (.functionDecl l name params (.block l' body) isAsync)
  | ifThen {p l test l' yes} (ht : Expression p.waits test) (hy : ∀ n ∈ yes, Statement p n) :
    Statement p (.ifElse l test (.block l' yes) none)
  | ifElse {p l test l' yes l'' no} (ht : Expression p.waits test)
    (hy : ∀ n ∈ yes, Statement p n) (hn : ∀ n ∈ no, Statement p n) :
    Statement p (.ifElse l test (.block l' yes) (some (.block l'' no)))
  | forLoop {p l init test update l' body} (hi : ∀ n ∈ init, Initializer p.waits n)
    (ht : ∀ n ∈ test, Expression p.waits n) (hu : ∀ n ∈ update, Expression p.waits n)
    (h : ∀ n ∈ body, Statement { p with looping := true } n) :
    Statement p (.forLoop l init test update (.block l' body))
  | whileLoop {p l test l' body} (ht : Expression p.waits test)
    (h : ∀ n ∈ body, Statement { p with looping := true } n) :
    Statement p (.whileLoop l test (.block l' body))
  | doWhile {p l l' body test} (h : ∀ n ∈ body, Statement { p with looping := true } n)
    (ht : Expression p.waits test) : Statement p (.doWhile l (.block l' body) test)
  | returnStmt {p l value} (hf : p.function ≠ none) (hv : ∀ n ∈ value, Expression p.waits n) :
    Statement p (.returnStmt l value)
  | breakStmt {p l} (hl : p.looping = true) : Statement p (.breakStmt l)
  | continueStmt {p l} (hl : p.looping = true) : Statement p (.continueStmt l)
  | empty {p l} : Statement p (.empty l)

/-- **A program that obeys the static rules.** -/
inductive Program : Node → Prop
  | intro {l body} (h : ∀ n ∈ body, Statement ⟨none, false⟩ n) : Program (.program l body)

end HostText
end LedSketch
