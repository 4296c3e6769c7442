import LedSketch.Dialect.Words
import LedSketch.Proofs.Syntax.HostText
import LedSketch.Scan.Scanner

/-!
# Sketches and their two forms

A sketch as a tree: functions, declarations, blocks, branches, loops and expressions, each token
with the blanks behind it. One function writes it in the dialect and in the host form, so that both
have the same layout.

The forms differ in three places only. The host form writes a word for the type of a function or a
variable, or nothing for that of a parameter or a constant; where a word is dropped, the blanks
behind it on the same line go with it. It writes `await` in front of the calls of `delay` that
belong to the body of an entry point. The function that a body belongs to is the innermost one, and
what stands inside a template belongs to none.

* `Form` — the form that is written, and whether the place suspends;
* `Sketch.text` — the text of a sketch in a form.
-/

namespace LedSketch.Dialect

open Text Scan

/-- The form that a part of a sketch is written in. -/
inductive Form where
  | dialect
  /-- In host form a call of `delay` suspends, or it does not. -/
  | host (suspends : Bool)

namespace Form

/-- The form inside a function. -/
def inside (f : Form) (entry : Bool) : Form :=
  match f with
  | dialect => dialect
  | host _ => host entry

/-- The form inside an interpolation. -/
def interpolated (f : Form) : Form := f.inside false

end Form

namespace Sketch

/-! ## Tokens -/

/-- Blanks, or nothing. -/
structure Gap where
  chars : List Char
  blank : ∀ c ∈ chars, isSpace c = true

/-- What stays of the blanks behind a word that is dropped. -/
def Gap.below (g : Gap) : List Char := g.chars.dropWhile isHorizontal

/-- Blanks that keep two words apart. -/
structure Break extends Gap where
  nonempty : chars ≠ []

/-- What names a variable, a function or a member. -/
structure Identifier where
  chars : List Char
  name : isName chars = true
  free : isIdentifier chars = true

/-- An integer of any base. -/
structure Numeral where
  first : Char
  others : List Char
  digit : isDecimalDigit first = true
  word : ∀ c ∈ others, isWordChar c = true

/-- The operators between two operands. -/
def operators : List String :=
  HostText.binaryOperators ++ HostText.logicalOperators ++ HostText.assignOperators

/-- An operator between two operands. -/
structure Operator where
  text : String
  known : text ∈ operators

/-- Whether a text can stand between two marks `q`: a backslash takes the next character along. -/
def isQuotable (q : Char) : List Char → Bool
  | [] => true
  | '\\' :: _ :: cs => isQuotable q cs
  | c :: cs => c ≠ '\\' && c ≠ q && isQuotable q cs

/-- A string literal. -/
structure Literal where
  quote : Quote
  body : List Char
  quotable : isQuotable quote.char body = true

/-- Whether a text can stand inside a template without opening an interpolation. -/
def isPlain : List Char → Bool
  | [] => true
  | '\\' :: _ :: cs => isPlain cs
  | '$' :: cs => cs.head? ≠ some '{' && isPlain cs
  | c :: cs => c ≠ '\\' && c ≠ '\x60' && isPlain cs

/-- The text of a template between its marks and interpolations. -/
structure Chunk where
  chars : List Char
  plain : isPlain chars = true

/-- One or more parts with commas between them. -/
structure Listed (α : Type) where
  first : α
  others : List (Gap × α)

def Listed.text {α : Type} (text : α → List Char) (l : Listed α) : List Char :=
  text l.first ++ l.others.flatMap fun p => ',' :: (p.1.chars ++ text p.2)

/-! ## Expressions -/

mutual

/-- What a call or an access can stand behind, and whether it is an integer. -/
inductive Operand : Bool → Type where
  | int (n : Numeral) (behind : Gap) : Operand true
  | name (x : Identifier) (behind : Gap) : Operand false
  | string (s : Literal) (behind : Gap) : Operand false
  | template (t : Template) (behind : Gap) : Operand false
  | group (inside : Gap) (e : Expr) (behind : Gap) : Operand false
  | call {numeric : Bool} (callee : Operand numeric) (inside : Gap) (args : Args) (behind : Gap) :
    Operand false
  | member (receiver : Operand false) (inside : Gap) (x : Identifier) (behind : Gap) : Operand false

inductive Expr : Type where
  | operand {numeric : Bool} (o : Operand numeric)
  | binary (left : Expr) (op : Operator) (behind : Gap) (right : Expr)

/-- What stands between the parentheses of a call. -/
inductive Args : Type where
  | none
  | some (l : Arguments)

inductive Arguments : Type where
  | last (e : Expr)
  | more (e : Expr) (behind : Gap) (others : Arguments)

/-- What stands behind the opening mark of a template. -/
inductive Template : Type where
  | closed (c : Chunk)
  | interpolation (c : Chunk) (inside : Gap) (e : Expr) (t : Template)

end

/-- Whether an operand is the name of the pausing builtin. -/
def Operand.isDelay {numeric : Bool} : Operand numeric → Bool
  | .name x _ => x.chars = "delay".toList
  | _ => false

/-- What the host form writes in front of a call of `o`. -/
def Form.awaiting {numeric : Bool} (f : Form) (o : Operand numeric) : List Char :=
  match f with
  | .host true => if o.isDelay then "await ".toList else []
  | _ => []

mutual

def Operand.text (f : Form) {numeric : Bool} : Operand numeric → List Char
  | .int n g => n.first :: n.others ++ g.chars
  | .name x g => x.chars ++ g.chars
  | .string s g => s.quote.char :: s.body ++ s.quote.char :: g.chars
  | .template t g => '\x60' :: (t.text f ++ g.chars)
  | .group g e g' => '(' :: (g.chars ++ e.text f ++ ')' :: g'.chars)
  | .call o g args g' =>
    Form.awaiting f o ++ o.text f ++ '(' :: (g.chars ++ args.text f ++ ')' :: g'.chars)
  | .member o g x g' => o.text f ++ '.' :: (g.chars ++ x.chars ++ g'.chars)

def Expr.text (f : Form) : Expr → List Char
  | .operand o => o.text f
  | .binary l op g r => l.text f ++ op.text.toList ++ g.chars ++ r.text f

def Args.text (f : Form) : Args → List Char
  | .none => []
  | .some l => l.text f

def Arguments.text (f : Form) : Arguments → List Char
  | .last e => e.text f
  | .more e g l => e.text f ++ ',' :: (g.chars ++ l.text f)

def Template.text (f : Form) : Template → List Char
  | .closed c => c.chars ++ ['\x60']
  | .interpolation c g e t =>
    c.chars ++ '$' :: '{' :: (g.chars ++ e.text f.interpolated ++ '}' :: t.text f)

end

/-! ## Declarations -/

/-- The type of a variable. -/
inductive VariableType where
  | plain (word : String) (known : word ∈ typeWords)
  | unsigned (behind : Break) (word : String) (known : word ∈ typeWords)

namespace VariableType

def text : VariableType → List Char
  | plain w _ => w.toList
  | unsigned g w _ => "unsigned".toList ++ g.chars ++ w.toList

/-- The last word of a type. -/
def word : VariableType → String
  | plain w _ => w
  | unsigned _ w _ => w

theorem word_mem (t : VariableType) : t.word ∈ typeWords := by
  cases t <;> assumption

/-- What the host form keeps in front of the last word of a type. -/
def remnant : VariableType → List Char
  | plain _ _ => []
  | unsigned g _ _ => g.below

end VariableType

/-- A variable and its initial value. -/
structure Declarator where
  name : Identifier
  behindName : Gap
  behindMark : Gap
  value : Expr

def Declarator.text (f : Form) (d : Declarator) : List Char :=
  d.name.chars ++ d.behindName.chars ++ '=' :: (d.behindMark.chars ++ d.value.text f)

/-- A declaration, without the semicolon. -/
structure Declaration where
  constant : Option Break
  type : VariableType
  behindType : Break
  declarators : Listed Declarator

/-- What comes in front of the variables: the host form keeps `const`, or writes `let` for the
type. -/
def Declaration.head (f : Form) (d : Declaration) : List Char :=
  match f, d.constant with
  | .dialect, some g => "const".toList ++ g.chars ++ d.type.text ++ d.behindType.chars
  | .dialect, none => d.type.text ++ d.behindType.chars
  | .host _, some g => "const".toList ++ g.chars ++ d.type.remnant ++ d.behindType.below
  | .host _, none => d.type.remnant ++ "let".toList ++ d.behindType.chars

def Declaration.text (f : Form) (d : Declaration) : List Char :=
  d.head f ++ d.declarators.text (Declarator.text f)

/-- A parameter of a function. -/
structure Parameter where
  type : VariableType
  behindType : Break
  name : Identifier
  behindName : Gap

/-- What comes in front of the name of a parameter. -/
def Parameter.head (f : Form) (p : Parameter) : List Char :=
  match f with
  | .dialect => p.type.text ++ p.behindType.chars
  | .host _ => p.type.remnant ++ p.behindType.below

def Parameter.text (f : Form) (p : Parameter) : List Char :=
  p.head f ++ p.name.chars ++ p.behindName.chars

/-- The type of a function. -/
inductive ReturnType where
  | void
  | value (t : VariableType)

namespace ReturnType

def text : ReturnType → List Char
  | void => "void".toList
  | value t => t.text

/-- The last word of a type. -/
def word : ReturnType → String
  | void => "void"
  | value t => t.word

theorem word_mem (t : ReturnType) : t.word ∈ returnTypeWords := by
  cases t with
  | void => decide
  | value t => exact List.mem_append_left _ t.word_mem

/-- What the host form keeps in front of the last word of a type. -/
def remnant : ReturnType → List Char
  | void => []
  | value t => t.remnant

end ReturnType

/-- The head of a function. An entry point takes no parameters. -/
structure Header where
  type : ReturnType
  behindType : Break
  name : Identifier
  behindName : Gap
  inside : Gap
  parameters : Option (Listed Parameter)
  behind : Gap
  entry : String.ofList name.chars ∈ entryPoints → parameters = none

namespace Header

/-- Whether the function is an entry point. -/
def isEntry (h : Header) : Bool := entryPoints.contains (String.ofList h.name.chars)

/-- What stands for the type of a function. -/
def typeText (f : Form) (h : Header) : List Char :=
  match f with
  | .dialect => h.type.text
  | .host _ =>
    h.type.remnant ++ if h.isEntry then "async function".toList else "function".toList

/-- What stands between the parentheses. -/
def listText (f : Form) (h : Header) : List Char :=
  match h.parameters with
  | some l => l.text (Parameter.text f)
  | none => []

def text (f : Form) (h : Header) : List Char :=
  h.typeText f ++ h.behindType.chars ++ h.name.chars ++ h.behindName.chars ++
    '(' :: (h.inside.chars ++ h.listText f ++ ')' :: h.behind.chars)

end Header

/-! ## Statements -/

/-- What a `for` starts with. -/
inductive Init where
  | nothing
  | declaration (d : Declaration)
  | expression (e : Expr)

def Init.text (f : Form) : Init → List Char
  | nothing => []
  | declaration d => d.text f
  | expression e => e.text f

/-- An expression that may be missing. -/
def optional (f : Form) : Option Expr → List Char
  | some e => e.text f
  | none => []

/-- What comes before the body of a branch or a loop, up to the closing parenthesis. -/
inductive Guard where
  | branch (behind inside : Gap) (test : Expr)
  | loop (behind inside : Gap) (test : Expr)
  | count (behind inside : Gap) (init : Init) (behindInit : Gap) (test : Option Expr)
    (behindTest : Gap) (update : Option Expr)

def Guard.text (f : Form) : Guard → List Char
  | branch g g' e => "if".toList ++ g.chars ++ '(' :: (g'.chars ++ e.text f)
  | loop g g' e => "while".toList ++ g.chars ++ '(' :: (g'.chars ++ e.text f)
  | count g g' i g₁ e g₂ e' =>
    "for".toList ++ g.chars ++ '(' :: (g'.chars ++ i.text f ++
      ';' :: (g₁.chars ++ optional f e ++ ';' :: (g₂.chars ++ optional f e')))

mutual

inductive Item : Type where
  | function (head : Header) (body : Block)
  | declaration (d : Declaration) (behind : Gap)
  | block (body : Block)
  | guarded (guard : Guard) (behind : Gap) (body : Block)
  | choice (behindIf inside : Gap) (test : Expr) (behind : Gap) (body : Block) (behindElse : Gap)
    (other : Block)
  | leave (inside behind : Gap)
  | yield (inside : Break) (value : Expr) (behind : Gap)
  | expression (e : Expr) (behind : Gap)

inductive Items : Type where
  | nil
  | cons (i : Item) (is : Items)

inductive Block : Type where
  | braces (inside : Gap) (is : Items) (behind : Gap)

end

mutual

def Item.text (f : Form) : Item → List Char
  | .function h b => h.text f ++ b.text (f.inside h.isEntry)
  | .declaration d g => d.text f ++ ';' :: g.chars
  | .block b => b.text f
  | .guarded k g b => k.text f ++ ')' :: (g.chars ++ b.text f)
  | .choice g g' e g₁ b g₂ b' =>
    (Guard.branch g g' e).text f ++ ')' ::
      (g₁.chars ++ b.text f ++ "else".toList ++ g₂.chars ++ b'.text f)
  | .leave g g' => "return".toList ++ g.chars ++ ';' :: g'.chars
  | .yield g e g' => "return".toList ++ g.chars ++ e.text f ++ ';' :: g'.chars
  | .expression e g => e.text f ++ ';' :: g.chars

def Items.text (f : Form) : Items → List Char
  | .nil => []
  | .cons i is => i.text f ++ is.text f

def Block.text (f : Form) : Block → List Char
  | .braces g is g' => '{' :: (g.chars ++ is.text f ++ '}' :: g'.chars)

end

end Sketch

/-- A sketch: blanks, and the items behind them. -/
structure Sketch where
  lead : Sketch.Gap
  items : Sketch.Items

/-- The text of a sketch. Outside of functions nothing suspends. -/
def Sketch.text (f : Form) (s : Sketch) : String :=
  String.ofList (s.lead.chars ++ s.items.text f)

end LedSketch.Dialect
