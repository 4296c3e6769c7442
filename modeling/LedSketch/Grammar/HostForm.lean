import LedSketch.Grammar.Peg
import LedSketch.Text.Quoted

/-!
# The grammar of the host form

The host form is the language that rewritten sketches are run in. A rule that yields a tree starts
with blanks only if it is the tail of an expression: elsewhere the sequence that refers to the rule
skips them, so that the tree begins at its first lexeme. Punctuation leaves no tree, operators
survive as leaves, and each level of binary operators yields a node of its operands even if there is
only one.

`parse` reads a whole source and reports the first character that no statement takes.

`hostForm` embeds the rules of `grammar/lumalab_grammar.yaml`. Its levels of binary operators (lines
317-455) are one rule with a `Level`, and rules that only group others stand where they are used.
`parse` is the host-form parser of section 2 of the specification (`SPEC_FULL.md:56-60`).
-/

namespace LedSketch.Grammar

/-- The levels of binary operators, the loosest first. -/
inductive Level where
  | logicalOr
  | logicalAnd
  | bitOr
  | bitXor
  | bitAnd
  | equality
  | relational
  | shift
  | additive
  | multiplicative
deriving DecidableEq, Repr

/-- The next tighter level. -/
def Level.tighter? : Level → Option Level
  | logicalOr => some logicalAnd
  | logicalAnd => some bitOr
  | bitOr => some bitXor
  | bitXor => some bitAnd
  | bitAnd => some equality
  | equality => some relational
  | relational => some shift
  | shift => some additive
  | additive => some multiplicative
  | multiplicative => none

open Lexeme in
/-- The operators of a level. Each refuses where a longer operator starts. -/
def Level.operator : Level → Lexeme
  | logicalOr => literal "||"
  | logicalAnd => literal "&&"
  | bitOr => notBefore "|=" "|"
  | bitXor => notBefore "=" "^"
  | bitAnd => notBefore "&=" "&"
  | equality => firstOf [literal "===", literal "!==", literal "==", literal "!="]
  | relational => firstOf [literal "<=", literal ">=", notBefore "<=" "<", notBefore ">=" ">"]
  | shift => firstOf [notBefore "=" "<<", notBefore "=" ">>"]
  | additive => firstOf [notBefore "+=" "+", notBefore "-=" "-"]
  | multiplicative => firstOf [notBefore "=/*" "*", notBefore "=/*" "/", notBefore "=/*" "%"]

/-- The rules of the grammar that others refer to. -/
inductive Rule where
  | blank
  | endOfStatement
  | program
  | item
  | statement
  | block
  | functionDecl
  | varDecl
  | declarator
  | ifStatement
  | forStatement
  | whileStatement
  | doWhileStatement
  | returnStatement
  | expressionStatement
  | expression
  | assignment
  | conditional
  | binary (level : Level)
  | unary
  | postfixed
  | access
  | callArguments
  | memberAccess
  | indexAccess
  | primary
  | group
  | array
  | string
  | template
  | interpolation
  | identifier
deriving DecidableEq, Repr

open Peg Lexeme

/-- A lexeme that leaves no tree. -/
def silent (m : Lexeme) : Peg Rule := drop (token m)

/-- Punctuation. -/
def punct (s : String) : Peg Rule := silent (literal s)

/-- A word of the language that leaves no tree. -/
def keyword (s : String) : Peg Rule := silent (word s)

/-- White space and comments. -/
def blank : Peg Rule := rule .blank

/-- The end of a statement. -/
def endOfStatement : Peg Rule := rule .endOfStatement

/-- An operator. -/
def op (m : Lexeme) : Peg Rule := leaf "op" (token m)

/-- Parts with blanks between them. -/
def spaced : List (Peg Rule) → Peg Rule
  | [] => seq []
  | [p] => p
  | p :: ps => seq (p :: ps.flatMap fun q => [blank, q])

/-- A part in parentheses. -/
def inParens (p : Peg Rule) : List (Peg Rule) := [punct "(", p, punct ")"]

/-- Further parts, each behind a comma. -/
def moreBehindCommas (p : Peg Rule) : Peg Rule := many (seq [blank, punct ",", blank, p])

/-- The operators of assignments. -/
def assignOperator : Lexeme :=
  firstOf ((["", "<<", ">>", "-", "+", "*", "/", "%", "&", "|", "^"].map fun s => s ++ "=").map
    (notBefore "="))

/-- The operators in front of an operand. -/
def unaryOperator : Lexeme :=
  firstOf [literal "++", literal "--", literal "!", literal "~", literal "+", literal "-",
    word "typeof", word "await"]

/-- The update operators behind an operand, on the same line. -/
def updateOperator : Lexeme := indented (firstOf [literal "++", literal "--"])

/-- The operand of a binary level. -/
def operand (l : Level) : Peg Rule :=
  match l.tighter? with
  | some t => rule (.binary t)
  | none => rule .unary

/-- What each rule stands for. -/
def hostForm : Rule → Peg Rule
  | .blank => silent gap
  | .endOfStatement => silent endOfStatement?
  | .program => node "program" (seq [many (rule .item), blank])
  | .item => seq [blank, rule .statement]
  | .statement => choice
    [rule .block, rule .functionDecl, seq [rule .varDecl, endOfStatement], rule .ifStatement,
      rule .forStatement, rule .whileStatement, rule .doWhileStatement, rule .returnStatement,
      leaf "break" (seq [token (word "break"), endOfStatement]),
      leaf "continue" (seq [token (word "continue"), endOfStatement]),
      leaf "empty" (token (literal ";")), rule .expressionStatement]
  | .block => node "block" (seq [punct "\x7b", many (rule .item), blank, punct "\x7d"])
  | .functionDecl => node "function-decl" (spaced
    [optional (leaf "async" (token (word "async"))), keyword "function", rule .identifier,
      punct "(",
      optional (seq [rule .identifier, moreBehindCommas (rule .identifier)]),
      punct ")", rule .block])
  | .varDecl => node "var-decl" (seq
    [leaf "var-kind" (token (firstOf [word "let", word "const", word "var"])), blank,
      rule .declarator, moreBehindCommas (rule .declarator)])
  | .declarator => node "declarator" (seq
    [rule .identifier,
      optional (seq [blank, silent (notBefore "=" "="), blank, rule .assignment])])
  | .ifStatement => node "if" (seq
    [spaced (keyword "if" :: inParens (rule .expression) ++ [rule .statement]),
      optional (node "else" (seq [blank, keyword "else", blank, rule .statement]))])
  | .forStatement => node "for" (spaced
    [keyword "for", punct "(",
      optional (node "for-init" (choice [rule .varDecl, rule .expression])), punct ";",
      optional (node "for-test" (rule .expression)), punct ";",
      optional (node "for-update" (rule .expression)), punct ")", rule .statement])
  | .whileStatement => node "while"
    (spaced (keyword "while" :: inParens (rule .expression) ++ [rule .statement]))
  | .doWhileStatement => node "do-while" (seq
    [spaced ([keyword "do", rule .statement, keyword "while"] ++ inParens (rule .expression)),
      optional endOfStatement])
  | .returnStatement => node "return" (seq
    [keyword "return", optional (seq [silent sameLine?, rule .expression]), endOfStatement])
  | .expressionStatement => node "expr-stmt" (seq [rule .expression, endOfStatement])
  | .expression => node "expression" (seq
    [rule .assignment,
      many (node "comma-tail" (seq [blank, punct ",", blank, rule .assignment]))])
  | .assignment => node "assignment" (seq
    [rule .conditional,
      optional (node "assign-tail" (seq [blank, op assignOperator, blank, rule .assignment]))])
  | .conditional => node "conditional" (seq
    [rule (.binary .logicalOr),
      optional (node "conditional-tail" (seq
        [blank, punct "?", blank, rule .assignment, blank, punct ":", blank, rule .assignment]))])
  | .binary l => node "binary" (seq
    [operand l, many (node "binary-tail" (seq [blank, op l.operator, blank, operand l]))])
  | .unary => choice
    [node "unary" (seq [op unaryOperator, blank, rule .unary]), rule .postfixed]
  | .postfixed => node "postfix" (seq [rule .access, optional (op updateOperator)])
  | .access => node "access" (seq
    [rule .primary,
      many (choice [rule .callArguments, rule .memberAccess, rule .indexAccess])])
  | .callArguments => node "call" (seq
    [blank, punct "(", blank,
      optional (seq [rule .assignment, moreBehindCommas (rule .assignment)]), blank, punct ")"])
  | .memberAccess => node "member" (seq
    [blank, punct ".", blank, leaf "property" (token property?)])
  | .indexAccess => node "index" (seq
    [blank, punct "[", blank, rule .expression, blank, punct "]"])
  | .primary => choice
    [leaf "number" (token numeral?), rule .string, rule .template,
      leaf "boolean" (token (firstOf [word "true", word "false"])),
      leaf "null" (token (word "null")), leaf "undefined" (token (word "undefined")),
      rule .array, rule .group, rule .identifier]
  | .group => node "group" (spaced (inParens (rule .expression)))
  | .array => node "array" (seq
    [punct "[", blank,
      optional (seq [rule .assignment, moreBehindCommas (rule .assignment),
        optional (silent trailingComma?)]),
      blank, punct "]"])
  | .string => leaf "string" (token string?)
  | .template => node "template" (seq
    [punct "\x60", many (choice [leaf "chunk" (token chunk?), rule .interpolation]),
      punct "\x60"])
  | .interpolation => node "interpolation" (seq
    [punct "$\x7b", blank, rule .expression, blank, punct "\x7d"])
  | .identifier => leaf "name" (token identifier?)

/-- Enough fuel for a source: no rule leads through more than a hundred expressions before a
character is taken. -/
def fuelFor (source : List Char) : Nat := 200 * (source.length + 2)

/-- The outcome of reading a source as far as statements go. -/
def readProgram (source : List Char) : Outcome :=
  run hostForm (fuelFor source) (.rule .program) (Cursor.start source)

/-- Why a source has no tree. -/
inductive SyntaxProblem where
  /-- No statement takes what is left at a place. -/
  | leftOver (place : Cursor)
  | unreadable

/-- The tree of a whole source. -/
def parse (source : String) : Except SyntaxProblem Tree :=
  match readProgram source.toList with
  | .got [t] c => if c.rest.isEmpty then .ok t else .error (.leftOver c)
  | _ => .error .unreadable

/-- The words that report a syntax problem. -/
def SyntaxProblem.text : SyntaxProblem → String
  | .leftOver c =>
    let shown := String.ofList ((c.rest.take 20).takeWhile (· ≠ '\n'))
    let message :=
      s!"Parse Error in input text at L{c.line}:C{c.col}. Rule 'program' parsed successfully, "
        ++ "but failed to consume the entire input. Unconsumed text begins with: '"
        ++ shown ++ "...'"
    "\x7b'status': 'error', 'message': " ++ Text.quoted message ++ "\x7d"
  | .unreadable => "\x7b'status': 'error'\x7d"

end LedSketch.Grammar
