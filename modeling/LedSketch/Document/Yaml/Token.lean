import LedSketch.Document.Yaml.Prose
import LedSketch.Text.Utf8

/-!
# Tokens of a YAML document

A document is cut into tokens. Indentation is turned into tokens that open and close collections.
What stands in front of a colon is a key; since the colon comes later, each place where a key may
have started is remembered, one for each level of brackets, and the tokens of a key are put in front
of it when the colon is found. A key that stays on one line and is at most 1024 characters away from
its colon needs no mark of its own.

* `tokens` — the tokens of a text.
-/

namespace LedSketch.Yaml

/-- A directive in front of a document. -/
inductive Directive where
  | version (major : Nat)
  | tag (handle text : String)
  | other

/-- A token. -/
inductive Token where
  | directive (d : Directive)
  | documentStart
  | documentEnd
  | blockList
  | blockMap
  | blockEnd
  | flowList
  | flowListEnd
  | flowMap
  | flowMapEnd
  | entry
  | flowEntry
  | key
  | value
  | alias (name : String)
  | anchor (name : String)
  /-- A tag, whose text stands behind its handle, if it has one. -/
  | tag (handle : Option String) (text : String)
  | text (s : String) (isPlain : Bool)

/-- A place where a key may have started. -/
structure KeyStart where
  /-- How many tokens are in front of it. -/
  tokens : Nat
  /-- Whether a colon must follow. -/
  needed : Bool
  cursor : Cursor

/-- What has been cut so far. -/
structure Cutting where
  cursor : Cursor
  tokens : Array Token := #[]
  /-- How many brackets are open. -/
  level : Nat := 0
  indent : Int := -1
  /-- The indentations around the present one, the innermost first. -/
  outer : List Int := []
  /-- Whether a key may start here. -/
  keyAllowed : Bool := true
  /-- Where keys may have started, by level. -/
  keys : List (Nat × KeyStart) := []

namespace Cutting

/-! ## Small steps -/

/-- Adds a token. -/
def push (s : Cutting) (t : Token) : Cutting := { s with tokens := s.tokens.push t }

/-- Adds a token of some characters. -/
def take (s : Cutting) (n : Nat) (t : Token) : Cutting :=
  { s.push t with cursor := s.cursor.skip n }

/-- Adds a token that was found up to a place. -/
def found (s : Cutting) (t : Token) (c : Cursor) : Cutting := { s.push t with cursor := c }

/-- Sets whether a key may start here. -/
def allowKey (s : Cutting) (b : Bool) : Cutting := { s with keyAllowed := b }

/-- Closes all collections that are indented further than a column. -/
def closeTo (column : Int) (s : Cutting) : Cutting :=
  if s.level ≠ 0 then s
  else
    let inner := (s.indent :: s.outer).takeWhile (column < ·)
    let left := (s.indent :: s.outer).drop inner.length
    let tokens := s.tokens ++ (inner.map fun _ => Token.blockEnd).toArray
    { s with tokens, indent := left.headD (-1), outer := left.drop 1 }

/-- Opens a collection at a column, unless one is open there. -/
def openAt (column : Int) (at_ : Nat) (t : Token) (s : Cutting) : Cutting :=
  if s.indent < column then
    { s with
      indent := column, outer := s.indent :: s.outer, tokens := s.tokens.insertIdxIfInBounds at_ t }
  else s

/-- Whether a key may have started so far back. -/
def isStale (s : Cutting) (k : KeyStart) : Bool :=
  k.cursor.line ≠ s.cursor.line || 1024 < s.cursor.index - k.cursor.index

/-- Forgets where keys may have started too far back; a needed one must not be among them. -/
def dropStale (s : Cutting) : Except Refusal Cutting :=
  let (stale, fresh) := s.keys.partition fun k => s.isStale k.2
  if stale.any (·.2.needed) then refuse else .ok { s with keys := fresh }

/-- Forgets where a key of this level may have started; it must not be needed. -/
def dropKey (s : Cutting) : Except Refusal Cutting :=
  let (here, others) := s.keys.partition (·.1 == s.level)
  if here.any (·.2.needed) then refuse else .ok { s with keys := others }

/-- Remembers that a key may start here. -/
def saveKey (s : Cutting) : Except Refusal Cutting :=
  if !s.keyAllowed then .ok s
  else do
    let needed := s.level == 0 && s.indent == s.cursor.column
    let s ← s.dropKey
    return { s with keys := (s.level, ⟨s.tokens.size, needed, s.cursor⟩) :: s.keys }

/-- Passes over spaces, comments and line ends, at most `fuel` of them. -/
def skipGaps : Nat → Cutting → Cutting
  | 0, s => s
  | fuel + 1, s =>
    let c := (s.cursor.skipWhile (· == ' ')).skipComment
    match c.lineEnd? with
    | none => { s with cursor := c }
    | some (_, c) =>
      skipGaps fuel { s with cursor := c, keyAllowed := s.keyAllowed || s.level == 0 }

/-! ## Directives, names and tags -/

/-- A name that stands here. -/
def name (c : Cursor) : Except Refusal (String × Cursor) :=
  let (cs, c) := c.span isNameChar
  if cs.isEmpty then refuse else .ok (String.ofList cs, c)

/-- A decimal number that stands here. -/
def decimal (c : Cursor) : Except Refusal (Nat × Cursor) :=
  let (cs, c) := c.span Json.isAsciiDigit
  if cs.isEmpty then refuse else .ok (Reading.ofDigits 10 (cs.map fun d => d.toNat - 48), c)

/-- The handle of a tag, which stands here: an exclamation mark, a name, and another mark. -/
def handle (c : Cursor) : Except Refusal (String × Cursor) :=
  if !c.at? '!' then refuse
  else if c.look 1 == some ' ' then .ok ("!", c.next)
  else
    let (cs, d) := c.next.span isNameChar
    if d.at? '!' then .ok ("!" ++ String.ofList cs ++ "!", d.next) else refuse

/-- A character of the text of a tag. -/
def isTagChar (c : Char) : Bool :=
  Text.isAsciiAlnum c || "-;/?:@&=+$,_.!~*'()[]%".toList.contains c

/-- The octets that hexadecimal escapes stand for. -/
def octets : Nat → List Char → Except Refusal (List UInt8 × List Char)
  | fuel + 1, '%' :: cs => do
    let ds ← need ((cs.take 2).mapM Json.hexDigit?)
    if ds.length < 2 then refuse
    else
      let (bs, rest) ← octets fuel (cs.drop 2)
      return (UInt8.ofNat (Reading.ofDigits 16 ds) :: bs, rest)
  | _, cs => .ok ([], cs)

/-- The text of a tag without its escapes. -/
def unescaped : Nat → List Char → Except Refusal (List Char)
  | 0, _ => .ok []
  | _, [] => .ok []
  | fuel + 1, c :: cs =>
    if c = '%' then do
      let (bs, rest) ← octets (cs.length + 1) (c :: cs)
      let s ← (Utf8.decode bs).mapError fun _ => Refusal.badYaml
      return s.toList ++ (← unescaped fuel rest)
    else return c :: (← unescaped fuel cs)

/-- The text of a tag that stands here. -/
def tagText (c : Cursor) : Except Refusal (String × Cursor) :=
  let (cs, d) := c.span isTagChar
  if cs.isEmpty then refuse
  else do return (String.ofList (← unescaped cs.length cs), d)

/-- A directive; the cursor stands behind its mark. -/
def directive (c : Cursor) : Except Refusal (Directive × Cursor) := do
  let (name, c) ← name c
  if !c.ends isPause 0 then refuse
  else if name = "YAML" then
    let (major, c) ← decimal (c.skipWhile (· == ' '))
    if !c.at? '.' then refuse
    else
      let (_, c) ← decimal c.next
      return (.version major, c)
  else if name = "TAG" then
    let (handle, c) ← handle (c.skipWhile (· == ' '))
    if !c.at? ' ' then refuse
    else
      let (text, c) ← tagText (c.skipWhile (· == ' '))
      return (.tag handle text, c)
  else return (.other, c.skipWhile (!isBreak ·))

/-- Whether the handle of a tag is longer than its mark: a second mark follows before the next
pause. -/
def hasHandle (c : Cursor) : Bool := (c.next.rest.takeWhile (!isPause ·)).contains '!'

/-- A tag, whose mark stands here. -/
def tag (c : Cursor) : Except Refusal (Token × Cursor) := do
  let (t, c) ←
    if c.look 1 == some '<' then do
      let (text, c) ← tagText (c.skip 2)
      if c.at? '>' then pure (Token.tag none text, c.next) else refuse
    else if c.ends isGap 1 then pure (Token.tag none "!", c.next)
    else do
      let (handle, c) ← if hasHandle c then handle c else pure ("!", c.next)
      let (text, c) ← tagText c
      pure (Token.tag (some handle) text, c)
  if c.ends isPause 0 then return (t, c) else refuse

/-- The name of an anchor or alias; the cursor stands behind its mark. -/
def anchorName (c : Cursor) : Except Refusal (String × Cursor) := do
  let (name, c) ← name c
  if c.ends (fun x => isGap x || "?:,]%@".toList.contains x || x == '\x7d' || x.toNat == 96) 0 then
    return (name, c)
  else refuse

/-! ## Tokens -/

/-- A mark on its own line, which closes all that is open. -/
def documentMark (s : Cutting) (t : Token) : Except Refusal Cutting := do
  let s ← (s.closeTo (-1)).dropKey
  return (s.allowKey false).take 3 t

/-- An opening bracket. -/
def openFlow (s : Cutting) (t : Token) : Except Refusal Cutting := do
  let s ← s.saveKey
  return { s.take 1 t with level := s.level + 1, keyAllowed := true }

/-- A closing bracket. -/
def closeFlow (s : Cutting) (t : Token) : Except Refusal Cutting := do
  let s ← s.dropKey
  if s.level = 0 then refuse
  else return { s.take 1 t with level := s.level - 1, keyAllowed := false }

/-- Opens a collection here if there is none at this column; there must be room for one. -/
def openHere (s : Cutting) (t : Token) : Except Refusal Cutting :=
  if s.level ≠ 0 then .ok s
  else if !s.keyAllowed then refuse
  else .ok (s.openAt s.cursor.column s.tokens.size t)

/-- The mark of an entry of a list. -/
def entryMark (s : Cutting) : Except Refusal Cutting := do
  let s ← s.openHere .blockList
  let s ← (s.allowKey true).dropKey
  return s.take 1 .entry

/-- The mark of a key. -/
def keyMark (s : Cutting) : Except Refusal Cutting := do
  let s ← s.openHere .blockMap
  let s ← (s.allowKey (s.level == 0)).dropKey
  return s.take 1 .key

/-- The colon in front of a value. If a key may have started, its tokens are put in front of it. -/
def valueMark (s : Cutting) : Except Refusal Cutting :=
  match s.keys.lookup s.level with
  | some k =>
    let tokens := s.tokens.insertIdxIfInBounds k.tokens .key
    let s := { s with tokens, keys := s.keys.filter (·.1 != s.level) }
    let s := if s.level = 0 then s.openAt k.cursor.column k.tokens .blockMap else s
    .ok ((s.allowKey false).take 1 .value)
  | none => do
    let s ← s.openHere .blockMap
    let s ← (s.allowKey (s.level == 0)).dropKey
    return s.take 1 .value

/-- A part of a node that may start a key. -/
def part (s : Cutting) (read : Cursor → Except Refusal (Token × Cursor)) :
    Except Refusal Cutting := do
  let s ← s.saveKey
  let (t, c) ← read s.cursor
  return (s.allowKey false).found t c

/-- A block of lines. -/
def blockText (s : Cutting) (folded : Bool) : Except Refusal Cutting := do
  let s ← (s.allowKey true).dropKey
  let (text, c) ← block folded s.indent s.cursor
  return s.found (.text text false) c

/-- A plain text. -/
def plainText (s : Cutting) : Except Refusal Cutting := do
  let s ← s.saveKey
  let (text, c, crossed) := plain (s.level != 0) (s.indent + 1) s.cursor
  return (s.found (.text text true) c).allowKey crossed

/-- Whether a plain text may start here. -/
def startsPlain (s : Cutting) (c : Char) : Bool :=
  let marks := "-?:,[]#&*!|>'\"%@".toList
  let isMark := marks.contains c || c == '\x7b' || c == '\x7d' || c.toNat == 96
  (!isGap c && !isMark)
    || (!s.cursor.ends isGap 1 && (c == '-' || (s.level == 0 && (c == '?' || c == ':'))))

/-- Cuts the token whose first character is given. -/
def cut (s : Cutting) (x : Char) : Except Refusal Cutting :=
  let c := s.cursor
  let inFlow := s.level != 0
  let lineStart := c.column == 0
  let gapFollows := c.ends isGap 1
  if x = '%' && lineStart then do
    let s ← (s.closeTo (-1)).dropKey
    let (d, c) ← directive c.next
    return (s.allowKey false).found (.directive d) (← need c.restOfLine?)
  else if lineStart && c.atMarks '-' then s.documentMark .documentStart
  else if lineStart && c.atMarks '.' then s.documentMark .documentEnd
  else if x = '[' then s.openFlow .flowList
  else if x = '{' then s.openFlow .flowMap
  else if x = ']' then s.closeFlow .flowListEnd
  else if x = '}' then s.closeFlow .flowMapEnd
  else if x = ',' then do
    let s ← (s.allowKey true).dropKey
    return s.take 1 .flowEntry
  else if x = '-' && gapFollows then s.entryMark
  else if x = '?' && (inFlow || gapFollows) then s.keyMark
  else if x = ':' && (inFlow || gapFollows) then s.valueMark
  else if x = '*' then s.part fun c => do
    let (name, c) ← anchorName c.next
    return (.alias name, c)
  else if x = '&' then s.part fun c => do
    let (name, c) ← anchorName c.next
    return (.anchor name, c)
  else if x = '!' then s.part tag
  else if (x = '|' || x = '>') && !inFlow then s.blockText (x == '>')
  else if x = '\'' || x = '"' then s.part fun c => do
    let (text, c) ← quoted c
    return (.text text false, c)
  else if s.startsPlain x then s.plainText
  else refuse

/-- Cuts tokens up to the end, at most one for each character. -/
def run : Nat → Cutting → Except Refusal (Array Token)
  | 0, _ => refuse
  | fuel + 1, s => do
    let s := s.skipGaps (s.cursor.rest.length + 1)
    let s := (← s.dropStale).closeTo s.cursor.column
    match s.cursor.look 0 with
    | none => return (← (s.closeTo (-1)).dropKey).tokens
    | some x => run fuel (← s.cut x)

end Cutting

/-- The tokens of a text. -/
def tokens (s : String) : Except Refusal (List Token) :=
  let cs := s.toList
  if !cs.all isAllowed then refuse
  else do
    let start : Cursor := { rest := cs }
    let start := if start.at? '\uFEFF' then start.next else start
    return (← Cutting.run (cs.length + 1) { cursor := start }).toList

end LedSketch.Yaml
