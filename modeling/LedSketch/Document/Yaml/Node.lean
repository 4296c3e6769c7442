import LedSketch.Document.Yaml.Form
import LedSketch.Document.Yaml.Token

/-!
# Nodes of a YAML document

A node is a text, a list or a map, each with a tag. A node without a tag is given one: a plain text
by its form, all others by their kind. An anchor names a node, and an alias stands for the node of
that name. An alias inside of the node that it names makes a node without end; such a node is
unrolled a fixed number of times, which is deeper than any answer shows.

* `document` — the node of a text that holds one document, or none.
-/

namespace LedSketch.Yaml

/-! ## Nodes -/

/-- A node of a document. -/
inductive Node where
  | text (tag : Tag) (s : String)
  | list (tag : Tag) (items : List Node)
  | map (tag : Tag) (entries : List (Node × Node))
  /-- A node around this one, by its anchor. -/
  | around (anchor : String)

namespace Node

instance : Inhabited Node := ⟨.text .null ""⟩

/-- The node of no text at all. -/
def empty : Node := .text .null ""

mutual

/-- Whether a node refers to a node around it. -/
def refers (a : String) : Node → Bool
  | .around b => a == b
  | .list _ items => refersAny a items
  | .map _ entries => refersEntry a entries
  | .text .. => false

/-- Whether one of some nodes refers to a node around it. -/
def refersAny (a : String) : List Node → Bool
  | [] => false
  | n :: ns => refers a n || refersAny a ns

/-- Whether one of some entries refers to a node around it. -/
def refersEntry (a : String) : List (Node × Node) → Bool
  | [] => false
  | (k, v) :: rest => refers a k || refers a v || refersEntry a rest

end

mutual

/-- Puts a node where a node refers to the one around it. -/
def fill (a : String) (by_ : Node) : Node → Node
  | .around b => if a == b then by_ else .around b
  | .list t items => .list t (fillAll a by_ items)
  | .map t entries => .map t (fillEntries a by_ entries)
  | .text t s => .text t s

/-- Puts a node where some nodes refer to the one around them. -/
def fillAll (a : String) (by_ : Node) : List Node → List Node
  | [] => []
  | n :: ns => fill a by_ n :: fillAll a by_ ns

/-- Puts a node where some entries refer to the one around them. -/
def fillEntries (a : String) (by_ : Node) : List (Node × Node) → List (Node × Node)
  | [] => []
  | (k, v) :: rest => (fill a by_ k, fill a by_ v) :: fillEntries a by_ rest

end

/-- How often a node without end is unrolled. -/
def unrolling : Nat := 48

/-- A node without end, unrolled. -/
def unrolled (a : String) (n : Node) : Node :=
  if refers a n then Nat.rec empty (fun _ inner => fill a inner n) unrolling else n

end Node

/-! ## From tokens to nodes -/

/-- What is left of the tokens, and what is known by name. -/
structure Naming where
  tokens : List Token
  handles : List (String × String) := []
  anchors : List (String × Node) := []
  /-- The anchors of the nodes around. -/
  around : List String := []

/-- Reads nodes. -/
abbrev Compose := StateT Naming (Except Refusal)

namespace Compose

/-- Refuses the document. -/
def fail {α : Type} : Compose α := fun _ => refuse

/-- The next token. -/
def peek : Compose (Option Token) := do return (← get).tokens.head?

/-- Passes over a token. -/
def next : Compose Unit := modify fun s => { s with tokens := s.tokens.drop 1 }

/-- Passes over a token if it is one of a kind. -/
def accept (p : Token → Bool) : Compose Bool := do
  if (← peek).any p then
    next
    return true
  else return false

/-- Whether the next token is one of a kind. -/
def sees (p : Token → Bool) : Compose Bool := do return (← peek).any p

/-- The anchor in front of a node. -/
def anchor? : Compose (Option String) := do
  match ← peek with
  | some (.anchor a) =>
    next
    return some a
  | _ => return none

/-- The full name of the tag in front of a node; a lone mark is kept as it is. -/
def tagName? : Compose (Option String) := do
  match ← peek with
  | some (.tag handle text) =>
    next
    match handle with
    | none => return some text
    | some h => match (← get).handles.lookup h with
      | some start => return some (start ++ text)
      | none => fail
  | _ => return none

/-- Anchor and tag in front of a node, in either order. -/
def properties : Compose (Option String × Option String) := do
  match ← anchor? with
  | some a => return (some a, ← tagName?)
  | none =>
    let t ← tagName?
    if t.isSome then return (← anchor?, t) else return (none, none)

/-- The tag of a name; without one, or with the lone mark, the node has the tag of its form. -/
def tagOr (form : Tag) : Option String → Tag
  | none => form
  | some name => if name = "!" then form else Tag.ofName name

/-- Reads a node of a name, which its parts may refer to. -/
def named (anchor : Option String) (read : Compose Node) : Compose Node := do
  match anchor with
  | none => read
  | some a =>
    modify fun s => { s with around := a :: s.around }
    let n := (← read).unrolled a
    modify fun s => { s with around := s.around.erase a, anchors := (a, n) :: s.anchors }
    return n

/-- The node that an alias stands for. -/
def ofAlias (a : String) : Compose Node := do
  let s ← get
  match s.anchors.lookup a with
  | some n => return n
  | none => if s.around.contains a then return .around a else fail

/-! ### Kinds of tokens -/

/-- Marks in front of which a key or value of a block map may be missing. -/
def endsKey : Token → Bool
  | .key | .value | .blockEnd => true
  | _ => false

/-- Marks in front of which an entry of a list may be missing. -/
def endsEntry : Token → Bool
  | .entry | .blockEnd => true
  | _ => false

/-- Marks in front of which a key of a flow map may be missing. -/
def endsFlowKey : Token → Bool
  | .value | .flowEntry | .flowMapEnd => true
  | _ => false

/-- Marks in front of which the value of a single pair in a flow list may be missing. -/
def endsPair : Token → Bool
  | .flowEntry | .flowListEnd => true
  | _ => false

def isEntry : Token → Bool
  | .entry => true
  | _ => false

def isKey : Token → Bool
  | .key => true
  | _ => false

def isValue : Token → Bool
  | .value => true
  | _ => false

def isBlockEnd : Token → Bool
  | .blockEnd => true
  | _ => false

def isFlowEntry : Token → Bool
  | .flowEntry => true
  | _ => false

def isFlowListEnd : Token → Bool
  | .flowListEnd => true
  | _ => false

def isFlowMapEnd : Token → Bool
  | .flowMapEnd => true
  | _ => false

def isDocumentEnd : Token → Bool
  | .documentEnd => true
  | _ => false

/-- Marks in front of which a document may be empty. -/
def endsDocument : Token → Bool
  | .directive _ | .documentStart | .documentEnd => true
  | _ => false

/-- Passes over the comma in front of what is not the first part of a flow; says whether it is
there. -/
def separated (isFirst : Bool) : Compose Bool :=
  if isFirst then return true else accept isFlowEntry

/-! ### Nodes -/

mutual

/-- Reads a node. Only some places may hold a block, and only a key or value of a block map may hold
a list that is not indented. -/
def node (inBlock listFits : Bool) : Nat → Compose Node
  | 0 => fail
  | fuel + 1 => do
    match ← peek with
    | some (.alias a) =>
      next
      ofAlias a
    | _ =>
      let (anchor, tag) ← properties
      let s ← get
      let taken (a : String) : Bool := (s.anchors.lookup a).isSome || s.around.contains a
      if anchor.any taken then fail
      else
        named anchor do
          match ← peek with
          | some (.text s isPlain) =>
            next
            let form := if isPlain || tag == some "!" then Form.tagOf s else .str
            return .text (tagOr form tag) s
          | some .entry =>
            if listFits then return .list (tagOr .seq tag) (← entries false fuel)
            else emptyText anchor tag
          | some .flowList =>
            next
            return .list (tagOr .seq tag) (← flowItems true fuel)
          | some .flowMap =>
            next
            return .map (tagOr .map tag) (← flowEntries true fuel)
          | some .blockList =>
            if inBlock then
              next
              return .list (tagOr .seq tag) (← entries true fuel)
            else emptyText anchor tag
          | some .blockMap =>
            if inBlock then
              next
              return .map (tagOr .map tag) (← blockEntries fuel)
            else emptyText anchor tag
          | _ => emptyText anchor tag

/-- A node without a text, which needs an anchor or a tag. -/
def emptyText (anchor tag : Option String) : Compose Node :=
  if anchor.isSome || tag.isSome then
    let form : Tag := if tag.isNone || tag == some "!" then .null else .str
    return .text (tagOr form tag) ""
  else fail

/-- A node of a block, or the empty one in front of some tokens. -/
def blockNode (listFits : Bool) (missing : Token → Bool) : Nat → Compose Node
  | 0 => fail
  | fuel + 1 => do
    if ← sees missing then return .empty else node true listFits fuel

/-- A node inside of brackets, or the empty one in front of some tokens. -/
def flowNode (missing : Token → Bool) : Nat → Compose Node
  | 0 => fail
  | fuel + 1 => do
    if ← sees missing then return .empty else node false false fuel

/-- The entries of a list; one that is indented ends with a mark. -/
def entries (isIndented : Bool) : Nat → Compose (List Node)
  | 0 => fail
  | fuel + 1 => do
    if ← accept isEntry then
      let ends := if isIndented then endsEntry else fun t => isEntry t || endsKey t
      let n ← blockNode false ends fuel
      return n :: (← entries isIndented fuel)
    else if !isIndented then return []
    else if ← accept isBlockEnd then return []
    else fail

/-- The entries of a block map. -/
def blockEntries : Nat → Compose (List (Node × Node))
  | 0 => fail
  | fuel + 1 => do
    if ← accept isBlockEnd then return []
    else
      let k ← if ← accept isKey then blockNode true endsKey fuel else fail
      let v ← if ← accept isValue then blockNode true endsKey fuel else pure .empty
      return (k, v) :: (← blockEntries fuel)

/-- The items of a flow list. -/
def flowItems (isFirst : Bool) : Nat → Compose (List Node)
  | 0 => fail
  | fuel + 1 => do
    if ← accept isFlowListEnd then return []
    else if !(← separated isFirst) then fail
    else if ← accept isKey then
      let k ← flowNode (fun t => isValue t || endsPair t) fuel
      let v ← if ← accept isValue then flowNode endsPair fuel else pure .empty
      return .map .map [(k, v)] :: (← flowItems false fuel)
    else if ← accept isFlowListEnd then return []
    else
      let n ← node false false fuel
      return n :: (← flowItems false fuel)

/-- The entries of a flow map. -/
def flowEntries (isFirst : Bool) : Nat → Compose (List (Node × Node))
  | 0 => fail
  | fuel + 1 => do
    if ← accept isFlowMapEnd then return []
    else if !(← separated isFirst) then fail
    else if ← accept isKey then
      let k ← flowNode endsFlowKey fuel
      let v ← if ← accept isValue then flowNode (fun t => isFlowEntry t || isFlowMapEnd t) fuel
        else pure .empty
      return (k, v) :: (← flowEntries false fuel)
    else if ← accept isFlowMapEnd then return []
    else
      let k ← node false false fuel
      return (k, .empty) :: (← flowEntries false fuel)

end

/-! ### Documents -/

/-- The handles that every document knows. -/
def knownHandles : List (String × String) := [("!", "!"), ("!!", Tag.stem)]

/-- Reads directives, of which there may be one version, of the first edition, and one meaning for
each handle. -/
def directives (hasVersion : Bool) : Nat → Compose Unit
  | 0 => fail
  | fuel + 1 => do
    match ← peek with
    | some (.directive d) =>
      next
      match d with
      | .version major => if hasVersion || major ≠ 1 then fail else directives true fuel
      | .tag handle text =>
        let s ← get
        if (s.handles.lookup handle).isSome then fail
        else
          set { s with handles := (handle, text) :: s.handles }
          directives hasVersion fuel
      | .other => directives hasVersion fuel
    | _ => return

/-- Passes over marks that end a document. -/
def documentEnds : Nat → Compose Unit
  | 0 => return
  | fuel + 1 => do
    if ← accept isDocumentEnd then documentEnds fuel else return

/-- Adds the handles that every document knows. -/
def addHandles : Compose Unit := modify fun s => { s with handles := s.handles ++ knownHandles }

/-- Reads the only document, if there is one; `fuel` bounds the number of steps. -/
def document (fuel : Nat) : Compose (Option Node) := do
  match ← peek with
  | none => return none
  | some (.directive _) | some .documentStart =>
    directives false fuel
    addHandles
    match ← peek with
    | some .documentStart =>
      next
      let isEmpty := (← peek).all endsDocument
      let n ← if isEmpty then pure .empty else node true false fuel
      return some (← ending n)
    | _ => fail
  | some _ =>
    addHandles
    return some (← ending (← node true false fuel))
where
  /-- Nothing may follow the document. -/
  ending (n : Node) : Compose Node := do
    documentEnds fuel
    if (← peek).isNone then return n else fail

end Compose

/-- The node of the only document of a text, if there is one. -/
def document (s : String) : Except Refusal (Option Node) := do
  let ts ← tokens s
  let (n, _) ← (Compose.document (4 * ts.length + 8)).run { tokens := ts }
  return n

end LedSketch.Yaml
