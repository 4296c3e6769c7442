import LedSketch.Document.Datum

/-!
# Tagged trees

What a grammar yields: nodes with a tag, the text they span, the place where they begin, and their
children. A tree may also come from outside as a datum; what fits no node is kept as `foreign`, and
the operations on trees report it when they meet it.

The texts of a grammar are strings, those of a tree from outside may be any data. A tree is generic
in what its texts are, and `Wording` says what is asked of them.

These are the nodes of the host-form parser (`SPEC_FULL.md:56-60`): each has a tag, a text, a line,
a column and children.

* `Tree.ofDatum` — reads a tree from a datum, with nested lists of children spliced and gaps
  dropped.
-/

namespace LedSketch

/-! ## Words -/

/-- What can stand as a text in a tree, and as a word in a program. -/
class Wording (ω : Type) where
  /-- A string, as a word. -/
  ofString : String → ω
  /-- A datum, as a word, if it can be one. -/
  ofDatum? : Datum → Option ω
  /-- The datum that a word is. -/
  toDatum : ω → Datum

namespace Wording

instance : Wording String where
  ofString s := s
  ofDatum?
    | .str s => some s
    | _ => none
  toDatum := .str

instance : Wording Datum where
  ofString := .str
  ofDatum? := some
  toDatum d := d

variable {ω : Type} [Wording ω]

/-- Whether a word is a given string. -/
def spells (w : ω) (s : String) : Bool :=
  match toDatum w with
  | .str t => t = s
  | _ => false

/-- The string that a word is; any other word is refused. -/
def string (refusal : Datum → Mishap) (w : ω) : Except Mishap String :=
  match toDatum w with
  | .str s => .ok s
  | d => .error (refusal d)

@[simp] theorem spells_string (s t : String) : spells s t = decide (s = t) := rfl

@[simp] theorem string_string (refusal : Datum → Mishap) (s : String) :
    string refusal s = .ok s := rfl

end Wording

/-! ## Trees -/

/-- What a tree says about itself: its tag, the text it spans and where it begins. -/
structure Mark (ω : Type := String) where
  tag : String
  text : Option ω
  line : Option Int
  col : Option Int
deriving DecidableEq, Repr

/-- A tagged tree. A leaf has no place for children; what fits no node is kept as it is, with the
trees among its parts. -/
inductive Tree (ω : Type := String) where
  | leaf (mark : Mark ω)
  | node (mark : Mark ω) (children : List (Tree ω))
  | foreign (datum : Datum) (children : List (Tree ω))

namespace Tree

variable {ω : Type}

instance : Inhabited (Tree ω) := ⟨.foreign .null []⟩

private def asInt : Option Datum → Option Int
  | some (.num (.int n)) => some n
  | _ => none

/-- Whether a datum has no parts at all, so that it cannot stand for children. -/
def isScalar : Datum → Bool
  | .null | .bool false => false
  | .num n => !n.eq (.int 0)
  | .bool true | .other .. => true
  | _ => false

mutual

/-- Reads a tree from a datum that is no list. -/
def ofDatum : Datum → Tree Datum
  | .map entries =>
    match Datum.lookup? "tag" entries, Datum.lookup? "children" entries with
    | some (.str tag), children =>
      let mark : Mark Datum := ⟨tag, Datum.lookup? "text" entries,
        asInt (Datum.lookup? "line" entries), asInt (Datum.lookup? "col" entries)⟩
      if children.any isScalar then .foreign (.map entries) []
      else if children.isSome then .node mark (childrenOf entries)
      else .leaf mark
    | _, _ => .foreign (.map entries) (childrenOf entries)
  | d => .foreign d []

/-- The trees among the children of an entry list. -/
def childrenOf : List (Datum × Datum) → List (Tree Datum)
  | [] => []
  | (.str "children", .list items) :: _ | (.str "children", .row items) :: _ => spliced items
  | (.str "children", .str s) :: _ => s.toList.map fun c => .foreign (.str c.toString) []
  | (.str "children", .map entries) :: _ => entries.map fun e => .foreign e.1 []
  | _ :: rest => childrenOf rest

/-- Lists are spliced and gaps dropped. -/
def spliced : List Datum → List (Tree Datum)
  | [] => []
  | .null :: rest => spliced rest
  | .list items :: rest => spliced items ++ spliced rest
  | d :: rest => ofDatum d :: spliced rest

end

/-- The tag of a tree; what is no text counts as a tag that no tree of a grammar has. -/
def tag : Tree ω → Except Mishap String
  | leaf m | node m _ => .ok m.tag
  | foreign (.map entries) _ => match Datum.lookup? "tag" entries with
    | some d => .ok d.plain
    | none => .error (.missingField "tag")
  | foreign (.str _) _ => .error .namedPart
  | foreign d _ => .error (.notIndexed d.typeName)

/-- The text of a tree. -/
def text [Wording ω] : Tree ω → Except Mishap ω
  | leaf m | node m _ => match m.text with
    | some w => .ok w
    | none => .error (.missingField "text")
  | foreign (.map entries) _ => match (Datum.lookup? "text" entries).bind Wording.ofDatum? with
    | some w => .ok w
    | none => .error (.missingField "text")
  | foreign (.str _) _ => .error .namedPart
  | foreign d _ => .error (.notIndexed d.typeName)

/-- The text of a tree, which has to be a string. -/
def string [Wording ω] (refusal : Datum → Mishap) (t : Tree ω) : Except Mishap String := do
  Wording.string refusal (← t.text)

/-- The children of a tree. -/
def children : Tree ω → Except Mishap (List (Tree ω))
  | leaf _ => .ok []
  | node _ children => .ok children
  | foreign (.map entries) children => match (Datum.lookup? "children" entries).filter isScalar with
    | some d => .error (.notIterable d.typeName)
    | none => .ok children
  | foreign d _ => .error (.noMember d.typeName "get")

/-- Where a tree begins, as far as it says. -/
def position : Tree ω → Except Mishap (Option Int × Option Int)
  | leaf m | node m _ => .ok (m.line, m.col)
  | foreign (.map entries) _ =>
    .ok (asInt (Datum.lookup? "line" entries), asInt (Datum.lookup? "col" entries))
  | foreign d _ => .error (.noMember d.typeName "get")

/-- A text that is a string anyway. -/
@[simp] theorem string_eq_text (refusal : Datum → Mishap) (t : Tree) :
    t.string refusal = t.text := by
  unfold string
  cases t.text <;> rfl

end Tree
end LedSketch
