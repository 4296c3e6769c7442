import LedSketch.Fault.SketchError

/-!
# The store of a running sketch

The store holds what values refer to: lists, and lexical scopes. A scope has bindings in the order
of their first declaration, the names among them that are constant, the functions declared in it,
and a parent that is older than itself. Look-up walks from a scope to its parents; a declaration
lands in the scope it is made in, and an assignment updates the nearest owner.

The scopes are the lexical scopes of the evaluator (`SPEC_FULL.md:67-69`).

* `owner?_eq` — a scope owns a name if it binds it, and else whatever its parent owns;
* `declare_constant`, `assign_constant` — a constant can be neither declared again nor assigned.
-/

namespace LedSketch

/-- What a function of a sketch is, apart from the scope that declares it. -/
structure Closure where
  params : List String
  body : Node
  isAsync : Bool

/-- The bindings made in one place of a program. -/
structure Scope where
  parent : Option ScopeRef := none
  bindings : List (String × Value) := []
  constants : List String := []
  functions : List (String × Closure) := []

/-- Puts a value under a key: in place if the key is there, else at the end. -/
def putPair {α : Type} (key : String) (a : α) : List (String × α) → List (String × α)
  | [] => [(key, a)]
  | p :: ps => if p.1 = key then (key, a) :: ps else p :: putPair key a ps

namespace Scope

/-- The value bound to a name in this very scope. -/
def get? (s : Scope) (key : String) : Option Value := s.bindings.lookup key

/-- Whether this very scope binds the name. -/
def binds (s : Scope) (key : String) : Bool := s.bindings.any (·.1 == key)

/-- Whether the name is constant in this very scope. -/
def isConstant (s : Scope) (key : String) : Bool := s.constants.contains key

/-- Binds a name, whatever it was before. -/
def put (s : Scope) (key : String) (v : Value) : Scope :=
  { s with bindings := putPair key v s.bindings }

end Scope

/-- Lists and scopes, by their places, and the number of tokens given out. -/
structure Store where
  lists : Array (List Value) := #[]
  scopes : Array Scope := #[]
  tokens : Nat := 0

namespace Store

/-! ## Tokens and lists -/

/-- A token that no value carries yet. -/
def freshToken (st : Store) : Nat × Store := (st.tokens, { st with tokens := st.tokens + 1 })

/-- Places a new list. -/
def newList (st : Store) (items : List Value) : ListRef × Store :=
  (st.lists.size, { st with lists := st.lists.push items })

/-- The items of a list. -/
def items (st : Store) (ref : ListRef) : List Value := st.lists[ref]?.getD []

/-- Replaces the items of a list. -/
def setItems (st : Store) (ref : ListRef) (items : List Value) : Store :=
  { st with lists := st.lists.setIfInBounds ref items }

/-! ## Scopes -/

/-- Places a new scope. -/
def newScope (st : Store) (parent : Option ScopeRef) : ScopeRef × Store :=
  (st.scopes.size, { st with scopes := st.scopes.push { parent } })

/-- The scope at a place. -/
def scope (st : Store) (ref : ScopeRef) : Scope := st.scopes[ref]?.getD {}

/-- Changes the scope at a place. -/
def modifyScope (st : Store) (ref : ScopeRef) (f : Scope → Scope) : Store :=
  { st with scopes := st.scopes.modify ref f }

/-- The scope among this one and its parents that binds the name. -/
def owner? (st : Store) (ref : ScopeRef) (key : String) : Option ScopeRef :=
  if (st.scope ref).binds key then some ref
  else match (st.scope ref).parent with
    | some p => if p < ref then st.owner? p key else none
    | none => none
termination_by ref

theorem owner?_eq (st : Store) (ref : ScopeRef) (key : String) :
    st.owner? ref key =
      if (st.scope ref).binds key then some ref
      else match (st.scope ref).parent with
        | some p => if p < ref then st.owner? p key else none
        | none => none := by
  rw [owner?]

/-- Binds a name, whatever it was before. -/
def put (st : Store) (ref : ScopeRef) (key : String) (v : Value) : Store :=
  st.modifyScope ref (·.put key v)

/-- Declares a name in a scope. -/
def declare (st : Store) (ref : ScopeRef) (key : String) (v : Value) (constant : Bool) :
    Except Complaint Store :=
  let s := st.scope ref
  if s.binds key && (s.isConstant key || constant) then .error (.alreadyDeclared key)
  else
    let st := st.put ref key v
    .ok (if constant then st.modifyScope ref fun s => { s with constants := key :: s.constants }
      else st)

/-- Assigns to the nearest owner of a name. -/
def assign (st : Store) (ref : ScopeRef) (key : String) (v : Value) : Except Complaint Store :=
  match st.owner? ref key with
  | none => .error (.notDefined key)
  | some o => if (st.scope o).isConstant key then .error (.constantAssigned key)
    else .ok (st.put o key v)

/-- The value of a name. -/
def get (st : Store) (ref : ScopeRef) (key : String) : Except Complaint Value :=
  match (st.owner? ref key).bind fun o => (st.scope o).get? key with
  | some v => .ok v
  | none => .error (.notDefined key)

/-- Declares a function, which its scope closes over. -/
def declareFunction (st : Store) (ref : ScopeRef) (name : String) (c : Closure) :
    Except Complaint Store := do
  let st ← st.declare ref name (.function ref name) false
  return st.modifyScope ref fun s => { s with functions := putPair name c s.functions }

/-- The function that a value of a sketch function refers to. -/
def closure? (st : Store) (ref : ScopeRef) (name : String) : Option Closure :=
  (st.scope ref).functions.lookup name

/-- One line that shows the names of a scope. -/
def describeScope (st : Store) (ref : ScopeRef) : String :=
  let s := st.scope ref
  let keys := ", ".intercalate (s.bindings.map fun b => Text.quoted b.1)
  let parent := if s.parent.isSome then "yes" else "no"
  s!"<Scope keys=[{keys}] parent={parent}>"

end Store
end LedSketch
