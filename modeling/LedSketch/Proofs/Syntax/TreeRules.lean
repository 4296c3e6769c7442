import LedSketch.Proofs.Syntax.Legal
import LedSketch.Proofs.Syntax.Attending
import LedSketch.Proofs.Syntax.StaticRules
import LedSketch.Text.Classes

/-!
# The static rules, said of trees

The rules that a program obeys can be read off its tree: what encloses a part, which part an
assignment is to, and whether a constant has a value. Elaboration refuses a tree for breaking one of
them, and points to the part that does.

* `Tree.places`: the parts of a tree, and the setting of each.
* `Tree.isTarget`: whether what a tree stands for can be assigned to.
* `Tree.Breaks`: a tree itself breaks a rule.
* `Tree.Violates`: an error reports a rule that is broken in a tree.
* `Tree.Overlong`: a tree with a decimal integer of more digits than are read.
-/

namespace LedSketch.Tree

open HostText (Setting)

/-- The parts of a tree that stands in the setting `p`, and what they stand in. -/
def places (p : Setting) : Tree → List (Setting × Tree)
  | node m ts =>
    if m.tag = "function-decl" then ts.map (⟨some (asyncFirst ts), false⟩, ·)
    else if m.tag = "while" ∨ m.tag = "for" then
      ts.dropLast.map (p, ·) ++ ts.getLast?.toList.map (p.looped, ·)
    else if m.tag = "do-while" then
      (ts.take 1).map (p.looped, ·) ++ (ts.drop 1).map (p, ·)
    else ts.map (p, ·)
  | _ => []

/-- Below a tree in the setting `p` there is the tree `u` in the setting `q`. -/
inductive Below : Setting → Tree → Setting → Tree → Prop
  | refl (p : Setting) (t : Tree) : Below p t p t
  | step {p q r : Setting} {t u v : Tree} (part : (q, u) ∈ t.places p) (rest : Below q u r v) :
      Below p t r v

/-- The levels of operators that stand for their operand if they have only one. -/
def levels : List String := ["expression", "assignment", "conditional", "binary", "postfix"]

mutual

/-- Whether what a tree stands for can be assigned to: a name, a member or an element. -/
def isTarget : Tree → Bool
  | leaf m => m.tag == "name"
  | node m ts =>
    if m.tag = "group" then firstIsTarget ts
    else if m.tag ∈ levels then ts.length == 1 && firstIsTarget ts
    else if m.tag = "access" then
      match ts.getLast? with
      | some (node m' _) =>
        if m'.tag ∈ ["member", "index"] then true
        else if m'.tag = "call" then false
        else firstIsTarget ts
      | _ => firstIsTarget ts
    else false
  | foreign .. => false

def firstIsTarget : List Tree → Bool
  | [] => false
  | t :: _ => isTarget t

end

/-- **A tree itself breaks a static rule** in the setting `p`: the complaint, and the part that it
is about. -/
inductive Breaks : Setting → Tree → Complaint → Tree → Prop
  | await {p m op operand} (hm : m.tag = "unary") (hop : op.text = .ok "await")
    (hp : p.function ≠ some true) : Breaks p (node m [op, operand]) .awaitOutsideAsync op
  | returnStmt {p t} (ht : t.tag = .ok "return") (hp : p.function = none) :
    Breaks p t .illegalReturn t
  | jump {p t word} (ht : t.tag = .ok word) (hw : word ∈ ["break", "continue"])
    (hp : p.looping = false) : Breaks p t (.illegalJump word) t
  | assign {p m m' target op value} (hm : m.tag = "assignment") (ht : target.isTarget = false) :
    Breaks p (node m [target, node m' [op, value]]) (.invalidTarget "assignment") op
  | countBefore {p m op target word} (hm : m.tag = "unary") (hop : op.text = .ok word)
    (hw : word ∈ ["++", "--"]) (ht : target.isTarget = false) :
    Breaks p (node m [op, target]) (.invalidTarget "update") op
  | countBehind {p m target op} (hm : m.tag = "postfix") (ht : target.isTarget = false) :
    Breaks p (node m [target, op]) (.invalidTarget "update") op
  | constant {p m kind ds m' name} (hm : m.tag = "var-decl") (hk : kind.text = .ok "const")
    (hd : node m' [name] ∈ ds) : Breaks p (node m (kind :: ds)) .missingInitializer (node m' [name])

/-- What is reported of a part of a tree. -/
def Reports (c : Complaint) (t : Tree) (e : SketchError) : Prop :=
  ∃ line col, t.position = .ok (line, col) ∧ e = { complaint := c, place := some ⟨line, col⟩ }

/-- **An error reports a static rule that is broken in a tree**, and where. -/
def Violates (p : Setting) (t : Tree) (e : SketchError) : Prop :=
  ∃ q u c v, Below p t q u ∧ u.Breaks q c v ∧ Reports c v e

/-- **A decimal integer of more digits than are read** occurs in a tree. -/
def Overlong (t : Tree) : Prop :=
  ∃ u s, Part t u ∧ u.tag = .ok "number" ∧ u.text = .ok s ∧
    s.toList.all Text.isDecimalDigit = true ∧ Reading.digitLimit < s.length

end LedSketch.Tree
