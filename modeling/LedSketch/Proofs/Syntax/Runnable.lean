import LedSketch.Proofs.Syntax.HostText

/-!
# Programs that can be run

A node may be built by hand and stand where it makes no sense. The nodes here are those that a run
gets along with: every expression is one, every operator is known, every target can be assigned to,
every statement says where it is, and every jump has something to jump out of.

* `Node.Evaluable`: the expressions.
* `Node.Runnable`: the statements, in some setting.
-/

namespace LedSketch.Node

open HostText

/-- **An expression that can be evaluated.** -/
inductive Evaluable : Node → Prop
  | literal {l v} : Evaluable (.literal l v)
  | template {l parts} (h : ∀ e, .inr e ∈ parts → Evaluable e) : Evaluable (.template l parts)
  | identifier {l name} : Evaluable (.identifier l name)
  | array {l items} (h : ∀ e ∈ items, Evaluable e) : Evaluable (.array l items)
  | unary {l op x} (ho : op ∈ unaryOperators) (hx : Evaluable x) : Evaluable (.unary l op x)
  | binary {l op x y} (ho : op ∈ "," :: binaryOperators) (hx : Evaluable x) (hy : Evaluable y) :
    Evaluable (.binary l op x y)
  | logical {l op x y} (ho : op ∈ logicalOperators) (hx : Evaluable x) (hy : Evaluable y) :
    Evaluable (.logical l op x y)
  | conditional {l x y z} (hx : Evaluable x) (hy : Evaluable y) (hz : Evaluable z) :
    Evaluable (.conditional l x y z)
  | assign {l op x y} (ho : op ∈ assignOperators) (ht : x.isAssignable = true) (hx : Evaluable x)
    (hy : Evaluable y) : Evaluable (.assign l op x y)
  | update {l op before x} (ho : op ∈ updateOperators) (ht : x.isAssignable = true)
    (hx : Evaluable x) : Evaluable (.update l op before x)
  | call {l f args} (hf : Evaluable f) (h : ∀ e ∈ args, Evaluable e) : Evaluable (.call l f args)
  | member {l x name} (hx : Evaluable x) : Evaluable (.member l x name)
  | index {l x k} (hx : Evaluable x) (hk : Evaluable k) : Evaluable (.index l x k)
  | await {l x} (hx : Evaluable x) : Evaluable (.await l x)

/-- **A statement that can be run**, in the setting `p`. -/
inductive Runnable : Setting → Node → Prop
  | exprStmt {p l x} (hx : Evaluable x) : Runnable p (.exprStmt (some l) x)
  | varDecl {p l kind ds} (h : ∀ d ∈ ds, ∀ e, d.2 = some e → Evaluable e) :
    Runnable p (.varDecl (some l) kind ds)
  | functionDecl {p l name params l' body isAsync}
    (h : ∀ s ∈ body, Runnable ⟨some isAsync, false⟩ s) :
    Runnable p (.functionDecl (some l) name params (.block (some l') body) isAsync)
  | block {p l body} (h : ∀ s ∈ body, Runnable p s) : Runnable p (.block (some l) body)
  | ifElse {p l test yes no} (ht : Evaluable test) (hy : Runnable p yes)
    (hn : ∀ s, no = some s → Runnable p s) : Runnable p (.ifElse (some l) test yes no)
  | forLoop {p l init test step body} (hi : ∀ s, init = some s → Runnable p s)
    (ht : ∀ e, test = some e → Evaluable e) (hs : ∀ e, step = some e → Evaluable e)
    (hb : Runnable { p with looping := true } body) :
    Runnable p (.forLoop (some l) init test step body)
  | whileLoop {p l test body} (ht : Evaluable test) (hb : Runnable { p with looping := true } body) :
    Runnable p (.whileLoop (some l) test body)
  | doWhile {p l body test} (hb : Runnable { p with looping := true } body) (ht : Evaluable test) :
    Runnable p (.doWhile (some l) body test)
  | returnStmt {p l value} (hp : p.function ≠ none) (h : ∀ e, value = some e → Evaluable e) :
    Runnable p (.returnStmt (some l) value)
  | breakStmt {p l} (hp : p.looping = true) : Runnable p (.breakStmt (some l))
  | continueStmt {p l} (hp : p.looping = true) : Runnable p (.continueStmt (some l))
  | empty {p l} : Runnable p (.empty (some l))

variable {p : Setting} {n : Node}

/-- A statement that can be run says where it is. -/
theorem Runnable.loc (h : n.Runnable p) : ∃ l, n.loc = some l := by
  cases h <;> exact ⟨_, rfl⟩

end LedSketch.Node
