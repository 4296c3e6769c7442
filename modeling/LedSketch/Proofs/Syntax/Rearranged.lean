import LedSketch.Store.Basic
import Mathlib.Data.List.Forall2
import Mathlib.Data.List.Nodup
import Mathlib.Data.Option.Basic

/-!
# Programs whose functions stand elsewhere

Two programs differ by where their bodies declare functions: in every program, block and body of a
function the other statements stand in the same order, and so do the declarations of every single
name. A function may move past statements and past functions of other names, at every depth, and all
nodes keep their places in the source.

* `Node.Rearranged`: nodes that differ in this way; `Node.Rearranges` is the same for bodies.
* `Node.Rearranged.refl`: every node is one of its own.
* `Node.rearranges_of_perm`: functions with distinct names may move anywhere in their body.
-/

namespace LedSketch.Node

/-- The function that a statement declares, with its name. -/
def declares? : Node → Option (String × Closure)
  | functionDecl _ name params body isAsync => some (name, ⟨params, body, isAsync⟩)
  | _ => none

/-- Whether a statement declares a function of a name. -/
def declares (name : String) (s : Node) : Bool := (s.declares?.map Prod.fst) == some name

/-- The statements of a body that run in order. -/
abbrev inOrder (body : List Node) : List Node := body.filter fun s => !s.isFunctionDecl

/-- **Nodes that differ by where functions are declared** in the bodies inside them. -/
inductive Rearranged : Node → Node → Prop
  | literal (l v) : Rearranged (.literal l v) (.literal l v)
  | template (l) {ps qs} (h : List.Forall₂ (Sum.LiftRel Eq Rearranged) ps qs) :
    Rearranged (.template l ps) (.template l qs)
  | identifier (l name) : Rearranged (.identifier l name) (.identifier l name)
  | array (l) {es fs} (h : List.Forall₂ Rearranged es fs) : Rearranged (.array l es) (.array l fs)
  | unary (l op) {x y} (h : Rearranged x y) : Rearranged (.unary l op x) (.unary l op y)
  | binary (l op) {x y x' y'} (hx : Rearranged x x') (hy : Rearranged y y') :
    Rearranged (.binary l op x y) (.binary l op x' y')
  | logical (l op) {x y x' y'} (hx : Rearranged x x') (hy : Rearranged y y') :
    Rearranged (.logical l op x y) (.logical l op x' y')
  | conditional (l) {t x y t' x' y'} (ht : Rearranged t t') (hx : Rearranged x x')
    (hy : Rearranged y y') : Rearranged (.conditional l t x y) (.conditional l t' x' y')
  | assign (l op) {x y x' y'} (hx : Rearranged x x') (hy : Rearranged y y') :
    Rearranged (.assign l op x y) (.assign l op x' y')
  | update (l op before) {x y} (h : Rearranged x y) :
    Rearranged (.update l op before x) (.update l op before y)
  | call (l) {f g es fs} (hf : Rearranged f g) (h : List.Forall₂ Rearranged es fs) :
    Rearranged (.call l f es) (.call l g fs)
  | member (l) {x y} (h : Rearranged x y) (name) : Rearranged (.member l x name) (.member l y name)
  | index (l) {x y x' y'} (hx : Rearranged x x') (hy : Rearranged y y') :
    Rearranged (.index l x y) (.index l x' y')
  | await (l) {x y} (h : Rearranged x y) : Rearranged (.await l x) (.await l y)
  | block (l) {body body'}
    (rest : List.Forall₂ Rearranged (inOrder body) (inOrder body'))
    (functions : ∀ name, List.Forall₂ Rearranged (body.filter (declares name))
      (body'.filter (declares name))) : Rearranged (.block l body) (.block l body')
  | varDecl (l kind) {ds ds' : List (String × Option Node)}
    (names : ds.map Prod.fst = ds'.map Prod.fst)
    (inits : List.Forall₂ (Option.Rel Rearranged) (ds.map Prod.snd) (ds'.map Prod.snd)) :
    Rearranged (.varDecl l kind ds) (.varDecl l kind ds')
  | functionDecl (l name params) {x y} (h : Rearranged x y) (isAsync) :
    Rearranged (.functionDecl l name params x isAsync) (.functionDecl l name params y isAsync)
  | exprStmt (l) {x y} (h : Rearranged x y) : Rearranged (.exprStmt l x) (.exprStmt l y)
  | ifElse (l) {t x t' x' no no'} (ht : Rearranged t t') (hx : Rearranged x x')
    (hn : Option.Rel Rearranged no no') : Rearranged (.ifElse l t x no) (.ifElse l t' x' no')
  | forLoop (l) {i t u x i' t' u' x'} (hi : Option.Rel Rearranged i i')
    (ht : Option.Rel Rearranged t t') (hu : Option.Rel Rearranged u u') (hx : Rearranged x x') :
    Rearranged (.forLoop l i t u x) (.forLoop l i' t' u' x')
  | whileLoop (l) {t x t' x'} (ht : Rearranged t t') (hx : Rearranged x x') :
    Rearranged (.whileLoop l t x) (.whileLoop l t' x')
  | doWhile (l) {t x t' x'} (hx : Rearranged x x') (ht : Rearranged t t') :
    Rearranged (.doWhile l x t) (.doWhile l x' t')
  | returnStmt (l) {v v'} (h : Option.Rel Rearranged v v') :
    Rearranged (.returnStmt l v) (.returnStmt l v')
  | breakStmt (l) : Rearranged (.breakStmt l) (.breakStmt l)
  | continueStmt (l) : Rearranged (.continueStmt l) (.continueStmt l)
  | empty (l) : Rearranged (.empty l) (.empty l)
  | program (l) {body body'}
    (rest : List.Forall₂ Rearranged (inOrder body) (inOrder body'))
    (functions : ∀ name, List.Forall₂ Rearranged (body.filter (declares name))
      (body'.filter (declares name))) : Rearranged (.program l body) (.program l body')
  | bare (l) : Rearranged (.bare l) (.bare l)

/-- **Bodies that differ by where functions are declared**, in them and inside their statements. -/
structure Rearranges (body body' : List Node) : Prop where
  rest : List.Forall₂ Rearranged (inOrder body) (inOrder body')
  functions : ∀ name, List.Forall₂ Rearranged (body.filter (declares name))
    (body'.filter (declares name))

theorem Rearranges.block {body body' : List Node} (h : Rearranges body body') (l : Option Loc) :
    Rearranged (.block l body) (.block l body') := .block l h.rest h.functions

theorem Rearranges.program {body body' : List Node} (h : Rearranges body body') (l : Option Loc) :
    Rearranged (.program l body) (.program l body') := .program l h.rest h.functions

/-! ## Nothing moved -/

theorem forall₂_filter_self {R : Node → Node → Prop} {es : List Node} (h : ∀ e ∈ es, R e e)
    (p : Node → Bool) : List.Forall₂ R (es.filter p) (es.filter p) :=
  List.forall₂_same.mpr fun e he => h e (List.mem_of_mem_filter he)

theorem rel_self {R : Node → Node → Prop} : ∀ {o : Option Node}, (∀ e, o = some e → R e e) →
    Option.Rel R o o
  | none, _ => .none
  | some e, h => .some (h e rfl)

theorem sizeOf_init_lt {ds : List (String × Option Node)} {e : Node}
    (h : some e ∈ ds.map Prod.snd) : sizeOf e < sizeOf ds := by
  obtain ⟨⟨name, _⟩, hd, rfl⟩ := List.mem_map.mp h
  have := List.sizeOf_lt_of_mem hd
  simp at this
  omega

theorem Rearranged.refl : ∀ n : Node, Rearranged n n
  | .literal l v => .literal l v
  | .template l ps => .template l (List.forall₂_same.mpr fun p hp => by
    cases p with
    | inl s => exact .inl rfl
    | inr e => exact .inr (Rearranged.refl e))
  | .identifier l name => .identifier l name
  | .array l es => .array l (List.forall₂_same.mpr fun e he => Rearranged.refl e)
  | .unary l op x => .unary l op (.refl x)
  | .binary l op x y => .binary l op (.refl x) (.refl y)
  | .logical l op x y => .logical l op (.refl x) (.refl y)
  | .conditional l t x y => .conditional l (.refl t) (.refl x) (.refl y)
  | .assign l op x y => .assign l op (.refl x) (.refl y)
  | .update l op before x => .update l op before (.refl x)
  | .call l f es => .call l (.refl f) (List.forall₂_same.mpr fun e he => Rearranged.refl e)
  | .member l x name => .member l (.refl x) name
  | .index l x y => .index l (.refl x) (.refl y)
  | .await l x => .await l (.refl x)
  | .block l body => .block l (forall₂_filter_self (fun s hs => Rearranged.refl s) _)
    fun _ => forall₂_filter_self (fun s hs => Rearranged.refl s) _
  | .varDecl l kind ds => .varDecl l kind rfl (List.forall₂_same.mpr fun o ho =>
    rel_self fun e he =>
      have := sizeOf_init_lt (he ▸ ho)
      Rearranged.refl e)
  | .functionDecl l name params x isAsync => .functionDecl l name params (.refl x) isAsync
  | .exprStmt l x => .exprStmt l (.refl x)
  | .ifElse l t x no => .ifElse l (.refl t) (.refl x) (rel_self fun e he => Rearranged.refl e)
  | .forLoop l i t u x => .forLoop l (rel_self fun e he => Rearranged.refl e)
    (rel_self fun e he => Rearranged.refl e) (rel_self fun e he => Rearranged.refl e) (.refl x)
  | .whileLoop l t x => .whileLoop l (.refl t) (.refl x)
  | .doWhile l x t => .doWhile l (.refl x) (.refl t)
  | .returnStmt l v => .returnStmt l (rel_self fun e he => Rearranged.refl e)
  | .breakStmt l => .breakStmt l
  | .continueStmt l => .continueStmt l
  | .empty l => .empty l
  | .program l body => .program l (forall₂_filter_self (fun s hs => Rearranged.refl s) _)
    fun _ => forall₂_filter_self (fun s hs => Rearranged.refl s) _
  | .bare l => .bare l
termination_by n => sizeOf n
decreasing_by
  all_goals first
    | decreasing_tactic
    | (have hlt := List.sizeOf_lt_of_mem ‹_ ∈ _›; simp_all; omega)

theorem Rearranges.refl (body : List Node) : Rearranges body body :=
  ⟨forall₂_filter_self (fun s _ => .refl s) _, fun _ => forall₂_filter_self (fun s _ => .refl s) _⟩

/-! ## Functions with distinct names -/

variable {x y : Node} {body mid body' : List Node}

theorem Rearranged.isFunctionDecl (h : Rearranged x y) : x.isFunctionDecl = y.isFunctionDecl := by
  cases h <;> rfl

theorem Rearranged.loc (h : Rearranged x y) : x.loc = y.loc := by
  cases h <;> rfl

theorem Rearranged.declares (h : Rearranged x y) (name : String) :
    x.declares name = y.declares name := by
  cases h <;> rfl

theorem forall₂_filter (h : List.Forall₂ Rearranged body body') {p : Node → Bool}
    (hp : ∀ {x y}, Rearranged x y → p x = p y) :
    List.Forall₂ Rearranged (body.filter p) (body'.filter p) :=
  List.rel_filter (fun _ _ hxy => Bool.eq_iff_iff.mp (hp hxy)) h

/-- The names of the functions that a body declares. -/
def functionNames (body : List Node) : List String := (body.filterMap declares?).map Prod.fst

theorem length_filter_declares (name : String) (body : List Node) :
    (body.filter (declares name)).length = (functionNames body).count name := by
  induction body with
  | nil => rfl
  | cons s body ih =>
    unfold functionNames at ih ⊢
    rw [List.filter_cons, List.filterMap_cons]
    cases hs : s.declares? with
    | none => simpa [Node.declares, hs] using ih
    | some f =>
      by_cases hname : f.1 = name
      · simp [Node.declares, hs, hname, ih]
      · simp [Node.declares, hs, hname, ih]

theorem filter_declares_of_perm (moved : mid.Perm body') (distinct : (functionNames body').Nodup)
    (name : String) : mid.filter (declares name) = body'.filter (declares name) := by
  have hperm := moved.filter (declares name)
  have hlength : (body'.filter (declares name)).length ≤ 1 := by
    rw [length_filter_declares]
    exact List.nodup_iff_count_le_one.mp distinct name
  match h : body'.filter (declares name), hlength with
  | [], _ => rwa [h, List.perm_nil] at hperm
  | [s], _ => rwa [h, List.perm_singleton] at hperm

/-- **Functions with distinct names may move anywhere in their body**, if the other statements keep
their order; and what stands inside the statements may be rearranged, too. -/
theorem rearranges_of_perm (inside : List.Forall₂ Rearranged body mid) (moved : mid.Perm body')
    (order : inOrder mid = inOrder body') (distinct : (functionNames body').Nodup) :
    Rearranges body body' where
  rest := by
    rw [← order]
    exact forall₂_filter inside fun h => by rw [h.isFunctionDecl]
  functions name := by
    rw [← filter_declares_of_perm moved distinct name]
    exact forall₂_filter inside fun h => h.declares name

/-- The same names are declared. -/
theorem Rearranges.mem_functionNames (h : Rearranges body body') {name : String} :
    name ∈ functionNames body ↔ name ∈ functionNames body' := by
  rw [← List.count_pos_iff, ← List.count_pos_iff, ← length_filter_declares,
    ← length_filter_declares, (h.functions name).length_eq]

end LedSketch.Node
