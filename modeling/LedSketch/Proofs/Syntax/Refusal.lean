import Mathlib.Tactic.SplitIfs
import LedSketch.Proofs.Syntax.Legal

/-!
# Legal trees are not refused for their `await`s

Whatever else elaboration may find wrong with a legal tree, it is not an `await` outside of an async
function.

* `Safe`: a computation that keeps the stack of functions and does not fail for an `await`.
* `Safe.bind`, `safe_inFunction`, …: one lemma for each way to build a computation.
* `safe_elaborateWithin`: legal trees are safe.
-/

namespace LedSketch

/-- The failure that an `await` outside of an async function is. -/
def Fault.isAwait : Fault → Prop
  | .sketch e => e.complaint = .awaitOutsideAsync
  | .mishap _ => False

instance : DecidablePred Fault.isAwait
  | .sketch e => inferInstanceAs (Decidable (e.complaint = .awaitOutsideAsync))
  | .mishap _ => inferInstanceAs (Decidable False)

namespace Elab

open LedSketch.Tree

variable {α β : Type} {b : Bool} {Q : α → Prop} {R : β → Prop} {x : Elab α} {n : Nat} {t : Tree}
  {ts : List Tree}

/-- **A safe computation**, where the innermost function is async as `b` says: its results satisfy
`Q`, the functions around stay the same, and it does not fail for an `await`. -/
def Safe (b : Bool) (Q : α → Prop) (x : Elab α) : Prop :=
  ∀ e : Enclosing, e.functions.headD false = b →
    match x.run e with
    | .ok (a, e') => Q a ∧ e'.functions = e.functions
    | .error f => ¬ f.isAwait

theorem Safe.pure {a : α} (h : Q a) : Safe b Q (Pure.pure a : Elab α) := fun _ _ => ⟨h, rfl⟩

theorem Safe.bind {f : α → Elab β} (hx : Safe b Q x) (hf : ∀ a, Q a → Safe b R (f a)) :
    Safe b R (x >>= f) := by
  intro e he
  have h := hx e he
  rw [StateT.run_bind]
  cases hr : x.run e with
  | error f => rw [hr] at h; exact h
  | ok p =>
    obtain ⟨a, e'⟩ := p
    rw [hr] at h
    have h' := hf a h.1 e' (by rw [h.2]; exact he)
    show match (f a).run e' with
      | .ok (a, e') => R a ∧ e'.functions = e.functions
      | .error f => ¬ f.isAwait
    rw [← h.2]
    exact h'

theorem Safe.mono {Q' : α → Prop} (h : Safe b Q x) (hQ : ∀ a, Q a → Q' a) : Safe b Q' x := by
  intro e he
  have := h e he
  split at this
  · exact ⟨hQ _ this.1, this.2⟩
  · exact this

theorem safe_mishap (m : Mishap) : Safe b Q (throw (.mishap m) : Elab α) := fun _ _ => id

theorem safe_reading (r : Except Mishap α) : Safe b (r = .ok ·) (reading r) := by
  cases r with
  | ok a => exact Safe.pure rfl
  | error m => exact safe_mishap m

theorem safe_refuse {complaint : Complaint} (h : complaint ≠ .awaitOutsideAsync) (t : Tree) :
    Safe b (fun _ => False) (refuse complaint t : Elab α) :=
  (safe_reading t.position).bind fun _ _ _ _ => h

theorem safe_element (ts : List Tree) (i : Nat) : Safe b (ts[i]? = some ·) (element ts i) := by
  unfold element
  split
  · rename_i h
    exact Safe.pure h
  · exact safe_mishap _

theorem safe_two (ts : List Tree) : Safe b (fun p => ts = [p.1, p.2]) (two ts) := by
  unfold two
  split
  · exact Safe.pure rfl
  · exact safe_mishap _
  · exact safe_mishap _
  · exact safe_mishap _

theorem safe_get : Safe b (fun e : Enclosing => e.functions.headD false = b) get :=
  fun _ he => ⟨he, rfl⟩

theorem safe_numeral (s : String) : Safe b (fun _ => True) (numeral s) :=
  (safe_reading _).bind fun _ _ => Safe.pure trivial

theorem safe_checkTarget (target : Node) (what : String) (t : Tree) :
    Safe b (fun _ => True) (checkTarget target what t) := by
  unfold checkTarget
  split
  · exact Safe.pure trivial
  · exact (safe_refuse (by nofun) t).mono nofun

theorem safe_modify (f : Enclosing → Enclosing) (h : ∀ e, (f e).functions = e.functions) :
    Safe b (fun _ => True) (modify f : Elab PUnit) :=
  fun e _ => ⟨trivial, h e⟩

theorem safe_inLoop (h : Safe b Q x) : Safe b Q (inLoop x) :=
  (safe_modify (fun e => { e with loops := e.loops + 1 }) fun _ => rfl).bind fun _ _ =>
    h.bind fun _ ha =>
      (safe_modify (fun e => { e with loops := e.loops - 1 }) fun _ => rfl).bind fun _ _ =>
        Safe.pure ha

theorem run_inFunction (a : Bool) (x : Elab α) (e : Enclosing) :
    (inFunction a x).run e = (x.run ⟨a :: e.functions, 0⟩).bind fun p =>
      match p.2.functions with
      | [] => .error (.mishap .emptyPop)
      | _ :: rest => .ok (p.1, ⟨rest, e.loops⟩) := by
  simp only [inFunction, StateT.run_bind, StateT.run_get, StateT.run_modify, pure_bind]
  refine congrArg (Except.bind (x.run ⟨a :: e.functions, 0⟩)) (funext fun p => ?_)
  cases p.2.functions with
  | nil => rfl
  | cons f fs => rfl

/-- The body of a function is elaborated on its own. -/
theorem safe_inFunction {a : Bool} (h : Safe a Q x) : Safe b Q (inFunction a x) := by
  intro e _
  have hx := h ⟨a :: e.functions, 0⟩ rfl
  rw [run_inFunction]
  cases hr : x.run ⟨a :: e.functions, 0⟩ with
  | error f => rw [hr] at hx; exact hx
  | ok p =>
    obtain ⟨v, e'⟩ := p
    rw [hr] at hx
    simp only [Except.bind, hx.2]
    exact ⟨hx.1, trivial⟩

/-! ## The parts of a legal tree -/

/-- What is known of the tag and the children of a legal tree. -/
structure Parts (b : Bool) (tag : String) (cs : List Tree) : Prop where
  program : tag ≠ "program"
  function : tag = "function-decl" →
    (∀ t ∈ cs.head?, t.isLeaf = true) ∧ ∀ t ∈ cs, t.Legal (asyncFirst cs)
  others : tag ≠ "function-decl" → ∀ t ∈ cs, t.Legal b
  unary : tag = "unary" → awaitFirst cs = true → b = true
  chained : tag ∈ chained → ∀ t ∈ cs, t.isDeclaration = false

theorem parts_of_legal {tag : String} {cs : List Tree} (ht : t.Legal b) (htag : t.tag = .ok tag)
    (hcs : t.children = .ok cs) : Parts b tag cs := by
  cases t with
  | foreign d _ => exact ht.elim
  | leaf m =>
    cases htag
    cases hcs
    exact ⟨ht, fun _ => ⟨nofun, by simp⟩, fun _ => by simp, nofun, fun _ => by simp⟩
  | node m ts =>
    cases htag
    cases hcs
    rw [Legal] at ht
    split_ifs at ht with hm
    · refine ⟨by rw [hm]; decide, fun _ => ⟨ht.1, legal_all_iff.mp ht.2⟩, fun h => absurd hm h,
        ?_, ?_⟩
      · rw [hm]
        intro h
        exact absurd h (by decide)
      · rw [hm]
        intro h
        exact absurd h (by decide)
    · exact ⟨ht.1, fun h => absurd h hm, fun _ => legal_all_iff.mp ht.2.2.2, ht.2.1, ht.2.2.1⟩

/-- The first child of a legal tree is legal, also that of a function declaration. -/
theorem legal_first {cs : List Tree} {c : Tree} (ht : t.Legal b) (hcs : t.children = .ok cs)
    (hc : cs[0]? = some c) : c.Legal b := by
  cases t with
  | foreign d _ => exact ht.elim
  | leaf m => cases hcs; cases hc
  | node m ts =>
    have hp := parts_of_legal ht rfl hcs
    have hmem := List.mem_of_getElem? hc
    by_cases hm : m.tag = "function-decl"
    · obtain ⟨hleaf, hlegal⟩ := hp.function hm
      have := hleaf c (by rw [List.head?_eq_getElem?]; exact hc)
      cases c with
      | leaf m' => exact hlegal _ hmem
      | node => cases this
      | foreign => cases this
    · exact hp.others hm c hmem

/-- The children of a legal tree that is no function declaration are legal. -/
theorem legal_children {cs : List Tree} (ht : t.Legal b) (hd : t.isDeclaration = false)
    (hcs : t.children = .ok cs) : ∀ c ∈ cs, c.Legal b := by
  cases t with
  | foreign d _ => exact ht.elim
  | leaf m => cases hcs; simp
  | node m ts =>
    refine (parts_of_legal ht rfl hcs).others ?_
    simpa [isDeclaration] using hd

theorem not_isDeclaration {tag : String} (htag : t.tag = .ok tag) (h : tag ≠ "function-decl") :
    t.isDeclaration = false := by
  cases t with
  | foreign d _ => rfl
  | leaf m => rfl
  | node m ts =>
    cases htag
    simpa [isDeclaration] using h

/-! ## Elaboration -/

/-- The same, whatever the result is. -/
abbrev Tame (b : Bool) (x : Elab α) : Prop := Safe b (fun _ => True) x

/-- What elaboration with fuel `n` does with legal trees. -/
structure Tames (n : Nat) : Prop where
  within : ∀ {b t}, t.Legal b → Tame b (elaborateWithin n t)
  child : ∀ {b ts i}, (∀ t, ts[i]? = some t → t.Legal b) → Tame b (child n ts i)
  all : ∀ {b ts}, (∀ t ∈ ts, t.Legal b) → Tame b (elaborateAll n ts)
  declarators : ∀ {b kind ts}, (∀ t ∈ ts, t.Legal b) → (∀ t ∈ ts, t.isDeclaration = false) →
    Tame b (declarators n kind ts)
  foldTails : ∀ {b commas left ts}, (∀ t ∈ ts, t.Legal b) →
    (∀ t ∈ ts, t.isDeclaration = false) → Tame b (foldTails n commas left ts)
  unary : ∀ {b ts}, (∀ t ∈ ts, t.Legal b) → (awaitFirst ts = true → b = true) →
    Tame b (unary n ts)
  accessTails : ∀ {b object ts}, (∀ t ∈ ts, t.Legal b) → Tame b (accessTails n object ts)
  templateParts : ∀ {b ts}, (∀ t ∈ ts, t.Legal b) → Tame b (templateParts n ts)
  functionDecl : ∀ {b loc ts}, (∀ t ∈ ts, t.Legal (asyncFirst ts)) →
    Tame b (functionDecl n loc ts)
  loopBody : ∀ {b t}, t.Legal b → Tame b (loopBody n t)
  forLoop : ∀ {b loc ts}, (∀ t ∈ ts, t.Legal b) → Tame b (forLoop n loc ts)
  forClauses : ∀ {b clauses ts}, (∀ t ∈ ts, t.Legal b) → Tame b (forClauses n clauses ts)

theorem tames_zero : Tames 0 := by
  constructor <;> intros <;> exact safe_mishap _

variable (ih : Tames n)
include ih

theorem tame_child {i : Nat} (h : ∀ t, ts[i]? = some t → t.Legal b) :
    Tame b (child (n + 1) ts i) := by
  rw [child]
  exact (safe_element ts i).bind fun t ht => ih.within (h t ht)

theorem Tames.childOf (h : ∀ t ∈ ts, t.Legal b) (i : Nat) : Tame b (LedSketch.child n ts i) :=
  ih.child fun t ht => h t (List.mem_of_getElem? ht)

theorem tame_all (h : ∀ t ∈ ts, t.Legal b) : Tame b (elaborateAll (n + 1) ts) := by
  cases ts with
  | nil =>
    rw [elaborateAll]
    exact Safe.pure trivial
  | cons t ts =>
    rw [elaborateAll]
    refine (ih.within (h t List.mem_cons_self)).bind fun _ _ => ?_
    exact (ih.all fun t ht => h t (List.mem_cons_of_mem _ ht)).bind fun _ _ => Safe.pure trivial

theorem tame_loopBody (h : t.Legal b) : Tame b (loopBody (n + 1) t) := by
  rw [loopBody]
  exact safe_inLoop (ih.within h)

theorem tame_declarators {kind : String} (h : ∀ t ∈ ts, t.Legal b)
    (hd : ∀ t ∈ ts, t.isDeclaration = false) : Tame b (declarators (n + 1) kind ts) := by
  cases ts with
  | nil =>
    rw [declarators]
    exact Safe.pure trivial
  | cons t ts =>
    rw [declarators]
    refine (safe_reading _).bind fun parts hparts => ?_
    have hlegal := legal_children (h t List.mem_cons_self) (hd t List.mem_cons_self) hparts
    extract_lets rest
    have hrest (init : Option Node) : Tame b (rest init) := by
      have hname : Tame b (do
          let name ← reading (← element parts 0).text
          return (name, init) :: (← LedSketch.declarators n kind ts)) := by
        refine (safe_element _ _).bind fun _ _ => (safe_reading _).bind fun _ _ => ?_
        exact (ih.declarators (fun t ht => h t (List.mem_cons_of_mem _ ht))
          fun t ht => hd t (List.mem_cons_of_mem _ ht)).bind fun _ _ => Safe.pure trivial
      simp only [rest]
      split
      · exact (safe_refuse (by nofun) t).bind nofun
      · exact hname
    split
    · exact hrest none
    · rename_i e _ he
      refine (ih.within (hlegal e ?_)).bind fun v _ => hrest (some v)
      exact List.mem_of_mem_drop (he ▸ List.mem_cons_self)

theorem tame_foldTails {commas : Bool} {left : Node} (h : ∀ t ∈ ts, t.Legal b)
    (hd : ∀ t ∈ ts, t.isDeclaration = false) : Tame b (foldTails (n + 1) commas left ts) := by
  cases ts with
  | nil =>
    rw [foldTails]
    exact Safe.pure trivial
  | cons t ts =>
    rw [foldTails]
    have hrest (node : Node) : Tame b (LedSketch.foldTails n commas node ts) :=
      ih.foldTails (fun t ht => h t (List.mem_cons_of_mem _ ht))
        fun t ht => hd t (List.mem_cons_of_mem _ ht)
    refine (safe_reading _).bind fun parts hparts => (safe_reading _).bind fun tag _ => ?_
    have hlegal := legal_children (h t List.mem_cons_self) (hd t List.mem_cons_self) hparts
    split
    · exact (ih.childOf hlegal 0).bind fun _ _ => hrest _
    · refine (safe_two parts).bind fun p hp => (safe_reading _).bind fun _ _ => ?_
      exact (ih.within (hlegal p.2 (by simp [hp]))).bind fun _ _ => hrest _

theorem tame_unary (h : ∀ t ∈ ts, t.Legal b) (ha : awaitFirst ts = true → b = true) :
    Tame b (unary (n + 1) ts) := by
  rw [unary]
  refine (safe_two ts).bind fun p hp => (safe_reading _).bind fun word hword => ?_
  have hoperand : p.2.Legal b := h _ (by simp [hp])
  split
  · rename_i hawait
    have hb : b = true := ha (by simpa [hp, awaitFirst, hword] using hawait)
    refine safe_get.bind fun e he => ?_
    rw [if_neg (by rw [he, hb]; decide)]
    exact (ih.within hoperand).bind fun _ _ => Safe.pure trivial
  · refine (ih.within hoperand).bind fun target _ => ?_
    split
    · exact (safe_checkTarget _ _ _).bind fun _ _ => Safe.pure trivial
    · exact Safe.pure trivial

theorem tame_accessTails {object : Node} (h : ∀ t ∈ ts, t.Legal b) :
    Tame b (accessTails (n + 1) object ts) := by
  cases ts with
  | nil =>
    rw [accessTails]
    exact Safe.pure trivial
  | cons t ts =>
    rw [accessTails]
    have hrest (node : Node) : Tame b (LedSketch.accessTails n node ts) :=
      ih.accessTails fun t ht => h t (List.mem_cons_of_mem _ ht)
    have ht := h t List.mem_cons_self
    refine (safe_reading _).bind fun parts hparts => (safe_reading _).bind fun tag htag => ?_
    split
    · have hlegal := legal_children ht (not_isDeclaration htag (by decide)) hparts
      exact (ih.all hlegal).bind fun _ _ => hrest _
    · exact (safe_element _ _).bind fun _ _ => (safe_reading _).bind fun _ _ => hrest _
    · exact (ih.child fun c hc => legal_first ht hparts hc).bind fun _ _ => hrest _
    · exact hrest _

theorem tame_templateParts (h : ∀ t ∈ ts, t.Legal b) : Tame b (templateParts (n + 1) ts) := by
  cases ts with
  | nil =>
    rw [templateParts]
    exact Safe.pure trivial
  | cons t ts =>
    rw [templateParts]
    have hrest : Tame b (LedSketch.templateParts n ts) :=
      ih.templateParts fun t ht => h t (List.mem_cons_of_mem _ ht)
    refine (safe_reading _).bind fun tag _ => ?_
    split
    · exact (safe_reading _).bind fun _ _ => hrest.bind fun _ _ => Safe.pure trivial
    · refine (safe_reading _).bind fun parts hparts => ?_
      refine (ih.child fun c hc => legal_first (h t List.mem_cons_self) hparts hc).bind fun _ _ => ?_
      exact hrest.bind fun _ _ => Safe.pure trivial

/-- **A function declaration**: its body is elaborated as the body of an async function exactly if the
declaration begins with the mark of one. -/
theorem tame_functionDecl {loc : Option Loc} (h : ∀ t ∈ ts, t.Legal (asyncFirst ts)) :
    Tame b (functionDecl (n + 1) loc ts) := by
  rw [functionDecl]
  refine (safe_element ts 0).bind fun first hfirst => (safe_reading _).bind fun tag htag => ?_
  have hasync : asyncFirst ts = decide (tag = "async") := by
    cases ts with
    | nil => cases hfirst
    | cons t ts =>
      cases hfirst
      rw [asyncFirst, htag]
      rfl
  rw [hasync] at h
  have hsub : ∀ t ∈ (if tag = "async" then ts.drop 1 else ts),
      t.Legal (decide (tag = "async")) := by
    intro t ht
    split at ht
    · exact h t (List.mem_of_mem_drop ht)
    · exact h t ht
  dsimp only
  generalize (if tag = "async" then ts.drop 1 else ts) = parts at hsub ⊢
  split
  · exact safe_mishap _
  · exact safe_mishap _
  · rename_i name rest _
    have hbody := ih.childOf (fun t ht => hsub t (List.mem_cons_of_mem _ ht)) (rest.length - 1)
    refine (safe_inFunction hbody).bind fun _ _ => (safe_reading _).bind fun _ _ => ?_
    exact (safe_reading _).bind fun _ _ => Safe.pure trivial

theorem tame_forClauses {clauses : Option Node × Option Node × Option Node}
    (h : ∀ t ∈ ts, t.Legal b) : Tame b (forClauses (n + 1) clauses ts) := by
  obtain ⟨init, test, update⟩ := clauses
  cases ts with
  | nil =>
    rw [forClauses]
    exact Safe.pure trivial
  | cons t ts =>
    rw [forClauses]
    have hrest (clauses) : Tame b (LedSketch.forClauses n clauses ts) :=
      ih.forClauses fun t ht => h t (List.mem_cons_of_mem _ ht)
    refine (safe_reading _).bind fun parts hparts => ?_
    refine (ih.child fun c hc => legal_first (h t List.mem_cons_self) hparts hc).bind fun _ _ => ?_
    refine (safe_reading _).bind fun tag _ => ?_
    split
    · exact hrest _
    · exact hrest _
    · exact hrest _
    · exact hrest _

theorem tame_forLoop {loc : Option Loc} (h : ∀ t ∈ ts, t.Legal b) :
    Tame b (forLoop (n + 1) loc ts) := by
  rw [forLoop]
  refine (ih.forClauses fun t ht => h t (List.dropLast_subset ts ht)).bind fun _ _ => ?_
  refine (safe_element _ _).bind fun t ht => ?_
  exact (ih.loopBody (h t (List.mem_of_getElem? ht))).bind fun _ _ => Safe.pure trivial

omit ih in
/-- A check that may refuse a tree for some other cause. -/
theorem tame_unless {c : Prop} [Decidable c] {complaint : Complaint} {f : Unit → Elab α}
    (hc : complaint ≠ .awaitOutsideAsync) (t : Tree) (hf : Tame b (f ())) :
    Tame b (if c then refuse complaint t >>= f else f ()) := by
  split
  · exact (safe_refuse hc t).bind nofun
  · exact hf

/-! ### One lemma for each tag of which more than the children is read -/

section

variable {cs : List Tree} {loc : Option Loc}

omit ih in
/-- A child is taken apart further only where it is no function declaration. -/
theorem Parts.tailParts {tag : String} (hp : Parts b tag cs) (hc : tag ∈ Tree.chained) {k : Nat}
    {tail : Tree} {later : List Tree} (htail : cs.drop k = tail :: later) {parts : List Tree}
    (hparts : tail.children = .ok parts) : ∀ t ∈ parts, t.Legal b := by
  have hmem : tail ∈ cs := List.mem_of_mem_drop (htail ▸ List.mem_cons_self)
  refine legal_children ?_ (hp.chained hc tail hmem) hparts
  exact hp.others (by rintro rfl; exact absurd hc (by decide)) tail hmem

theorem tame_varDecl (hp : Parts b "var-decl" cs) : Tame b (do
    let kind ← reading (← element cs 0).text
    return Node.varDecl loc kind (← LedSketch.declarators n kind (cs.drop 1))) := by
  refine (safe_element _ _).bind fun _ _ => (safe_reading _).bind fun _ _ => ?_
  have hdrop : ∀ t ∈ cs.drop 1, t ∈ cs := fun t ht => List.mem_of_mem_drop ht
  refine (ih.declarators (fun t ht => hp.others (by decide) t (hdrop t ht)) fun t ht => ?_).bind
    fun _ _ => Safe.pure trivial
  exact hp.chained (by decide) t (hdrop t ht)

/-- The choice between statements, behind its last part. -/
theorem tame_ifElse (hp : Parts b "if" cs) (no : Option Node) : Tame b (do
    let test ← LedSketch.child n cs 0
    return Node.ifElse loc test (← LedSketch.child n cs 1) no) :=
  (ih.childOf (hp.others (by decide)) 0).bind fun _ _ =>
    (ih.childOf (hp.others (by decide)) 1).bind fun _ _ => Safe.pure trivial

theorem tame_whileLoop (hp : Parts b "while" cs) : Tame b (do
    let test ← LedSketch.child n cs 0
    return Node.whileLoop loc test (← LedSketch.loopBody n (← element cs 1))) := by
  have hlegal := hp.others (by decide)
  refine (ih.childOf hlegal 0).bind fun _ _ => (safe_element _ _).bind fun t ht => ?_
  exact (ih.loopBody (hlegal t (List.mem_of_getElem? ht))).bind fun _ _ => Safe.pure trivial

theorem tame_doWhile (hp : Parts b "do-while" cs) : Tame b (do
    let body ← LedSketch.loopBody n (← element cs 0)
    return Node.doWhile loc body (← LedSketch.child n cs 1)) := by
  have hlegal := hp.others (by decide)
  refine (safe_element _ _).bind fun t ht => ?_
  refine (ih.loopBody (hlegal t (List.mem_of_getElem? ht))).bind fun _ _ => ?_
  exact (ih.childOf hlegal 1).bind fun _ _ => Safe.pure trivial

/-- Operands with operators between them, also commas. -/
theorem tame_folded {tag : String} (hp : Parts b tag cs) (hc : tag ∈ chained) (commas : Bool) :
    Tame b (do
      let first ← LedSketch.child n cs 0
      LedSketch.foldTails n commas first (cs.drop 1)) := by
  have hlegal := hp.others (by rintro rfl; exact absurd hc (by decide))
  refine (ih.childOf hlegal 0).bind fun _ _ => ?_
  exact ih.foldTails (fun t ht => hlegal t (List.mem_of_mem_drop ht))
    fun t ht => hp.chained hc t (List.mem_of_mem_drop ht)

theorem tame_assignTail {target : Node} {parts : List Tree} (h : ∀ t ∈ parts, t.Legal b) :
    Tame b (do
      let op ← element parts 0
      checkTarget target "assignment" op
      let word ← reading op.text
      return Node.assign (locOf op) word target (← LedSketch.child n parts 1)) :=
  (safe_element _ _).bind fun _ _ => (safe_checkTarget _ _ _).bind fun _ _ =>
    (safe_reading _).bind fun _ _ => (ih.childOf h 1).bind fun _ _ => Safe.pure trivial

theorem tame_conditionalTail {test : Node} {parts : List Tree} (h : ∀ t ∈ parts, t.Legal b) :
    Tame b (do
      let (yes, no) ← two parts
      let yes ← elaborateWithin n yes
      return Node.conditional loc test yes (← elaborateWithin n no)) := by
  refine (safe_two parts).bind fun p hp => ?_
  refine (ih.within (h p.1 (by simp [hp]))).bind fun _ _ => ?_
  exact (ih.within (h p.2 (by simp [hp]))).bind fun _ _ => Safe.pure trivial

end

/-- One more level of a legal tree. -/
theorem tame_within (h : t.Legal b) : Tame b (elaborateWithin (n + 1) t) := by
  rw [elaborateWithin.eq_def]
  split
  · contradiction
  · exact h.elim
  · exact h.elim
  · rename_i heq _ _
    obtain rfl := Nat.succ.inj heq
    refine (safe_reading _).bind fun tag htag => (safe_reading _).bind fun cs hcs => ?_
    have hp := parts_of_legal h htag hcs
    have hlegal := hp.others
    dsimp only
    split
    · exact absurd rfl hp.program
    · exact (ih.all (hlegal (by decide))).bind fun _ _ => Safe.pure trivial
    · exact tame_varDecl ih hp
    · exact ih.functionDecl (hp.function rfl).2
    · exact (ih.childOf (hlegal (by decide)) 0).bind fun _ _ => Safe.pure trivial
    · split
      · exact tame_ifElse ih hp none
      · rename_i e _ he
        have hmem : e ∈ cs := List.mem_of_mem_drop (he ▸ List.mem_cons_self)
        refine (safe_reading _).bind fun parts hparts => ?_
        exact (ih.child fun c hc => legal_first (hlegal (by decide) e hmem) hparts hc).bind
          fun _ _ => tame_ifElse ih hp _
    · exact ih.forLoop (hlegal (by decide))
    · exact tame_whileLoop ih hp
    · exact tame_doWhile ih hp
    · refine safe_get.bind fun e _ => tame_unless (by nofun) _ ?_
      split
      · exact Safe.pure trivial
      · exact (ih.within (hlegal (by decide) _ List.mem_cons_self)).bind fun _ _ =>
          Safe.pure trivial
    · exact safe_get.bind fun _ _ => tame_unless (by nofun) _ (Safe.pure trivial)
    · exact safe_get.bind fun _ _ => tame_unless (by nofun) _ (Safe.pure trivial)
    · exact Safe.pure trivial
    · exact (safe_reading _).bind fun _ _ => (safe_numeral _).bind fun _ _ => Safe.pure trivial
    · exact (safe_reading _).bind fun _ _ => Safe.pure trivial
    · exact Safe.pure trivial
    · exact Safe.pure trivial
    · exact (safe_reading _).bind fun _ _ => Safe.pure trivial
    · exact (ih.templateParts (hlegal (by decide))).bind fun _ _ => Safe.pure trivial
    · exact (safe_reading _).bind fun _ _ => Safe.pure trivial
    · exact (ih.all (hlegal (by decide))).bind fun _ _ => Safe.pure trivial
    · exact ih.childOf (hlegal (by decide)) 0
    · exact tame_folded ih hp (by decide) _
    · exact tame_folded ih hp (by decide) _
    · refine (ih.childOf (hlegal (by decide)) 0).bind fun _ _ => ?_
      split
      · exact Safe.pure trivial
      · rename_i tail _ ht
        exact (safe_reading _).bind fun parts hparts =>
          tame_assignTail ih (hp.tailParts (by decide) ht hparts)
    · refine (ih.childOf (hlegal (by decide)) 0).bind fun _ _ => ?_
      split
      · exact Safe.pure trivial
      · rename_i tail _ ht
        exact (safe_reading _).bind fun parts hparts =>
          tame_conditionalTail ih (hp.tailParts (by decide) ht hparts)
    · exact ih.unary (hlegal (by decide)) (hp.unary rfl)
    · refine (ih.childOf (hlegal (by decide)) 0).bind fun _ _ => ?_
      split
      · exact Safe.pure trivial
      · exact (safe_checkTarget _ _ _).bind fun _ _ => (safe_reading _).bind fun _ _ =>
          Safe.pure trivial
    · refine (ih.childOf (hlegal (by decide)) 0).bind fun _ _ => ?_
      exact ih.accessTails fun t ht => hlegal (by decide) t (List.mem_of_mem_drop ht)
    · exact safe_mishap _

omit ih in
/-- **Elaboration never fails for an `await` of a legal tree.** -/
theorem tames (n : Nat) : Tames n := by
  induction n with
  | zero => exact tames_zero
  | succ n ih =>
    exact ⟨tame_within ih, tame_child ih, tame_all ih, tame_declarators ih, tame_foldTails ih,
      tame_unary ih, tame_accessTails ih, tame_templateParts ih, tame_functionDecl ih,
      tame_loopBody ih, tame_forLoop ih, tame_forClauses ih⟩

end Elab

/-- **A program of legal trees is not refused for its `await`s.** -/
theorem not_isAwait_of_legal {m : Mark} {ts : List Tree} {f : Fault} (hm : m.tag = "program")
    (h : ∀ t ∈ ts, t.Legal false) (hf : (Tree.node m ts).elaborate = .error f) : ¬ f.isAwait := by
  obtain ⟨tag, text, line, col⟩ := m
  subst hm
  have hall := (Elab.tames (Tree.reach.reaches ts + 3)).all h
  have htame : Elab.Tame false (do
      return Node.program (Elab.locOf (.node ⟨"program", text, line, col⟩ ts))
        (← elaborateAll (Tree.reach.reaches ts + 3) ts)) :=
    hall.bind fun _ _ => Elab.Safe.pure trivial
  have hsafe := htame {} rfl
  have hrun : (Tree.node ⟨"program", text, line, col⟩ ts).elaborate = Prod.fst <$> StateT.run (do
      return Node.program (Elab.locOf (.node ⟨"program", text, line, col⟩ ts))
        (← elaborateAll (Tree.reach.reaches ts + 3) ts)) {} := rfl
  rw [hrun] at hf
  split at hsafe
  · rename_i hr
    rw [hr] at hf
    cases hf
  · rename_i hr
    rw [hr] at hf
    cases hf
    exact hsafe

end LedSketch
