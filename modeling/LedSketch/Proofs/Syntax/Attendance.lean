import Mathlib.Tactic.SplitIfs
import LedSketch.Proofs.Syntax.Attending

/-!
# Attended trees become attended programs

Elaboration takes a tree apart and puts it together as a program. If every pause of the tree is
awaited, then every pause of the program is.

* `Yields`: what the results of a computation satisfy.
* `Attends`: what elaboration makes of attended trees, and `attends` that it does so.
* `attended_of_elaborate`: a program of attended trees is attended.
-/

namespace LedSketch

namespace Elab

open LedSketch.Tree
open Node (Site)

variable {α β : Type} {Q : α → Prop} {R : β → Prop} {x : Elab α} {n : Nat} {t : Tree}
  {ts : List Tree} {counts : Loc → Prop} {p : Site}

/-- **Every result of a computation satisfies `Q`.** -/
def Yields (Q : α → Prop) (x : Elab α) : Prop := ∀ e a e', x.run e = .ok (a, e') → Q a

theorem Yields.pure {a : α} (h : Q a) : Yields Q (Pure.pure a : Elab α) := by
  rintro e b e' ⟨⟩
  exact h

theorem Yields.bind {f : α → Elab β} (hx : Yields Q x) (hf : ∀ a, Q a → Yields R (f a)) :
    Yields R (x >>= f) := by
  intro e b e' h
  rw [StateT.run_bind] at h
  cases hr : x.run e with
  | error f => rw [hr] at h; cases h
  | ok r =>
    rw [hr] at h
    exact hf r.1 (hx e r.1 r.2 hr) r.2 b e' h

theorem Yields.mono {Q' : α → Prop} (h : Yields Q x) (hQ : ∀ a, Q a → Q' a) : Yields Q' x :=
  fun e a e' hr => hQ a (h e a e' hr)

theorem Yields.and {Q' : α → Prop} (h : Yields Q x) (h' : Yields Q' x) :
    Yields (fun a => Q a ∧ Q' a) x :=
  fun e a e' hr => ⟨h e a e' hr, h' e a e' hr⟩

theorem yields_any (x : Elab α) : Yields (fun _ => True) x := fun _ _ _ _ => trivial

/-- Behind any computation comes one with such results. -/
theorem Yields.behind {f : α → Elab β} (hf : ∀ a, Yields R (f a)) : Yields R (x >>= f) :=
  (yields_any x).bind fun a _ => hf a

theorem yields_throw (f : Fault) : Yields Q (throw f : Elab α) := nofun

theorem yields_reading (r : Except Mishap α) : Yields (r = .ok ·) (reading r) := by
  cases r with
  | ok a => exact Yields.pure rfl
  | error m => exact yields_throw _

theorem yields_refuse (c : Complaint) (t : Tree) : Yields Q (refuse c t : Elab α) :=
  Yields.behind fun _ => yields_throw _

theorem yields_element (ts : List Tree) (i : Nat) : Yields (ts[i]? = some ·) (element ts i) := by
  unfold element
  split
  · exact Yields.pure ‹_›
  · exact yields_throw _

theorem yields_two (ts : List Tree) : Yields (fun q => ts = [q.1, q.2]) (two ts) := by
  unfold two
  split
  · exact Yields.pure rfl
  all_goals exact yields_throw _

theorem yields_inLoop (h : Yields Q x) : Yields Q (inLoop x) :=
  Yields.behind fun _ => h.bind fun _ ha => Yields.behind fun _ => Yields.pure ha

theorem yields_inFunction {b : Bool} (h : Yields Q x) : Yields Q (inFunction b x) := by
  refine Yields.behind fun _ => Yields.behind fun _ => h.bind fun _ ha => Yields.behind fun e => ?_
  split
  · exact Yields.behind fun _ => Yields.pure ha
  · exact Yields.behind fun _ => Yields.pure ha

/-- A check that may refuse a tree. -/
theorem yields_unless {c : Prop} [Decidable c] {complaint : Complaint} {f : Unit → Elab α}
    (hf : Yields Q (f ())) : Yields Q (if c then refuse complaint t >>= f else f ()) := by
  split
  · exact (yields_refuse (Q := fun _ => False) _ _).bind nofun
  · exact hf

/-- What elaboration yields holds of the program of a tree. -/
theorem Yields.of_elaborate {Q : Node → Prop} {m : Node} (hQ : Yields Q (elaborateWithin t.reach t))
    (h : t.elaborate = .ok m) : Q m := by
  unfold Tree.elaborate StateT.run' at h
  cases hr : (elaborateWithin t.reach t).run {} with
  | error f => rw [StateT.run] at hr; rw [hr] at h; cases h
  | ok r =>
    have := hQ {} r.1 r.2 hr
    rw [StateT.run] at hr
    rw [hr] at h
    cases h
    exact this

/-! ## The parts of an attended tree -/

/-- What is known of the tag and the children of an attended tree. -/
structure Kids (counts : Loc → Prop) (p : Site) (tag : String) (cs : List Tree) : Prop where
  siting : tag ∈ siting → ∀ t ∈ cs.head?, t.isBare = true
  linked : tag ∈ linked → ∀ t ∈ cs.drop 1, t.isTail = true
  access : tag = "access" → Heard counts p cs ∧ ∀ t ∈ cs.drop 1, t.isLink = true
  kids : ∀ t ∈ cs, t.Attended counts (Tree.inner p tag cs)

theorem kids_of_attended {tag : String} {cs : List Tree} (ht : t.Attended counts p)
    (htag : t.tag = .ok tag) (hcs : t.children = .ok cs) : Kids counts p tag cs := by
  cases t with
  | foreign d _ => exact ht.elim
  | leaf m =>
    cases htag
    cases hcs
    exact ⟨by simp, by simp, fun _ => ⟨trivial, by simp⟩, by simp⟩
  | node m ts =>
    cases htag
    cases hcs
    exact ⟨ht.1, ht.2.1, ht.2.2.1, attended_all_iff.mp ht.2.2.2⟩

/-- The children of most nodes stand as the node does. -/
theorem Kids.plain {tag : String} {cs : List Tree} (h : Kids counts p tag cs)
    (htag : tag ∉ Tree.siting ++ ["postfix"]) : ∀ t ∈ cs, t.Attended counts (p.as .other) := by
  have hinner : Tree.inner p tag cs = p.as .other :=
    inner_of_not_mem (m := ⟨tag, none, none, none⟩) htag
  exact fun t ht => hinner ▸ h.kids t ht

/-- The children of a tail stand as it does. -/
theorem attended_tailParts {cs : List Tree} (ht : t.Attended counts (p.as .other))
    (htail : t.isTail = true) (hcs : t.children = .ok cs) :
    ∀ c ∈ cs, c.Attended counts (p.as .other) := by
  cases t with
  | foreign d _ => exact ht.elim
  | leaf m => cases hcs; simp
  | node m ts =>
    have key : ∀ tag ∈ tailTags, tag ∉ Tree.siting ++ ["postfix"] := by decide
    exact (kids_of_attended ht rfl hcs).plain (key _ (by simpa [isTail] using htail))

/-- The children of the tails of most nodes stand as the node does. -/
theorem Kids.tailParts {tag : String} {cs : List Tree} (h : Kids counts p tag cs)
    (htag : tag ∉ Tree.siting ++ ["postfix"]) (hlinked : tag ∈ Tree.linked) {tail : Tree}
    (htail : tail ∈ cs.drop 1) {parts : List Tree} (hparts : tail.children = .ok parts) :
    ∀ t ∈ parts, t.Attended counts (p.as .other) :=
  attended_tailParts (h.plain htag tail (List.mem_of_mem_drop htail)) (h.linked hlinked tail htail)
    hparts

/-! ## Elaboration -/

/-- What elaboration with fuel `n` makes of attended trees. -/
structure Attends (counts : Loc → Prop) (n : Nat) : Prop where
  within : ∀ {p : Site} {t : Tree}, t.Attended counts p →
    Yields (Node.Attended counts p) (elaborateWithin n t)
  child : ∀ {p : Site} {ts : List Tree} {i : Nat}, (∀ t, ts[i]? = some t → t.Attended counts p) →
    Yields (Node.Attended counts p) (child n ts i)
  first : ∀ {p : Site} {t : Tree} {cs : List Tree}, t.Attended counts (p.as .other) →
    t.children = .ok cs → Yields (Node.Attended counts (p.as .other)) (LedSketch.child n cs 0)
  all : ∀ {p : Site} {ts : List Tree}, (∀ t ∈ ts, t.Attended counts p) →
    Yields (fun ns : List Node => ∀ m ∈ ns, m.Attended counts p) (elaborateAll n ts)
  declarators : ∀ {p : Site} {kind : String} {ts : List Tree},
    (∀ t ∈ ts, t.Attended counts (p.as .other)) → (∀ t ∈ ts, t.isTail = true) →
    Yields (fun ds : List (String × Option Node) => ∀ d ∈ ds, ∀ m, d.2 = some m →
      m.Attended counts (p.as .other)) (declarators n kind ts)
  foldTails : ∀ {p : Site} {commas : Bool} {left : Node} {ts : List Tree},
    left.Attended counts (p.as .other) → (∀ t ∈ ts, t.Attended counts (p.as .other)) →
    (∀ t ∈ ts, t.isTail = true) →
    Yields (Node.Attended counts (p.as .other)) (foldTails n commas left ts)
  unary : ∀ {p : Site} {ts : List Tree},
    (∀ t ∈ ts, t.Attended counts (p.as (if awaitFirst ts then .operand else .other))) →
    Yields (Node.Attended counts p) (unary n ts)
  accessTails : ∀ {p : Site} {object : Node} {ts : List Tree}, object.Attended counts p →
    (∀ t ∈ ts, t.Attended counts (p.as .other)) → (∀ t ∈ ts, t.isLink = true) →
    (∀ t ∈ ts.head?, t.tag = .ok "call" →
      (∃ l, locOf t = some l ∧ counts l) → (∃ l, object = .identifier l "delay") → ¬ p.Lonely) →
    Yields (Node.Attended counts p) (accessTails n object ts)
  templateParts : ∀ {p : Site} {ts : List Tree}, (∀ t ∈ ts, t.Attended counts (p.as .other)) →
    Yields (fun ps : List (String ⊕ Node) => ∀ m, .inr m ∈ ps → m.Attended counts (p.as .other))
      (templateParts n ts)
  functionDecl : ∀ {p : Site} {loc : Option Loc} {ts : List Tree},
    (∀ t ∈ ts, t.Attended counts ⟨asyncFirst ts, p.inTemplate, .other⟩) →
    Yields (Node.Attended counts p) (functionDecl n loc ts)
  loopBody : ∀ {p : Site} {t : Tree}, t.Attended counts p →
    Yields (Node.Attended counts p) (loopBody n t)
  forLoop : ∀ {p : Site} {loc : Option Loc} {ts : List Tree},
    (∀ t ∈ ts, t.Attended counts (p.as .other)) → Yields (Node.Attended counts p) (forLoop n loc ts)
  forClauses : ∀ {p : Site} {c : Option Node × Option Node × Option Node} {ts : List Tree},
    (∀ t ∈ ts, t.Attended counts (p.as .other)) →
    (∀ m ∈ c.1.toList ++ c.2.1.toList ++ c.2.2.toList, m.Attended counts (p.as .other)) →
    Yields (fun d : Option Node × Option Node × Option Node =>
      ∀ m ∈ d.1.toList ++ d.2.1.toList ++ d.2.2.toList, m.Attended counts (p.as .other))
      (forClauses n c ts)

theorem attends_zero : Attends counts 0 := by
  constructor <;> intros <;> exact yields_throw _

/-- What an access starts with is a call of `delay` only if it says so. -/
theorem yields_callee (h : ∃ tag ∈ firstTags, t.tag = .ok tag) :
    Yields (fun m => ∀ l, m = .identifier l "delay" → t.text = .ok "delay")
      (elaborateWithin n t) := by
  obtain ⟨tag, hmem, htag⟩ := h
  cases n with
  | zero => exact yields_throw _
  | succ n =>
    rw [elaborateWithin.eq_def]
    split
    · contradiction
    · split
      · exact Yields.behind fun _ => yields_throw _
      · exact yields_throw _
    · exact yields_throw _
    · rename_i heq _ _
      obtain rfl := Nat.succ.inj heq
      refine (yields_reading _).bind fun tag' htag' => Yields.behind fun cs => ?_
      obtain rfl : tag = tag' := Except.ok.inj (htag.symm.trans htag')
      simp only [firstTags, List.mem_cons, List.not_mem_nil, or_false] at hmem
      rcases hmem with rfl | rfl | rfl | rfl | rfl | rfl | rfl | rfl
      · exact Yields.behind fun _ => Yields.behind fun _ => Yields.pure nofun
      · exact Yields.behind fun _ => Yields.pure nofun
      · exact Yields.behind fun _ => Yields.pure nofun
      · exact Yields.behind fun _ => Yields.pure nofun
      · exact Yields.pure nofun
      · exact Yields.pure nofun
      · exact Yields.behind fun _ => Yields.pure nofun
      · refine (yields_reading _).bind fun s hs => Yields.pure ?_
        rintro l ⟨⟩
        exact hs

theorem yields_calleeOf (cs : List Tree) :
    Yields (fun m => ∀ c, cs[0]? = some c → (∃ tag ∈ firstTags, c.tag = .ok tag) →
      ∀ l, m = .identifier l "delay" → c.text = .ok "delay") (child n cs 0) := by
  cases n with
  | zero =>
    rw [child]
    exact yields_throw _
  | succ n =>
    rw [child]
    refine (yields_element cs 0).bind fun c hc e m e' hr c' hc' htags => ?_
    obtain rfl : c = c' := Option.some.inj (hc.symm.trans hc')
    exact yields_callee htags e m e' hr

/-- An interpolation by itself is no program. -/
theorem yields_interpolation {Q : Node → Prop} {m : Mark} (hm : m.tag = "interpolation") :
    Yields Q (elaborateWithin n (node m ts)) := by
  cases n with
  | zero => exact yields_throw _
  | succ n =>
    rw [elaborateWithin.eq_def]
    refine (yields_reading _).bind fun tag htag => Yields.behind fun cs => ?_
    obtain rfl : "interpolation" = tag := hm.symm.trans (Except.ok.inj htag)
    exact yields_throw _

/-- The first clause of a `for` loop is a declaration, or an expression that stands as a
statement. -/
theorem attended_asStatement {e : Node} (he : e.Attended counts (p.as .other)) (l : Option Loc) :
    (asStatement l e).Attended counts (p.as .other) := by
  unfold asStatement
  split
  · exact he
  · exact Node.attended_ordinary rfl rfl fun m hm => List.mem_singleton.mp hm ▸ he

variable (ih : Attends counts n)
include ih

theorem attend_child {i : Nat} (h : ∀ t, ts[i]? = some t → t.Attended counts p) :
    Yields (Node.Attended counts p) (child (n + 1) ts i) := by
  rw [child]
  exact (yields_element ts i).bind fun t ht => ih.within (h t ht)

theorem Attends.childOf (h : ∀ t ∈ ts, t.Attended counts p) (i : Nat) :
    Yields (Node.Attended counts p) (LedSketch.child n ts i) :=
  ih.child fun t ht => h t (List.mem_of_getElem? ht)

theorem attend_all (h : ∀ t ∈ ts, t.Attended counts p) :
    Yields (fun ns : List Node => ∀ m ∈ ns, m.Attended counts p) (elaborateAll (n + 1) ts) := by
  cases ts with
  | nil =>
    rw [elaborateAll]
    exact Yields.pure (by simp)
  | cons t ts =>
    rw [elaborateAll]
    refine (ih.within (h t List.mem_cons_self)).bind fun m hm => ?_
    refine (ih.all fun t ht => h t (List.mem_cons_of_mem _ ht)).bind fun ms hms => ?_
    exact Yields.pure (List.forall_mem_cons.mpr ⟨hm, hms⟩)

/-- **The first child** of any tree may stand for the tree. -/
theorem attend_first {cs : List Tree} (ht : t.Attended counts (p.as .other))
    (hcs : t.children = .ok cs) :
    Yields (Node.Attended counts (p.as .other)) (child (n + 1) cs 0) := by
  rw [child]
  refine (yields_element cs 0).bind fun c hc => ?_
  cases t with
  | foreign d _ => exact ht.elim
  | leaf m => cases hcs; cases hc
  | node m ts =>
    cases hcs
    have hkids := kids_of_attended ht rfl rfl
    have hmem := List.mem_of_getElem? hc
    by_cases hsiting : m.tag ∈ Tree.siting
    · have hbare := hkids.siting hsiting c (by rw [List.head?_eq_getElem?]; exact hc)
      cases c with
      | leaf m' => exact ih.within attended_leaf
      | node m' ts' => exact yields_interpolation (by simpa [isBare] using hbare)
      | foreign d _ => cases hbare
    · refine ih.within ?_
      have hinner : Tree.inner (p.as .other) m.tag cs = p.as .other := by
        by_cases hp : m.tag = "postfix"
        · rw [Tree.inner, hp]
          rfl
        · rw [inner_of_not_mem (by simp [hsiting, hp])]
          rfl
      rw [← hinner]
      exact hkids.kids c hmem

theorem attend_loopBody (h : t.Attended counts p) :
    Yields (Node.Attended counts p) (loopBody (n + 1) t) := by
  rw [loopBody]
  exact yields_inLoop (ih.within h)

theorem attend_declarators {kind : String} (h : ∀ t ∈ ts, t.Attended counts (p.as .other))
    (hd : ∀ t ∈ ts, t.isTail = true) :
    Yields (fun ds : List (String × Option Node) => ∀ d ∈ ds, ∀ m, d.2 = some m →
      m.Attended counts (p.as .other)) (declarators (n + 1) kind ts) := by
  cases ts with
  | nil =>
    rw [declarators]
    exact Yields.pure (by simp)
  | cons t ts =>
    rw [declarators]
    refine (yields_reading _).bind fun parts hparts => ?_
    have hkids := attended_tailParts (h t List.mem_cons_self) (hd t List.mem_cons_self) hparts
    extract_lets rest
    have hrest (init : Option Node) (hi : ∀ m, init = some m → m.Attended counts (p.as .other)) :
        Yields (fun ds : List (String × Option Node) => ∀ d ∈ ds, ∀ m, d.2 = some m →
          m.Attended counts (p.as .other)) (rest init) := by
      simp only [rest]
      refine yields_unless (Yields.behind fun _ => Yields.behind fun _ => ?_)
      refine (ih.declarators (fun t ht => h t (List.mem_cons_of_mem _ ht))
        fun t ht => hd t (List.mem_cons_of_mem _ ht)).bind fun ds hds => Yields.pure ?_
      exact List.forall_mem_cons.mpr ⟨hi, hds⟩
    split
    · exact hrest none fun _ h => by cases h
    · rename_i e _ he
      refine (ih.within (hkids e ?_)).bind fun v hv => hrest (some v) ?_
      · exact List.mem_of_mem_drop (he ▸ List.mem_cons_self)
      · rintro m ⟨⟩
        exact hv

omit ih in
/-- The node of a binary operator has nothing to do with an `await`. -/
theorem attended_operator {commas : Bool} {loc : Option Loc} {op : String} {a b : Node}
    (ha : a.Attended counts (p.as .other)) (hb : b.Attended counts (p.as .other)) :
    (tailNode commas loc op a b).Attended counts (p.as .other) := by
  have both {m : Node} (hm : m ∈ [a, b]) : m.Attended counts ((p.as .other).as .other) := by
    simp only [List.mem_cons, List.not_mem_nil, or_false] at hm
    rcases hm with rfl | rfl
    · exact ha
    · exact hb
  unfold tailNode binaryNode
  split_ifs <;> exact Node.attended_ordinary rfl rfl fun _ => both

theorem attend_foldTails {commas : Bool} {left : Node} (hl : left.Attended counts (p.as .other))
    (h : ∀ t ∈ ts, t.Attended counts (p.as .other)) (hd : ∀ t ∈ ts, t.isTail = true) :
    Yields (Node.Attended counts (p.as .other)) (foldTails (n + 1) commas left ts) := by
  cases ts with
  | nil =>
    rw [foldTails]
    exact Yields.pure hl
  | cons t ts =>
    rw [foldTails]
    have hrest {node : Node} (hn : node.Attended counts (p.as .other)) :
        Yields (Node.Attended counts (p.as .other)) (LedSketch.foldTails n commas node ts) :=
      ih.foldTails hn (fun t ht => h t (List.mem_cons_of_mem _ ht))
        fun t ht => hd t (List.mem_cons_of_mem _ ht)
    refine (yields_reading _).bind fun parts hparts => Yields.behind fun tag => ?_
    have hkids := attended_tailParts (h t List.mem_cons_self) (hd t List.mem_cons_self) hparts
    split
    · exact (ih.childOf hkids 0).bind fun b hb => hrest (attended_operator hl hb)
    · refine (yields_two parts).bind fun q hq => Yields.behind fun word => ?_
      refine (ih.within (hkids q.2 (by simp [hq]))).bind fun b hb => ?_
      exact hrest (attended_operator hl hb)

/-- **An operator in front of an operand**: what an `await` waits for may pause. -/
theorem attend_unary
    (h : ∀ t ∈ ts, t.Attended counts (p.as (if awaitFirst ts then .operand else .other))) :
    Yields (Node.Attended counts p) (unary (n + 1) ts) := by
  rw [unary]
  refine (yields_two ts).bind fun q hq => (yields_reading _).bind fun word hword => ?_
  have hoperand := h q.2 (by simp [hq])
  have hfirst : awaitFirst ts = (word == "await") := by
    rw [hq, awaitFirst, hword]
  rw [hfirst] at hoperand
  split
  · rename_i hawait
    rw [if_pos (by simpa using hawait)] at hoperand
    refine Yields.behind fun e => yields_unless ?_
    refine (ih.within hoperand).bind fun m hm => Yields.pure ?_
    refine Node.attended_of_parts rfl fun x hx => ?_
    obtain rfl := List.mem_singleton.mp hx
    exact hm
  · rename_i hawait
    rw [if_neg (by simpa using hawait)] at hoperand
    refine (ih.within hoperand).bind fun m hm => ?_
    have hone : ∀ k ∈ [m], k.Attended counts (p.as .other) := by simpa using hm
    split
    · exact Yields.behind fun _ => Yields.pure (Node.attended_ordinary rfl rfl hone)
    · exact Yields.pure (Node.attended_ordinary rfl rfl hone)

/-- **Calls, members and elements**: a call of `delay` that they start with has to be awaited where
the whole of them is not. -/
theorem attend_accessTails {object : Node} (ho : object.Attended counts p)
    (h : ∀ t ∈ ts, t.Attended counts (p.as .other)) (hd : ∀ t ∈ ts, t.isLink = true)
    (hc : ∀ t ∈ ts.head?, t.tag = .ok "call" → (∃ l, locOf t = some l ∧ counts l) →
      (∃ l, object = .identifier l "delay") → ¬ p.Lonely) :
    Yields (Node.Attended counts p) (accessTails (n + 1) object ts) := by
  cases ts with
  | nil =>
    rw [accessTails]
    exact Yields.pure ho
  | cons t ts =>
    rw [accessTails]
    have hrest {node : Node} (hn : node.Attended counts p)
        (hname : ∀ l, node ≠ .identifier l "delay") :
        Yields (Node.Attended counts p) (LedSketch.accessTails n node ts) :=
      ih.accessTails hn (fun t ht => h t (List.mem_cons_of_mem _ ht))
        (fun t ht => hd t (List.mem_cons_of_mem _ ht))
        fun _ _ _ _ ⟨l, hl⟩ => absurd hl (hname l)
    have ht := h t List.mem_cons_self
    have hlink := hd t List.mem_cons_self
    have hobject : object.Attended counts (p.as p.role.inner) := ho.mono (.toInner p)
    refine (yields_reading _).bind fun parts hparts => (yields_reading _).bind fun tag htag => ?_
    have hkids := attended_tailParts ht (isTail_of_isLink hlink) hparts
    split
    · refine (ih.all hkids).bind fun args hargs => hrest ?_ nofun
      refine Node.attended_iff.mpr ⟨fun hpause => ?_, fun x hx => ?_⟩
      · obtain ⟨l, hl, hname, hcounts⟩ := Node.pauses_call hpause
        exact hc t rfl htag ⟨l, hl, hcounts⟩ hname
      · rcases List.mem_cons.mp hx with rfl | hx
        · exact hobject
        · obtain ⟨m, hm, rfl⟩ := List.mem_map.mp hx
          exact hargs m hm
    · refine Yields.behind fun part => Yields.behind fun name => hrest ?_ nofun
      refine Node.attended_of_parts rfl fun x hx => ?_
      obtain rfl := List.mem_singleton.mp hx
      exact hobject
    · refine (ih.childOf hkids 0).bind fun key hkey => hrest ?_ nofun
      refine Node.attended_of_parts rfl fun x hx => ?_
      simp only [Node.parts, List.mem_cons, List.not_mem_nil, or_false] at hx
      rcases hx with rfl | rfl
      · exact hobject
      · exact hkey
    · rename_i h₁ h₂ h₃
      have hmem := mem_linkTags hlink htag
      simp only [linkTags, List.mem_cons, List.not_mem_nil, or_false] at hmem
      rcases hmem with rfl | rfl | rfl
      · exact absurd rfl h₁
      · exact absurd rfl h₂
      · exact absurd rfl h₃

theorem attend_templateParts (h : ∀ t ∈ ts, t.Attended counts (p.as .other)) :
    Yields (fun ps : List (String ⊕ Node) => ∀ m, .inr m ∈ ps → m.Attended counts (p.as .other))
      (templateParts (n + 1) ts) := by
  cases ts with
  | nil =>
    rw [templateParts]
    exact Yields.pure (by simp)
  | cons t ts =>
    rw [templateParts]
    have hrest := ih.templateParts fun t ht => h t (List.mem_cons_of_mem _ ht)
    refine Yields.behind fun tag => ?_
    split
    · exact Yields.behind fun chunk => hrest.bind fun ps hps => Yields.pure (by simpa using hps)
    · refine (yields_reading _).bind fun parts hparts => ?_
      refine (ih.first (h t List.mem_cons_self) hparts).bind fun e he => ?_
      refine hrest.bind fun ps hps => Yields.pure fun m hm => ?_
      rcases List.mem_cons.mp hm with hm | hm
      · cases hm
        exact he
      · exact hps m hm

/-- **A function declaration**: its body stands in an async function exactly if the declaration begins
with the mark of one. -/
theorem attend_functionDecl {loc : Option Loc}
    (h : ∀ t ∈ ts, t.Attended counts ⟨asyncFirst ts, p.inTemplate, .other⟩) :
    Yields (Node.Attended counts p) (functionDecl (n + 1) loc ts) := by
  rw [functionDecl]
  refine (yields_element ts 0).bind fun first hfirst => (yields_reading _).bind fun tag htag => ?_
  have hasync : asyncFirst ts = decide (tag = "async") := by
    cases ts with
    | nil => cases hfirst
    | cons t ts =>
      cases hfirst
      rw [asyncFirst, htag]
      rfl
  rw [hasync] at h
  have hsub : ∀ t ∈ (if tag = "async" then ts.drop 1 else ts),
      t.Attended counts ⟨decide (tag = "async"), p.inTemplate, .other⟩ := by
    intro t ht
    split at ht
    · exact h t (List.mem_of_mem_drop ht)
    · exact h t ht
  dsimp only
  generalize (if tag = "async" then ts.drop 1 else ts) = parts at hsub ⊢
  split
  · exact yields_throw _
  · exact yields_throw _
  · rename_i name rest _
    have hbody := ih.childOf (fun t ht => hsub t (List.mem_cons_of_mem _ ht)) (rest.length - 1)
    refine (yields_inFunction hbody).bind fun body hb => Yields.behind fun _ => ?_
    refine Yields.behind fun _ => Yields.pure (Node.attended_of_parts rfl fun x hx => ?_)
    obtain rfl := List.mem_singleton.mp hx
    exact hb

theorem attend_forClauses {clauses : Option Node × Option Node × Option Node}
    (h : ∀ t ∈ ts, t.Attended counts (p.as .other))
    (hc : ∀ m ∈ clauses.1.toList ++ clauses.2.1.toList ++ clauses.2.2.toList,
      m.Attended counts (p.as .other)) :
    Yields (fun c : Option Node × Option Node × Option Node =>
      ∀ m ∈ c.1.toList ++ c.2.1.toList ++ c.2.2.toList, m.Attended counts (p.as .other))
      (forClauses (n + 1) clauses ts) := by
  obtain ⟨init, test, update⟩ := clauses
  cases ts with
  | nil =>
    rw [forClauses]
    exact Yields.pure hc
  | cons t ts =>
    rw [forClauses]
    refine (yields_reading _).bind fun parts hparts => ?_
    refine (ih.first (h t List.mem_cons_self) hparts).bind fun e he => Yields.behind fun tag => ?_
    have hrest := fun clauses => ih.forClauses (c := clauses)
      fun t ht => h t (List.mem_cons_of_mem _ ht)
    simp only [List.mem_append, Option.mem_toList] at hc hrest ⊢
    split
    · refine hrest _ ?_
      rintro m ((hm | hm) | hm)
      · cases hm
        exact attended_asStatement he _
      · exact hc m (Or.inl (Or.inr hm))
      · exact hc m (Or.inr hm)
    · refine hrest _ ?_
      rintro m ((hm | hm) | hm)
      · exact hc m (Or.inl (Or.inl hm))
      · cases hm
        exact he
      · exact hc m (Or.inr hm)
    · refine hrest _ ?_
      rintro m ((hm | hm) | hm)
      · exact hc m (Or.inl (Or.inl hm))
      · exact hc m (Or.inl (Or.inr hm))
      · cases hm
        exact he
    · exact hrest _ hc

theorem attend_forLoop {loc : Option Loc} (h : ∀ t ∈ ts, t.Attended counts (p.as .other)) :
    Yields (Node.Attended counts p) (forLoop (n + 1) loc ts) := by
  rw [forLoop]
  refine (ih.forClauses (fun t ht => h t (List.dropLast_subset ts ht)) (by simp)).bind
    fun c hc => (yields_element _ _).bind fun t ht => ?_
  refine (ih.loopBody (h t (List.mem_of_getElem? ht))).bind fun body hb => Yields.pure ?_
  refine Node.attended_ordinary rfl rfl fun m hm => ?_
  rcases List.mem_cons.mp hm with rfl | hm
  · exact hb
  · exact hc m hm

/-! ### One lemma for each tag of which more than the children is read -/

section

variable {cs : List Tree} {loc : Option Loc}

omit ih in
theorem both_attended {a b : Node} (ha : a.Attended counts (p.as .other))
    (hb : b.Attended counts (p.as .other)) : ∀ k ∈ [a, b], k.Attended counts (p.as .other) :=
  List.forall_mem_cons.mpr ⟨ha, by simpa using hb⟩

theorem attend_varDecl (hk : Kids counts p "var-decl" cs) : Yields (Node.Attended counts p) (do
    let kind ← reading (← element cs 0).text
    return Node.varDecl loc kind (← LedSketch.declarators n kind (cs.drop 1))) := by
  refine Yields.behind fun _ => Yields.behind fun _ => ?_
  refine (ih.declarators (fun t ht => hk.plain (by decide) t (List.mem_of_mem_drop ht))
    (hk.linked (by decide))).bind fun ds hds => Yields.pure ?_
  refine Node.attended_ordinary rfl rfl fun m hm => ?_
  obtain ⟨d, hd, hm⟩ := List.mem_filterMap.mp hm
  exact hds d hd m hm

/-- The choice between statements, behind its last part. -/
theorem attend_ifElse (hk : Kids counts p "if" cs) {no : Option Node}
    (hno : ∀ m ∈ no.toList, m.Attended counts (p.as .other)) :
    Yields (Node.Attended counts p) (do
      let test ← LedSketch.child n cs 0
      return Node.ifElse loc test (← LedSketch.child n cs 1) no) := by
  have hkids := hk.plain (by decide)
  refine (ih.childOf hkids 0).bind fun a ha => (ih.childOf hkids 1).bind fun b hb => ?_
  exact Yields.pure (Node.attended_ordinary rfl rfl
    (List.forall_mem_cons.mpr ⟨ha, List.forall_mem_cons.mpr ⟨hb, hno⟩⟩))

theorem attend_whileLoop (hk : Kids counts p "while" cs) : Yields (Node.Attended counts p) (do
    let test ← LedSketch.child n cs 0
    return Node.whileLoop loc test (← LedSketch.loopBody n (← element cs 1))) := by
  have hkids := hk.plain (by decide)
  refine (ih.childOf hkids 0).bind fun a ha => (yields_element _ _).bind fun t ht => ?_
  refine (ih.loopBody (hkids t (List.mem_of_getElem? ht))).bind fun b hb => ?_
  exact Yields.pure (Node.attended_ordinary rfl rfl (both_attended ha hb))

theorem attend_doWhile (hk : Kids counts p "do-while" cs) : Yields (Node.Attended counts p) (do
    let body ← LedSketch.loopBody n (← element cs 0)
    return Node.doWhile loc body (← LedSketch.child n cs 1)) := by
  have hkids := hk.plain (by decide)
  refine (yields_element _ _).bind fun t ht => ?_
  refine (ih.loopBody (hkids t (List.mem_of_getElem? ht))).bind fun b hb => ?_
  refine (ih.childOf hkids 1).bind fun a ha => ?_
  exact Yields.pure (Node.attended_ordinary rfl rfl (both_attended hb ha))

theorem attend_template (hk : Kids counts p "template" cs) : Yields (Node.Attended counts p) (do
    return Node.template loc (← LedSketch.templateParts n cs)) := by
  refine (ih.templateParts (p := ⟨p.inAsync, true, .other⟩) hk.kids).bind fun ps hps =>
    Yields.pure (Node.attended_of_parts rfl fun x hx => ?_)
  obtain ⟨part, hmem, hpart⟩ := List.mem_filterMap.mp hx
  cases part with
  | inl s => cases hpart
  | inr m =>
    cases hpart
    exact hps m hmem

/-- Operands with operators between them, also commas. -/
theorem attend_folded {tag : String} (hk : Kids counts p tag cs)
    (htag : tag ∉ Tree.siting ++ ["postfix"]) (hlinked : tag ∈ Tree.linked) (commas : Bool) :
    Yields (Node.Attended counts p) (do
      let first ← LedSketch.child n cs 0
      LedSketch.foldTails n commas first (cs.drop 1)) := by
  refine (ih.childOf (hk.plain htag) 0).bind fun m hm => ?_
  exact (ih.foldTails hm (fun t ht => hk.plain htag t (List.mem_of_mem_drop ht))
    (hk.linked hlinked)).mono fun _ hm => hm.mono (.other p)

/-- The tail of an assignment. -/
theorem attend_assignTail (hk : Kids counts p "assignment" cs) {target : Node} {tail : Tree}
    (htarget : target.Attended counts (p.as .other)) (htail : tail ∈ cs.drop 1) :
    Yields (Node.Attended counts p) (do
      let parts ← reading tail.children
      let op ← element parts 0
      checkTarget target "assignment" op
      let word ← reading op.text
      return Node.assign (locOf op) word target (← LedSketch.child n parts 1)) := by
  refine (yields_reading _).bind fun parts hparts => ?_
  have hkids := hk.tailParts (by decide) (by decide) htail hparts
  refine Yields.behind fun _ => Yields.behind fun _ => Yields.behind fun _ => ?_
  refine (ih.childOf hkids 1).bind fun v hv => ?_
  exact Yields.pure (Node.attended_ordinary rfl rfl (both_attended htarget hv))

/-- The tail of a conditional. -/
theorem attend_conditionalTail (hk : Kids counts p "conditional" cs) {test : Node} {tail : Tree}
    (htest : test.Attended counts (p.as .other)) (htail : tail ∈ cs.drop 1) :
    Yields (Node.Attended counts p) (do
      let (yes, no) ← two (← reading tail.children)
      let yes ← elaborateWithin n yes
      return Node.conditional loc test yes (← elaborateWithin n no)) := by
  refine (yields_reading _).bind fun parts hparts => (yields_two parts).bind fun q hq => ?_
  have hkids := hk.tailParts (by decide) (by decide) htail hparts
  refine (ih.within (hkids q.1 (by simp [hq]))).bind fun yes hyes => ?_
  refine (ih.within (hkids q.2 (by simp [hq]))).bind fun no hno => Yields.pure ?_
  exact Node.attended_ordinary rfl rfl (List.forall_mem_cons.mpr ⟨htest, both_attended hyes hno⟩)

omit ih in
/-- An update behind its target starts with the target. -/
theorem attended_update {target : Node} {op : String}
    (h : target.Attended counts p) : (Node.update loc op false target).Attended counts p := by
  refine Node.attended_of_parts rfl fun x hx => ?_
  obtain rfl := List.mem_singleton.mp hx
  exact h.mono (.toInner p)

/-- What an access starts with may be `delay`, if a call of it is awaited. -/
theorem attend_access (hk : Kids counts p "access" cs) : Yields (Node.Attended counts p) (do
    let first ← LedSketch.child n cs 0
    LedSketch.accessTails n first (cs.drop 1)) := by
  obtain ⟨hheard, hlinks⟩ := hk.access rfl
  have hkids := hk.plain (by decide)
  refine ((ih.childOf hkids 0).and (yields_calleeOf cs)).bind fun m hm => ?_
  refine ih.accessTails (hm.1.mono (.other p)) (fun t ht => hkids t (List.mem_of_mem_drop ht))
    hlinks fun tail htail hcall hcounts ⟨l, hl⟩ => ?_
  cases cs with
  | nil => cases htail
  | cons first tails =>
    cases tails with
    | nil => cases htail
    | cons t ts =>
      cases htail
      obtain ⟨htags, hpause⟩ := hheard hcall hcounts
      exact hpause (hm.2 first rfl htags l hl)

end

/-- One more level of an attended tree. -/
theorem attend_within (h : t.Attended counts p) :
    Yields (Node.Attended counts p) (elaborateWithin (n + 1) t) := by
  rw [elaborateWithin.eq_def]
  split
  · contradiction
  · exact h.elim
  · exact h.elim
  · rename_i heq _ _
    obtain rfl := Nat.succ.inj heq
    refine (yields_reading _).bind fun tag htag => (yields_reading _).bind fun cs hcs => ?_
    have hk := kids_of_attended h htag hcs
    have hplain := hk.plain
    have one {m : Node} (hm : m.Attended counts (p.as .other)) :
        ∀ k ∈ [m], k.Attended counts (p.as .other) := by simpa using hm
    dsimp only
    split
    · refine Yields.behind fun _ => ?_
      exact (ih.all (hplain (by decide))).bind fun ns hns =>
        Yields.pure (Node.attended_ordinary rfl rfl hns)
    · exact (ih.all (hplain (by decide))).bind fun ns hns =>
        Yields.pure (Node.attended_ordinary rfl rfl hns)
    · exact attend_varDecl ih hk
    · exact ih.functionDecl hk.kids
    · exact (ih.childOf (hplain (by decide)) 0).bind fun m hm =>
        Yields.pure (Node.attended_ordinary rfl rfl (one hm))
    · split
      · exact attend_ifElse ih hk (by simp)
      · rename_i e _ he
        have hmem : e ∈ cs := List.mem_of_mem_drop (he ▸ List.mem_cons_self)
        refine (yields_reading _).bind fun parts hparts => ?_
        refine (ih.first (hplain (by decide) e hmem) hparts).bind fun m hm => ?_
        exact attend_ifElse ih hk (by simpa using hm)
    · exact ih.forLoop (hplain (by decide))
    · exact attend_whileLoop ih hk
    · exact attend_doWhile ih hk
    · refine Yields.behind fun e => yields_unless ?_
      split
      · exact Yields.pure (Node.attended_ordinary rfl rfl (by simp [Node.ordinaryParts]))
      · exact (ih.within (hplain (by decide) _ List.mem_cons_self)).bind fun m hm =>
          Yields.pure (Node.attended_ordinary rfl rfl (one hm))
    · exact Yields.behind fun _ => yields_unless (Yields.pure (Node.attended_ordinary rfl rfl nofun))
    · exact Yields.behind fun _ => yields_unless (Yields.pure (Node.attended_ordinary rfl rfl nofun))
    · exact Yields.pure (Node.attended_ordinary rfl rfl nofun)
    · exact Yields.behind fun _ => Yields.behind fun _ =>
        Yields.pure (Node.attended_ordinary rfl rfl nofun)
    · exact Yields.behind fun _ => Yields.pure (Node.attended_ordinary rfl rfl nofun)
    · exact Yields.pure (Node.attended_ordinary rfl rfl nofun)
    · exact Yields.pure (Node.attended_ordinary rfl rfl nofun)
    · exact Yields.behind fun _ => Yields.pure (Node.attended_ordinary rfl rfl nofun)
    · exact attend_template ih hk
    · exact Yields.behind fun _ => Yields.pure (Node.attended_ordinary rfl rfl nofun)
    · exact (ih.all (hplain (by decide))).bind fun ns hns =>
        Yields.pure (Node.attended_ordinary rfl rfl hns)
    · exact (ih.childOf (hplain (by decide)) 0).mono fun _ hm => hm.mono (.other p)
    · exact attend_folded ih hk (by decide) (by decide) _
    · exact attend_folded ih hk (by decide) (by decide) _
    · refine (ih.childOf (hplain (by decide)) 0).bind fun m hm => ?_
      split
      · exact Yields.pure (hm.mono (.other p))
      · exact attend_assignTail ih hk hm (by simp [*])
    · refine (ih.childOf (hplain (by decide)) 0).bind fun m hm => ?_
      split
      · exact Yields.pure (hm.mono (.other p))
      · exact attend_conditionalTail ih hk hm (by simp [*])
    · exact ih.unary hk.kids
    · refine (ih.childOf (p := p) hk.kids 0).bind fun m hm => ?_
      split
      · exact Yields.pure hm
      · exact Yields.behind fun _ => Yields.behind fun _ => Yields.pure (attended_update hm)
    · exact attend_access ih hk
    · exact yields_throw _

omit ih in
/-- **Elaboration makes attended programs of attended trees.** -/
theorem attends (n : Nat) : Attends counts n := by
  induction n with
  | zero => exact attends_zero
  | succ n ih =>
    exact ⟨attend_within ih, attend_child ih, attend_first ih, attend_all ih,
      attend_declarators ih, attend_foldTails ih, attend_unary ih, attend_accessTails ih,
      attend_templateParts ih, attend_functionDecl ih, attend_loopBody ih, attend_forLoop ih,
      attend_forClauses ih⟩

end Elab

/-- **The program of an attended tree is attended.** -/
theorem attended_of_elaborate {counts : Loc → Prop} {t : Tree} {n : Node}
    (ht : t.Attended counts {}) (h : t.elaborate = .ok n) : n.Attended counts {} :=
  ((Elab.attends t.reach).within ht).of_elaborate h

end LedSketch
