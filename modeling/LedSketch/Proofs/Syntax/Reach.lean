import LedSketch.Syntax.Elaborate
import Mathlib.Tactic.SplitIfs

/-!
# Elaboration comes to an end by itself

`Tree.elaborate` starts with `Tree.reach` steps of fuel. That is always enough, also for trees that
no grammar builds, whose parts are taken from data of any shape: whatever fails, it is never the
fuel.

* `Tree.reaches_le_of_children`: a tree reaches further than each of its parts, by four steps.
* `Elab.Sated`: a computation that does not fail for lack of fuel.
* `Elab.Enough`: how much fuel each function of the elaboration needs, and `enough` that it does
  not run out of that.
* `elaborate_ne_tooDeep`: no tree is too deep to be elaborated.
-/

namespace LedSketch

variable {ω : Type}

/-! ## Reach -/

namespace Tree

variable {t : Tree ω} {ts : List (Tree ω)}

theorem reach_lt_of_mem (h : t ∈ ts) : t.reach < reach.reaches ts := by
  induction ts with
  | nil => cases h
  | cons u us ih =>
    rw [reach.reaches]
    rcases List.mem_cons.mp h with rfl | h
    · omega
    · have := ih h
      omega

theorem reaches_append_le (ts us : List (Tree ω)) :
    reach.reaches ts ≤ reach.reaches (ts ++ us) ∧ reach.reaches us ≤ reach.reaches (ts ++ us) := by
  induction ts with
  | nil => exact ⟨Nat.zero_le _, Nat.le_refl _⟩
  | cons t ts ih =>
    simp only [List.cons_append, reach.reaches]
    omega

theorem reaches_drop_le (n : Nat) (ts : List (Tree ω)) :
    reach.reaches (ts.drop n) ≤ reach.reaches ts := by
  have := (reaches_append_le (ts.take n) (ts.drop n)).2
  rwa [List.take_append_drop] at this

theorem reaches_dropLast_le (ts : List (Tree ω)) :
    reach.reaches ts.dropLast ≤ reach.reaches ts := by
  rcases List.eq_nil_or_concat ts with rfl | ⟨us, u, rfl⟩
  · exact Nat.le_refl _
  · rw [List.concat_eq_append, List.dropLast_concat]
    exact (reaches_append_le us [u]).1

/-- A tree reaches further than its parts, also if they are those of a datum. -/
theorem reaches_le_of_children (h : t.children = .ok ts) : reach.reaches ts + 4 ≤ t.reach := by
  cases t with
  | leaf m =>
    cases h
    exact Nat.le_refl _
  | node m us =>
    cases h
    exact Nat.le_refl _
  | foreign d us =>
    have hparts : us = ts := by
      unfold children at h
      split at h
      · rename_i heq
        cases heq
      · rename_i heq
        cases heq
      · rename_i heq
        cases heq
        split at h
        · cases h
        · exact Except.ok.inj h
      · cases h
    subst hparts
    exact Nat.le_refl _

end Tree

/-! ## Readings -/

/-- A reading that may fail, but not for lack of fuel. -/
def Shallow {α : Type} (r : Except Mishap α) : Prop := r ≠ .error .tooDeep

theorem Shallow.bind {α β : Type} {r : Except Mishap α} {f : α → Except Mishap β} (hr : Shallow r)
    (hf : ∀ a, Shallow (f a)) : Shallow (r >>= f) := by
  cases r with
  | ok a => exact hf a
  | error m => exact fun h => hr (congrArg Except.error (Except.error.inj h))

theorem Shallow.map {α β : Type} {r : Except Mishap α} (hr : Shallow r) (f : α → β) :
    Shallow (do return f (← r)) := hr.bind fun _ => nofun

theorem shallow_readInt (base : Nat) (cs : List Char) : Shallow (Reading.readInt base cs) := by
  unfold Reading.readInt
  dsimp only
  split
  · nofun
  · split <;> nofun

theorem shallow_readFloat (cs : List Char) : Shallow (Reading.readFloat cs) := by
  unfold Reading.readFloat
  split <;> nofun

theorem shallow_ofNumeral (s : String) : Shallow (Number.ofNumeral s) := by
  unfold Number.ofNumeral
  dsimp only
  split_ifs
  · exact (shallow_readInt _ _).map _
  · exact (shallow_readInt _ _).map _
  · exact (shallow_readInt _ _).map _
  · exact (shallow_readFloat _).map _

namespace Tree

theorem shallow_tag (t : Tree ω) : Shallow t.tag := by
  unfold tag
  split
  · nofun
  · nofun
  · split <;> nofun
  · nofun
  · nofun

theorem shallow_children (t : Tree ω) : Shallow t.children := by
  unfold children
  split
  · nofun
  · nofun
  · split <;> nofun
  · nofun

theorem shallow_position (t : Tree ω) : Shallow t.position := by
  unfold position
  split <;> nofun

variable [Wording ω]

theorem shallow_text (t : Tree ω) : Shallow t.text := by
  unfold text
  split
  · split <;> nofun
  · split <;> nofun
  · split <;> nofun
  · nofun
  · nofun

theorem shallow_string {refusal : Datum → Mishap} (h : ∀ d, refusal d ≠ .tooDeep) (t : Tree ω) :
    Shallow (t.string refusal) := by
  refine t.shallow_text.bind fun w => ?_
  unfold Wording.string
  split
  · nofun
  · exact fun hm => h _ (Except.error.inj hm)

end Tree

/-! ## Elaboration -/

namespace Elab

open LedSketch.Tree

variable {α β : Type} {Q : α → Prop} {R : β → Prop} {x : Elab α} {n : Nat} {t : Tree ω}
  {ts : List (Tree ω)}

/-- **A computation that does not fail for lack of fuel**, and whose results satisfy `Q`. -/
def Sated (Q : α → Prop) (x : Elab α) : Prop :=
  ∀ e, match x.run e with
    | .ok (a, _) => Q a
    | .error f => f ≠ .mishap .tooDeep

/-- The same, whatever the result is. -/
abbrev Fed (x : Elab α) : Prop := Sated (fun _ => True) x

theorem Sated.pure {a : α} (h : Q a) : Sated Q (Pure.pure a : Elab α) := fun _ => h

theorem fed_pure (a : α) : Fed (Pure.pure a : Elab α) := Sated.pure trivial

theorem Sated.bind {f : α → Elab β} (hx : Sated Q x) (hf : ∀ a, Q a → Sated R (f a)) :
    Sated R (x >>= f) := by
  intro e
  have h := hx e
  rw [StateT.run_bind]
  cases hr : x.run e with
  | error f => rw [hr] at h; exact h
  | ok r => rw [hr] at h; exact hf r.1 h r.2

theorem Sated.imp {Q' : α → Prop} (h : Sated Q x) (hQ : ∀ a, Q a → Q' a) : Sated Q' x := by
  intro e
  have := h e
  split at this
  · exact hQ _ this
  · exact this

theorem sated_throw {f : Fault} (h : f ≠ .mishap .tooDeep) : Sated Q (throw f : Elab α) := fun _ => h

theorem sated_reading {r : Except Mishap α} (h : Shallow r) : Sated (r = .ok ·) (reading r) := by
  cases r with
  | ok a => exact Sated.pure rfl
  | error m => exact sated_throw fun hm => h (congrArg Except.error (Fault.mishap.inj hm))

theorem fed_refuse (complaint : Complaint) (t : Tree ω) : Fed (refuse complaint t : Elab α) :=
  (sated_reading t.shallow_position).bind fun _ _ => sated_throw nofun

theorem sated_element (ts : List (Tree ω)) (i : Nat) :
    Sated (ts[i]? = some ·) (element ts i) := by
  unfold element
  split
  · rename_i h
    exact Sated.pure h
  · exact sated_throw nofun

theorem sated_two (ts : List (Tree ω)) : Sated (fun q => ts = [q.1, q.2]) (two ts) := by
  unfold two
  split
  · exact Sated.pure rfl
  all_goals exact sated_throw nofun

theorem fed_numeral (s : String) : Fed (numeral s) :=
  (sated_reading (shallow_ofNumeral s)).bind fun _ _ => fed_pure _

theorem fed_checkTarget (target : Node ω) (what : String) (t : Tree ω) :
    Fed (checkTarget target what t) := by
  unfold checkTarget
  split
  · exact fed_pure _
  · exact fed_refuse _ t

theorem fed_get : Fed (get : Elab Enclosing) := fun _ => trivial

theorem fed_modify (f : Enclosing → Enclosing) : Fed (modify f : Elab PUnit) := fun _ => trivial

theorem fed_set (e : Enclosing) : Fed (set e : Elab PUnit) := fun _ => trivial

theorem fed_inLoop (h : Fed x) : Fed (inLoop x) :=
  (fed_modify _).bind fun _ _ => h.bind fun _ _ => (fed_modify _).bind fun _ _ => fed_pure _

theorem fed_inFunction {isAsync : Bool} (h : Fed x) : Fed (inFunction isAsync x) := by
  refine fed_get.bind fun e _ => (fed_modify _).bind fun _ _ => h.bind fun a _ => ?_
  refine fed_get.bind fun e _ => ?_
  split
  · exact sated_throw nofun
  · exact (fed_set _).bind fun _ _ => fed_pure _

/-- A check that may refuse a tree. -/
theorem fed_guard {c : Prop} [Decidable c] {complaint : Complaint} {f : Unit → Elab α}
    (h : Fed (f ())) : Fed (if c then refuse complaint t >>= f else f ()) := by
  split
  · exact (fed_refuse complaint t).bind fun _ _ => h
  · exact h

/-! ### How much fuel is enough -/

/-- **The fuel that each function of the elaboration needs.** -/
structure Enough (ω : Type) [Wording ω] (n : Nat) : Prop where
  within : ∀ {t : Tree ω}, t.reach ≤ n → Fed (elaborateWithin n t)
  child : ∀ {ts : List (Tree ω)} (i : Nat), reach.reaches ts < n → Fed (child n ts i)
  all : ∀ {ts : List (Tree ω)}, reach.reaches ts < n → Fed (elaborateAll n ts)
  declarators : ∀ {kind : ω} {ts : List (Tree ω)}, reach.reaches ts < n →
    Fed (declarators n kind ts)
  foldTails : ∀ {commas : Bool} {left : Node ω} {ts : List (Tree ω)}, reach.reaches ts < n →
    Fed (foldTails n commas left ts)
  unary : ∀ {ts : List (Tree ω)}, reach.reaches ts < n → Fed (unary n ts)
  accessTails : ∀ {object : Node ω} {ts : List (Tree ω)}, reach.reaches ts < n →
    Fed (accessTails n object ts)
  templateParts : ∀ {ts : List (Tree ω)}, reach.reaches ts < n → Fed (templateParts n ts)
  functionDecl : ∀ {loc : Option Loc} {ts : List (Tree ω)}, reach.reaches ts < n →
    Fed (functionDecl n loc ts)
  loopBody : ∀ {t : Tree ω}, t.reach < n → Fed (loopBody n t)
  forLoop : ∀ {loc : Option Loc} {ts : List (Tree ω)}, reach.reaches ts + 1 < n →
    Fed (forLoop n loc ts)
  forClauses : ∀ {c : Option (Node ω) × Option (Node ω) × Option (Node ω)} {ts : List (Tree ω)},
    reach.reaches ts < n → Fed (forClauses n c ts)

variable [Wording ω]

theorem enough_zero : Enough ω 0 := by
  refine ⟨fun {t} h => ?_, ?_, ?_, ?_, ?_, ?_, ?_, ?_, ?_, ?_, ?_, ?_⟩
  · cases t <;> exact absurd h (by simp [reach])
  all_goals
    intros
    rename_i h
    exact absurd h (Nat.not_lt_zero _)

variable (ih : Enough ω n)
include ih

theorem fed_child (i : Nat) (h : reach.reaches ts < n + 1) : Fed (child (n + 1) ts i) := by
  rw [child]
  refine (sated_element ts i).bind fun t ht => ih.within ?_
  have := reach_lt_of_mem (List.mem_of_getElem? ht)
  omega

theorem fed_all (h : reach.reaches ts < n + 1) : Fed (elaborateAll (n + 1) ts) := by
  cases ts with
  | nil =>
    rw [elaborateAll]
    exact fed_pure _
  | cons t ts =>
    rw [reach.reaches] at h
    rw [elaborateAll]
    refine (ih.within (by omega)).bind fun _ _ => ?_
    exact (ih.all (by omega)).bind fun _ _ => fed_pure _

theorem fed_loopBody (h : t.reach < n + 1) : Fed (loopBody (n + 1) t) := by
  rw [loopBody]
  exact fed_inLoop (ih.within (by omega))

theorem fed_declarators {kind : ω} (h : reach.reaches ts < n + 1) :
    Fed (declarators (n + 1) kind ts) := by
  cases ts with
  | nil =>
    rw [declarators]
    exact fed_pure _
  | cons t ts =>
    rw [reach.reaches] at h
    rw [declarators]
    refine (sated_reading t.shallow_children).bind fun parts hparts => ?_
    have hreach := reaches_le_of_children hparts
    extract_lets rest
    have hrest (init : Option (Node ω)) : Fed (rest init) := by
      refine fed_guard ((sated_element _ _).bind fun u _ => ?_)
      refine (sated_reading u.shallow_text).bind fun _ _ => ?_
      exact (ih.declarators (by omega)).bind fun _ _ => fed_pure _
    split
    · exact hrest none
    · rename_i e _ he
      have := reach_lt_of_mem (List.mem_of_mem_drop (he ▸ List.mem_cons_self))
      exact (ih.within (by omega)).bind fun v _ => hrest (some v)

theorem fed_foldTails {commas : Bool} {left : Node ω} (h : reach.reaches ts < n + 1) :
    Fed (foldTails (n + 1) commas left ts) := by
  cases ts with
  | nil =>
    rw [foldTails]
    exact fed_pure _
  | cons t ts =>
    rw [reach.reaches] at h
    rw [foldTails]
    refine (sated_reading t.shallow_children).bind fun parts hparts => ?_
    have hreach := reaches_le_of_children hparts
    refine (sated_reading t.shallow_tag).bind fun tag _ => ?_
    split
    · exact (ih.child 0 (by omega)).bind fun _ _ => ih.foldTails (by omega)
    · refine (sated_two parts).bind fun q hq => (sated_reading q.1.shallow_text).bind fun _ _ => ?_
      have := reach_lt_of_mem (show q.2 ∈ parts by simp [hq])
      exact (ih.within (by omega)).bind fun _ _ => ih.foldTails (by omega)

theorem fed_unary (h : reach.reaches ts < n + 1) : Fed (unary (n + 1) ts) := by
  rw [unary]
  refine (sated_two ts).bind fun q hq => (sated_reading q.1.shallow_text).bind fun word _ => ?_
  have := reach_lt_of_mem (show q.2 ∈ ts by simp [hq])
  have hoperand := ih.within (t := q.2) (by omega)
  split
  · exact fed_get.bind fun _ _ => fed_guard (hoperand.bind fun _ _ => fed_pure _)
  · refine hoperand.bind fun target _ => ?_
    split
    · exact (fed_checkTarget _ _ _).bind fun _ _ => fed_pure _
    · exact fed_pure _

theorem fed_accessTails {object : Node ω} (h : reach.reaches ts < n + 1) :
    Fed (accessTails (n + 1) object ts) := by
  cases ts with
  | nil =>
    rw [accessTails]
    exact fed_pure _
  | cons t ts =>
    rw [reach.reaches] at h
    rw [accessTails]
    have hrest {object : Node ω} : Fed (LedSketch.accessTails n object ts) :=
      ih.accessTails (by omega)
    refine (sated_reading t.shallow_children).bind fun parts hparts => ?_
    have hreach := reaches_le_of_children hparts
    refine (sated_reading t.shallow_tag).bind fun tag _ => ?_
    split
    · exact (ih.all (by omega)).bind fun _ _ => hrest
    · exact (sated_element _ _).bind fun u _ => (sated_reading u.shallow_text).bind fun _ _ => hrest
    · exact (ih.child 0 (by omega)).bind fun _ _ => hrest
    · exact hrest

theorem fed_templateParts (h : reach.reaches ts < n + 1) : Fed (templateParts (n + 1) ts) := by
  cases ts with
  | nil =>
    rw [templateParts]
    exact fed_pure _
  | cons t ts =>
    rw [reach.reaches] at h
    rw [templateParts]
    have hrest : Fed (LedSketch.templateParts n ts) := ih.templateParts (by omega)
    refine (sated_reading t.shallow_tag).bind fun tag _ => ?_
    split
    · refine (sated_reading (shallow_string (fun _ => by nofun) t)).bind fun _ _ => ?_
      exact hrest.bind fun _ _ => fed_pure _
    · refine (sated_reading t.shallow_children).bind fun parts hparts => ?_
      have hreach := reaches_le_of_children hparts
      exact (ih.child 0 (by omega)).bind fun _ _ => hrest.bind fun _ _ => fed_pure _

omit ih in
theorem shallow_texts (ts : List (Tree ω)) : Shallow (ts.mapM Tree.text) := by
  induction ts with
  | nil => exact nofun
  | cons t ts ih =>
    rw [List.mapM_cons]
    exact t.shallow_text.bind fun _ => ih.map _

theorem fed_functionDecl {loc : Option Loc} (h : reach.reaches ts < n + 1) :
    Fed (functionDecl (n + 1) loc ts) := by
  rw [functionDecl]
  refine (sated_element _ _).bind fun first _ => (sated_reading first.shallow_tag).bind fun tag _ => ?_
  have hparts : reach.reaches (if tag = "async" then ts.drop 1 else ts) < n + 1 := by
    have := reaches_drop_le 1 ts
    split <;> omega
  dsimp only
  generalize (if tag = "async" then ts.drop 1 else ts) = parts at hparts ⊢
  split
  · exact sated_throw nofun
  · exact sated_throw nofun
  · rename_i name rest _
    rw [reach.reaches] at hparts
    refine (fed_inFunction (ih.child _ (by omega))).bind fun _ _ => ?_
    refine (sated_reading name.shallow_text).bind fun _ _ => ?_
    exact (sated_reading (shallow_texts _)).bind fun _ _ => fed_pure _

theorem fed_forClauses {c : Option (Node ω) × Option (Node ω) × Option (Node ω)}
    (h : reach.reaches ts < n + 1) : Fed (forClauses (n + 1) c ts) := by
  obtain ⟨init, test, step⟩ := c
  cases ts with
  | nil =>
    rw [forClauses]
    exact fed_pure _
  | cons t ts =>
    rw [reach.reaches] at h
    rw [forClauses]
    refine (sated_reading t.shallow_children).bind fun parts hparts => ?_
    have hreach := reaches_le_of_children hparts
    refine (ih.child 0 (by omega)).bind fun _ _ => (sated_reading t.shallow_tag).bind fun tag _ => ?_
    split <;> exact ih.forClauses (by omega)

theorem fed_forLoop {loc : Option Loc} (h : reach.reaches ts + 1 < n + 1) :
    Fed (forLoop (n + 1) loc ts) := by
  rw [forLoop]
  have hclauses := reaches_dropLast_le ts
  refine (ih.forClauses (by omega)).bind fun _ _ => (sated_element _ _).bind fun t ht => ?_
  have := reach_lt_of_mem (List.mem_of_getElem? ht)
  exact (ih.loopBody (by omega)).bind fun _ _ => fed_pure _

omit ih in
theorem shallow_notCut (t : Tree ω) : Shallow (t.string notCut) := by
  refine shallow_string (fun d => ?_) t
  unfold notCut
  split <;> nofun

/-- The choice between statements: its last part is read first. -/
theorem fed_ifElse {loc : Option Loc} (h : reach.reaches ts + 3 ≤ n) : Fed (do
    let no ← match ts.drop 2 with
      | [] => pure none
      | e :: _ => do pure (some (← LedSketch.child n (← reading e.children) 0))
    let test ← LedSketch.child n ts 0
    return Node.ifElse loc test (← LedSketch.child n ts 1) no) := by
  have hrest (no : Option (Node ω)) : Fed (do
      let test ← LedSketch.child n ts 0
      return Node.ifElse loc test (← LedSketch.child n ts 1) no) :=
    (ih.child 0 (by omega)).bind fun _ _ => (ih.child 1 (by omega)).bind fun _ _ => fed_pure _
  split
  · exact hrest none
  · rename_i e _ he
    have hmem := reach_lt_of_mem (List.mem_of_mem_drop (he ▸ List.mem_cons_self))
    refine (sated_reading e.shallow_children).bind fun parts hparts => ?_
    have := reaches_le_of_children hparts
    exact (ih.child 0 (by omega)).bind fun m _ => hrest (some m)

theorem fed_assignment (h : reach.reaches ts + 3 ≤ n) : Fed (do
    let target ← LedSketch.child n ts 0
    match ts.drop 1 with
    | [] => return target
    | tail :: _ =>
      let parts ← reading tail.children
      let op ← element parts 0
      checkTarget target "assignment" op
      let word ← reading op.text
      return Node.assign (locOf op) word target (← LedSketch.child n parts 1)) := by
  refine (ih.child 0 (by omega)).bind fun target _ => ?_
  split
  · exact fed_pure _
  · rename_i tail _ ht
    have hmem := reach_lt_of_mem (List.mem_of_mem_drop (ht ▸ List.mem_cons_self))
    refine (sated_reading tail.shallow_children).bind fun parts hparts => ?_
    have := reaches_le_of_children hparts
    refine (sated_element _ _).bind fun op _ => (fed_checkTarget _ _ _).bind fun _ _ => ?_
    refine (sated_reading op.shallow_text).bind fun _ _ => ?_
    exact (ih.child 1 (by omega)).bind fun _ _ => fed_pure _

theorem fed_conditional (h : reach.reaches ts + 3 ≤ n) : Fed (do
    let test ← LedSketch.child n ts 0
    match ts.drop 1 with
    | [] => return test
    | tail :: _ =>
      let (yes, no) ← two (← reading tail.children)
      let yes ← elaborateWithin n yes
      return Node.conditional (locOf tail) test yes (← elaborateWithin n no)) := by
  refine (ih.child 0 (by omega)).bind fun target _ => ?_
  split
  · exact fed_pure _
  · rename_i tail _ ht
    have hmem := reach_lt_of_mem (List.mem_of_mem_drop (ht ▸ List.mem_cons_self))
    refine (sated_reading tail.shallow_children).bind fun parts hparts => ?_
    have hreach := reaches_le_of_children hparts
    refine (sated_two parts).bind fun q hq => ?_
    have hyes := reach_lt_of_mem (show q.1 ∈ parts by simp [hq])
    have hno := reach_lt_of_mem (show q.2 ∈ parts by simp [hq])
    exact (ih.within (by omega)).bind fun _ _ => (ih.within (by omega)).bind fun _ _ => fed_pure _

theorem fed_postfix (h : reach.reaches ts + 3 ≤ n) : Fed (do
    let target ← LedSketch.child n ts 0
    match ts.drop 1 with
    | [] => return target
    | op :: _ =>
      checkTarget target "update" op
      let word ← reading (op.string fun d => .noMember d.typeName "strip")
      let trimmed := String.ofList (Text.trim word.toList)
      return Node.update (locOf op) (Wording.ofString trimmed) false target) := by
  refine (ih.child 0 (by omega)).bind fun target _ => ?_
  split
  · exact fed_pure _
  · rename_i op _ _
    refine (fed_checkTarget _ _ _).bind fun _ _ => ?_
    exact (sated_reading (shallow_string (fun _ => by nofun) op)).bind fun _ _ => fed_pure _

/-- One more level of a tree. -/
theorem fed_within (h : t.reach ≤ n + 1) : Fed (elaborateWithin (n + 1) t) := by
  rw [elaborateWithin.eq_def]
  split
  · contradiction
  · split
    · exact (sated_reading (shallow_children _)).bind fun _ _ => sated_throw nofun
    · exact sated_throw nofun
  · exact sated_throw nofun
  · rename_i heq _ _
    obtain rfl := Nat.succ.inj heq
    refine (sated_reading (shallow_tag _)).bind fun tag _ => ?_
    refine (sated_reading (shallow_children _)).bind fun cs hcs => ?_
    have hreach : reach.reaches cs + 3 ≤ n := by
      have := reaches_le_of_children hcs
      omega
    have hlater : reach.reaches (cs.drop 1) < n := by
      have := reaches_drop_le 1 cs
      omega
    have hbody {i : Nat} {u : Tree ω} (hu : cs[i]? = some u) : Fed (LedSketch.loopBody n u) := by
      have := reach_lt_of_mem (List.mem_of_getElem? hu)
      exact ih.loopBody (by omega)
    dsimp only
    split
    · exact (fed_set _).bind fun _ _ => (ih.all (by omega)).bind fun _ _ => fed_pure _
    · exact (ih.all (by omega)).bind fun _ _ => fed_pure _
    · refine (sated_element _ _).bind fun u _ => (sated_reading u.shallow_text).bind fun _ _ => ?_
      exact (ih.declarators hlater).bind fun _ _ => fed_pure _
    · exact ih.functionDecl (by omega)
    · exact (ih.child 0 (by omega)).bind fun _ _ => fed_pure _
    · exact fed_ifElse ih hreach
    · exact ih.forLoop (by omega)
    · refine (ih.child 0 (by omega)).bind fun _ _ => (sated_element _ _).bind fun u hu => ?_
      exact (hbody hu).bind fun _ _ => fed_pure _
    · refine (sated_element _ _).bind fun u hu => (hbody hu).bind fun _ _ => ?_
      exact (ih.child 1 (by omega)).bind fun _ _ => fed_pure _
    · refine fed_get.bind fun _ _ => fed_guard ?_
      split
      · exact fed_pure _
      · rw [reach.reaches] at hreach
        exact (ih.within (by omega)).bind fun _ _ => fed_pure _
    · exact fed_get.bind fun _ _ => fed_guard (fed_pure _)
    · exact fed_get.bind fun _ _ => fed_guard (fed_pure _)
    · exact fed_pure _
    · refine (sated_reading (shallow_string (fun _ => by nofun) _)).bind fun _ _ => ?_
      exact (fed_numeral _).bind fun _ _ => fed_pure _
    · exact (sated_reading (shallow_text _)).bind fun _ _ => fed_pure _
    · exact fed_pure _
    · exact fed_pure _
    · exact (sated_reading (shallow_notCut _)).bind fun _ _ => fed_pure _
    · exact (ih.templateParts (by omega)).bind fun _ _ => fed_pure _
    · exact (sated_reading (shallow_text _)).bind fun _ _ => fed_pure _
    · exact (ih.all (by omega)).bind fun _ _ => fed_pure _
    · exact ih.child 0 (by omega)
    · exact (ih.child 0 (by omega)).bind fun _ _ => ih.foldTails hlater
    · exact (ih.child 0 (by omega)).bind fun _ _ => ih.foldTails hlater
    · exact fed_assignment ih hreach
    · exact fed_conditional ih hreach
    · exact ih.unary (by omega)
    · exact fed_postfix ih hreach
    · exact (ih.child 0 (by omega)).bind fun _ _ => ih.accessTails hlater
    · exact sated_throw nofun

omit ih in
/-- **Enough fuel is enough** for each function of the elaboration. -/
theorem enough (n : Nat) : Enough ω n := by
  induction n with
  | zero => exact enough_zero
  | succ n ih =>
    exact ⟨fed_within ih, fed_child ih, fed_all ih, fed_declarators ih, fed_foldTails ih,
      fed_unary ih, fed_accessTails ih, fed_templateParts ih, fed_functionDecl ih,
      fed_loopBody ih, fed_forLoop ih, fed_forClauses ih⟩

end Elab

/-- **No tree is too deep to be elaborated.** -/
theorem elaborate_ne_tooDeep [Wording ω] (t : Tree ω) :
    t.elaborate ≠ .error (.mishap .tooDeep) := by
  have h := (Elab.enough (ω := ω) t.reach).within (Nat.le_refl _) {}
  unfold Tree.elaborate StateT.run'
  intro he
  rw [StateT.run] at h
  cases hr : elaborateWithin t.reach t {} with
  | ok r =>
    rw [hr] at he
    cases he
  | error f =>
    rw [hr] at h he
    exact h (Except.error.inj he)

end LedSketch
