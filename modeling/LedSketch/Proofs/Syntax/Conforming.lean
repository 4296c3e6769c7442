import Mathlib.Tactic.SplitIfs
import LedSketch.Proofs.Syntax.Judging

/-!
# What elaboration returns obeys the static rules

The rules are enforced on the way down, by a stack of functions and a count of loops. Whatever tree
is elaborated, also one that no grammar builds, a node that comes out of it obeys all of them.

* `Elab.Rules`: what elaboration with some fuel makes of trees without a program in them, and `rules`
  that it does so.
* `conforms_of_elaborate`: elaboration comes to an end by itself, and the program of a tree conforms.
-/

namespace LedSketch

open HostText (Setting)

namespace Elab

open LedSketch.Tree

variable {α β ω : Type} {p : Setting} {Q : α → Prop} {R : β → Prop} {x : Elab α}
  {n : Nat} {t : Tree ω} {ts : List (Tree ω)}

/-- A computation whose results satisfy `Q`, if there are any. -/
abbrev Keeps (p : Setting) (Q : α → Prop) (x : Elab α) : Prop := Judges p (fun _ => True) Q x

theorem keeps_throw (f : Fault) : Keeps p Q (throw f : Elab α) := judges_throw trivial

theorem keeps_reading (r : Except Mishap α) : Keeps p (r = .ok ·) (reading r) :=
  judges_reading fun _ _ => trivial

theorem keeps_refuse (c : Complaint) (t : Tree ω) : Keeps p Q (refuse c t : Elab α) :=
  (keeps_reading _).bind fun _ _ => keeps_throw _

theorem keeps_element (ts : List (Tree ω)) (i : Nat) : Keeps p (ts[i]? = some ·) (element ts i) :=
  judges_element fun _ => trivial

theorem keeps_two (ts : List (Tree ω)) : Keeps p (fun q => ts = [q.1, q.2]) (two ts) := by
  unfold two
  split
  · exact Judges.pure rfl
  all_goals exact keeps_throw _

theorem keeps_numeral (s : String) : Keeps p (fun _ => True) (numeral s) :=
  (keeps_reading _).bind fun _ _ => Judges.pure trivial

theorem keeps_checkTarget (target : Node ω) (what : String) (t : Tree ω) :
    Keeps p (fun _ => target.isAssignable = true) (checkTarget target what t) :=
  judges_checkTarget fun _ => keeps_refuse _ _

/-- Behind a check it is known what the check is about. -/
theorem keeps_guard {c : Prop} [Decidable c] {complaint : Complaint} {f : Unit → Elab α}
    (hf : ¬ c → Keeps p Q (f ())) :
    Keeps p Q (if c then refuse complaint t >>= f else f ()) :=
  judges_guard (fun _ => keeps_refuse _ _) hf

/-! ## Nodes that conform -/

variable [Wording ω] {loc : Option Loc} {a b c : Node ω} {ns : List (Node ω)}

theorem conforms_leaf {m : Node ω} (hm : m.Permitted p) (hp : m.places p = []) : m.Conforms p :=
  Node.conforms_iff.mpr ⟨hm, by simp [hp]⟩

theorem conforms_one {m : Node ω} (hm : m.Permitted p) (hp : m.places p = [(p, a)])
    (ha : a.Conforms p) : m.Conforms p := by
  refine Node.conforms_iff.mpr ⟨hm, fun x hx => ?_⟩
  rw [hp] at hx
  obtain rfl := List.mem_singleton.mp hx
  exact ha

theorem conforms_two {m : Node ω} {q r : Setting} (hm : m.Permitted p)
    (hp : m.places p = [(q, a), (r, b)]) (ha : a.Conforms q) (hb : b.Conforms r) :
    m.Conforms p := by
  refine Node.conforms_iff.mpr ⟨hm, fun x hx => ?_⟩
  rw [hp] at hx
  simp only [List.mem_cons, List.not_mem_nil, or_false] at hx
  rcases hx with rfl | rfl
  · exact ha
  · exact hb

theorem conforms_all {m : Node ω} (hm : m.Permitted p) (hp : m.places p = ns.map (p, ·))
    (h : ∀ k ∈ ns, k.Conforms p) : m.Conforms p := by
  refine Node.conforms_iff.mpr ⟨hm, fun x hx => ?_⟩
  rw [hp] at hx
  obtain ⟨k, hk, rfl⟩ := List.mem_map.mp hx
  exact h k hk

/-- The node of a binary operator. -/
theorem conforms_operator {commas : Bool} {op : ω} (ha : a.Conforms p) (hb : b.Conforms p) :
    (tailNode commas loc op a b).Conforms p := by
  unfold tailNode binaryNode
  split_ifs <;> exact conforms_two trivial rfl ha hb

/-! ## Elaboration -/

/-- What elaboration with fuel `n` makes of trees without a program in them. -/
structure Rules (ω : Type) [Wording ω] (n : Nat) : Prop where
  within : ∀ {p : Setting} {t : Tree ω}, t.Inner → Keeps p (Node.Conforms p) (elaborateWithin n t)
  child : ∀ {p : Setting} {ts : List (Tree ω)} (i : Nat), (∀ t ∈ ts, t.Inner) →
    Keeps p (Node.Conforms p) (child n ts i)
  all : ∀ {p : Setting} {ts : List (Tree ω)}, (∀ t ∈ ts, t.Inner) →
    Keeps p (fun ns : List (Node ω) => ∀ m ∈ ns, m.Conforms p) (elaborateAll n ts)
  declarators : ∀ {p : Setting} {kind : ω} {ts : List (Tree ω)}, (∀ t ∈ ts, t.Inner) →
    Keeps p (fun ds : List (ω × Option (Node ω)) => (Wording.spells kind "const" → ∀ d ∈ ds, d.2 ≠ none) ∧
      ∀ d ∈ ds, ∀ m, d.2 = some m → m.Conforms p) (declarators n kind ts)
  foldTails : ∀ {p : Setting} {commas : Bool} {left : Node ω} {ts : List (Tree ω)}, left.Conforms p →
    (∀ t ∈ ts, t.Inner) → Keeps p (Node.Conforms p) (foldTails n commas left ts)
  unary : ∀ {p : Setting} {ts : List (Tree ω)}, (∀ t ∈ ts, t.Inner) →
    Keeps p (Node.Conforms p) (unary n ts)
  accessTails : ∀ {p : Setting} {object : Node ω} {ts : List (Tree ω)}, object.Conforms p →
    (∀ t ∈ ts, t.Inner) → Keeps p (Node.Conforms p) (accessTails n object ts)
  templateParts : ∀ {p : Setting} {ts : List (Tree ω)}, (∀ t ∈ ts, t.Inner) →
    Keeps p (fun ps : List (String ⊕ Node ω) => ∀ m, .inr m ∈ ps → m.Conforms p) (templateParts n ts)
  functionDecl : ∀ {p : Setting} {loc : Option Loc} {ts : List (Tree ω)}, (∀ t ∈ ts, t.Inner) →
    Keeps p (Node.Conforms p) (functionDecl n loc ts)
  loopBody : ∀ {p : Setting} {t : Tree ω}, t.Inner → Keeps p (Node.Conforms p.looped) (loopBody n t)
  forLoop : ∀ {p : Setting} {loc : Option Loc} {ts : List (Tree ω)}, (∀ t ∈ ts, t.Inner) →
    Keeps p (Node.Conforms p) (forLoop n loc ts)
  forClauses : ∀ {p : Setting} {c : Option (Node ω) × Option (Node ω) × Option (Node ω)} {ts : List (Tree ω)},
    (∀ t ∈ ts, t.Inner) →
    (∀ m ∈ c.1.toList ++ c.2.1.toList ++ c.2.2.toList, m.Conforms p) →
    Keeps p (fun d : Option (Node ω) × Option (Node ω) × Option (Node ω) =>
      ∀ m ∈ d.1.toList ++ d.2.1.toList ++ d.2.2.toList, m.Conforms p) (forClauses n c ts)

theorem rules_zero : Rules ω 0 := by
  constructor <;> intros <;> exact keeps_throw _

variable (ih : Rules ω n)
include ih

theorem rules_child (i : Nat) (h : ∀ t ∈ ts, t.Inner) :
    Keeps p (Node.Conforms p) (child (n + 1) ts i) := by
  rw [child]
  exact (keeps_element ts i).bind fun t ht => ih.within (h t (List.mem_of_getElem? ht))

theorem rules_all (h : ∀ t ∈ ts, t.Inner) :
    Keeps p (fun ns : List (Node ω) => ∀ m ∈ ns, m.Conforms p) (elaborateAll (n + 1) ts) := by
  cases ts with
  | nil =>
    rw [elaborateAll]
    exact Judges.pure (by simp)
  | cons t ts =>
    obtain ⟨ht, hts⟩ := List.forall_mem_cons.mp h
    rw [elaborateAll]
    refine (ih.within ht).bind fun m hm => (ih.all hts).bind fun ms hms => Judges.pure ?_
    exact List.forall_mem_cons.mpr ⟨hm, hms⟩

theorem rules_loopBody (h : t.Inner) : Keeps p (Node.Conforms p.looped) (loopBody (n + 1) t) := by
  rw [loopBody]
  exact judges_inLoop (ih.within h)

/-- **A constant has a value**, or its declaration is refused. -/
theorem rules_declarators {kind : ω} (h : ∀ t ∈ ts, t.Inner) :
    Keeps p (fun ds : List (ω × Option (Node ω)) => (Wording.spells kind "const" → ∀ d ∈ ds, d.2 ≠ none) ∧
      ∀ d ∈ ds, ∀ m, d.2 = some m → m.Conforms p) (declarators (n + 1) kind ts) := by
  cases ts with
  | nil =>
    rw [declarators]
    exact Judges.pure (by simp)
  | cons t ts =>
    obtain ⟨ht, hts⟩ := List.forall_mem_cons.mp h
    rw [declarators]
    refine (keeps_reading _).bind fun parts hparts => ?_
    extract_lets rest
    have hrest (init : Option (Node ω)) (hi : ∀ m, init = some m → m.Conforms p) :
        Keeps p (fun ds : List (ω × Option (Node ω)) =>
          (Wording.spells kind "const" → ∀ d ∈ ds, d.2 ≠ none) ∧ ∀ d ∈ ds, ∀ m, d.2 = some m → m.Conforms p)
          (rest init) := by
      refine keeps_guard fun hc => (keeps_element _ _).bind fun _ _ => ?_
      refine (keeps_reading _).bind fun name _ => (ih.declarators hts).bind fun ds hds => ?_
      refine Judges.pure ⟨fun hk => List.forall_mem_cons.mpr ⟨?_, hds.1 hk⟩,
        List.forall_mem_cons.mpr ⟨hi, hds.2⟩⟩
      rintro rfl
      exact hc (by simp [hk])
    split
    · exact hrest none fun _ h => by cases h
    · rename_i e _ he
      have hmem : e ∈ parts := List.mem_of_mem_drop (he ▸ List.mem_cons_self)
      refine (ih.within (ht.child hparts hmem)).bind fun v hv => hrest (some v) ?_
      rintro m ⟨⟩
      exact hv

theorem rules_foldTails {commas : Bool} {left : Node ω} (hl : left.Conforms p)
    (h : ∀ t ∈ ts, t.Inner) : Keeps p (Node.Conforms p) (foldTails (n + 1) commas left ts) := by
  cases ts with
  | nil =>
    rw [foldTails]
    exact Judges.pure hl
  | cons t ts =>
    obtain ⟨ht, hts⟩ := List.forall_mem_cons.mp h
    rw [foldTails]
    refine (keeps_reading _).bind fun parts hparts => (keeps_reading _).bind fun tag _ => ?_
    have hkids : ∀ c ∈ parts, c.Inner := fun c hc => ht.child hparts hc
    split
    · exact (ih.child 0 hkids).bind fun b hb => ih.foldTails (conforms_operator hl hb) hts
    · refine (keeps_two parts).bind fun q hq => (keeps_reading _).bind fun word _ => ?_
      refine (ih.within (hkids q.2 (by simp [hq]))).bind fun b hb => ?_
      exact ih.foldTails (conforms_operator hl hb) hts

/-- **An `await` stands in an async function**, and what is counted up or down is a target. -/
theorem rules_unary (h : ∀ t ∈ ts, t.Inner) :
    Keeps p (Node.Conforms p) (unary (n + 1) ts) := by
  rw [unary]
  refine (keeps_two ts).bind fun q hq => (keeps_reading _).bind fun word _ => ?_
  have hoperand := ih.within (p := p) (h q.2 (by simp [hq]))
  split
  · refine judges_get.bind fun e he => keeps_guard fun hc => hoperand.bind fun m hm => ?_
    refine Judges.pure (conforms_one ?_ rfl hm)
    exact he.headD_iff.mp (by simpa using hc)
  · refine hoperand.bind fun m hm => ?_
    split
    · refine (keeps_checkTarget m "update" q.1).bind fun _ ht => ?_
      exact Judges.pure (conforms_one ht rfl hm)
    · exact Judges.pure (conforms_one trivial rfl hm)

theorem rules_accessTails {object : Node ω} (ho : object.Conforms p) (h : ∀ t ∈ ts, t.Inner) :
    Keeps p (Node.Conforms p) (accessTails (n + 1) object ts) := by
  cases ts with
  | nil =>
    rw [accessTails]
    exact Judges.pure ho
  | cons t ts =>
    obtain ⟨ht, hts⟩ := List.forall_mem_cons.mp h
    rw [accessTails]
    refine (keeps_reading _).bind fun parts hparts => (keeps_reading _).bind fun tag _ => ?_
    have hkids : ∀ c ∈ parts, c.Inner := fun c hc => ht.child hparts hc
    split
    · refine (ih.all hkids).bind fun args hargs => ih.accessTails ?_ hts
      exact conforms_all trivial rfl (List.forall_mem_cons.mpr ⟨ho, hargs⟩)
    · refine (keeps_element _ _).bind fun part _ => (keeps_reading _).bind fun name _ => ?_
      exact ih.accessTails (conforms_one trivial rfl ho) hts
    · refine (ih.child 0 hkids).bind fun key hkey => ih.accessTails ?_ hts
      exact conforms_two trivial rfl ho hkey
    · exact ih.accessTails ho hts

theorem rules_templateParts (h : ∀ t ∈ ts, t.Inner) :
    Keeps p (fun ps : List (String ⊕ Node ω) => ∀ m, .inr m ∈ ps → m.Conforms p)
      (templateParts (n + 1) ts) := by
  cases ts with
  | nil =>
    rw [templateParts]
    exact Judges.pure (by simp)
  | cons t ts =>
    obtain ⟨ht, hts⟩ := List.forall_mem_cons.mp h
    rw [templateParts]
    refine (keeps_reading _).bind fun tag _ => ?_
    split
    · refine (keeps_reading _).bind fun chunk _ => (ih.templateParts hts).bind fun ps hps => ?_
      exact Judges.pure (by simpa using hps)
    · refine (keeps_reading _).bind fun parts hparts => ?_
      refine (ih.child 0 fun c hc => ht.child hparts hc).bind fun e he => ?_
      refine (ih.templateParts hts).bind fun ps hps => Judges.pure fun m hm => ?_
      rcases List.mem_cons.mp hm with hm | hm
      · cases hm
        exact he
      · exact hps m hm

/-- **The body of a function** stands in that function, and in no loop. -/
theorem rules_functionDecl {loc : Option Loc} (h : ∀ t ∈ ts, t.Inner) :
    Keeps p (Node.Conforms p) (functionDecl (n + 1) loc ts) := by
  rw [functionDecl]
  refine (keeps_element _ _).bind fun first _ => (keeps_reading _).bind fun tag _ => ?_
  have hsub : ∀ t ∈ (if tag = "async" then ts.drop 1 else ts), t.Inner := by
    intro t ht
    split at ht
    · exact h t (List.mem_of_mem_drop ht)
    · exact h t ht
  dsimp only
  generalize (if tag = "async" then ts.drop 1 else ts) = parts at hsub ⊢
  split
  · exact keeps_throw _
  · exact keeps_throw _
  · rename_i name rest _
    have hbody := ih.child (p := ⟨some (decide (tag = "async")), false⟩) (rest.length - 1)
      fun t ht => hsub t (List.mem_cons_of_mem _ ht)
    refine (judges_inFunction hbody).bind fun body hb => (keeps_reading _).bind fun word _ => ?_
    refine (keeps_reading _).bind fun params _ => Judges.pure ?_
    refine Node.conforms_iff.mpr ⟨trivial, fun x hx => ?_⟩
    obtain rfl := List.mem_singleton.mp hx
    exact hb

theorem rules_forClauses {clauses : Option (Node ω) × Option (Node ω) × Option (Node ω)}
    (h : ∀ t ∈ ts, t.Inner)
    (hc : ∀ m ∈ clauses.1.toList ++ clauses.2.1.toList ++ clauses.2.2.toList, m.Conforms p) :
    Keeps p (fun d : Option (Node ω) × Option (Node ω) × Option (Node ω) =>
      ∀ m ∈ d.1.toList ++ d.2.1.toList ++ d.2.2.toList, m.Conforms p)
      (forClauses (n + 1) clauses ts) := by
  obtain ⟨init, test, step⟩ := clauses
  cases ts with
  | nil =>
    rw [forClauses]
    exact Judges.pure hc
  | cons t ts =>
    obtain ⟨ht, hts⟩ := List.forall_mem_cons.mp h
    rw [forClauses]
    refine (keeps_reading _).bind fun parts hparts => ?_
    refine (ih.child 0 fun c hc => ht.child hparts hc).bind fun e he => ?_
    refine (keeps_reading _).bind fun tag _ => ?_
    simp only [List.mem_append, Option.mem_toList, or_imp, forall_and] at hc
    obtain ⟨⟨hinit, htest⟩, hstep⟩ := hc
    -- each clause is replaced by itself or by the new one
    have hrest {init test step : Option (Node ω)} (hinit : ∀ m ∈ init, m.Conforms p)
        (htest : ∀ m ∈ test, m.Conforms p) (hstep : ∀ m ∈ step, m.Conforms p) :=
      ih.forClauses (p := p) (c := (init, test, step)) hts (by
        simp only [List.mem_append, Option.mem_toList, or_imp, forall_and]
        exact ⟨⟨hinit, htest⟩, hstep⟩)
    have new {e : Node ω} (he : e.Conforms p) : ∀ m ∈ some e, m.Conforms p := by
      rintro m ⟨⟩
      exact he
    split
    · refine hrest (new ?_) htest hstep
      unfold asStatement
      split
      · exact he
      · exact conforms_one trivial rfl he
    · exact hrest hinit (new he) hstep
    · exact hrest hinit htest (new he)
    · exact hrest hinit htest hstep

theorem rules_forLoop {loc : Option Loc} (h : ∀ t ∈ ts, t.Inner) :
    Keeps p (Node.Conforms p) (forLoop (n + 1) loc ts) := by
  rw [forLoop]
  refine (ih.forClauses (fun t ht => h t (List.dropLast_subset ts ht)) (by simp)).bind
    fun c hc => (keeps_element _ _).bind fun t ht => ?_
  refine (ih.loopBody (h t (List.mem_of_getElem? ht))).bind fun body hb => Judges.pure ?_
  refine Node.conforms_iff.mpr ⟨trivial, fun x hx => ?_⟩
  rcases List.mem_cons.mp hx with rfl | hx
  · exact hb
  · obtain ⟨m, hm, rfl⟩ := List.mem_map.mp hx
    exact hc m hm

/-! ### One lemma for each tag of which more than the children is read -/

section

variable {cs : List (Tree ω)} {loc : Option Loc}

omit [Wording ω] ih in
/-- What is a part of a child is one of a tree without a program in it. -/
theorem inner_parts (h : ∀ c ∈ cs, c.Inner) {k : Nat} {c : Tree ω} {later : List (Tree ω)}
    (hc : cs.drop k = c :: later) {parts : List (Tree ω)} (hparts : c.children = .ok parts) :
    ∀ u ∈ parts, u.Inner :=
  fun _ hu => (h c (List.mem_of_mem_drop (hc ▸ List.mem_cons_self))).child hparts hu

theorem rules_varDecl (h : ∀ c ∈ cs, c.Inner) : Keeps p (Node.Conforms p) (do
    let kind ← reading (← element cs 0).text
    return Node.varDecl loc kind (← LedSketch.declarators n kind (cs.drop 1))) := by
  refine (keeps_element _ _).bind fun _ _ => (keeps_reading _).bind fun kind _ => ?_
  refine (ih.declarators fun c hc => h c (List.mem_of_mem_drop hc)).bind fun ds hds =>
    Judges.pure ?_
  refine Node.conforms_ordinary hds.1 rfl fun m hm => ?_
  obtain ⟨d, hd, hm⟩ := List.mem_filterMap.mp hm
  exact hds.2 d hd m hm

/-- The choice between statements: its last part is read first. -/
theorem rules_ifElse (h : ∀ c ∈ cs, c.Inner) : Keeps p (Node.Conforms p) (do
    let no ← match cs.drop 2 with
      | [] => pure none
      | e :: _ => do pure (some (← LedSketch.child n (← reading e.children) 0))
    let test ← LedSketch.child n cs 0
    return Node.ifElse loc test (← LedSketch.child n cs 1) no) := by
  have hrest {no : Option (Node ω)} (hno : ∀ m ∈ no.toList, m.Conforms p) :
      Keeps p (Node.Conforms p) (do
        let test ← LedSketch.child n cs 0
        return Node.ifElse loc test (← LedSketch.child n cs 1) no) := by
    refine (ih.child 0 h).bind fun a ha => (ih.child 1 h).bind fun b hb => Judges.pure ?_
    exact Node.conforms_ordinary trivial rfl
      (List.forall_mem_cons.mpr ⟨ha, List.forall_mem_cons.mpr ⟨hb, hno⟩⟩)
  split
  · exact hrest (by simp)
  · rename_i e _ he
    refine (keeps_reading _).bind fun parts hp => (ih.child 0 (inner_parts h he hp)).bind ?_
    exact fun m hm => hrest (by simpa using hm)

theorem rules_template (h : ∀ c ∈ cs, c.Inner) : Keeps p (Node.Conforms p) (do
    return Node.template loc (← LedSketch.templateParts n cs)) := by
  refine (ih.templateParts h).bind fun ps hps => Judges.pure ?_
  refine conforms_all trivial rfl fun m hm => ?_
  obtain ⟨part, hmem, hpart⟩ := List.mem_filterMap.mp hm
  cases part with
  | inl s => cases hpart
  | inr m =>
    cases hpart
    exact hps m hmem

/-- **What is assigned to is a target.** -/
theorem rules_assignment (h : ∀ c ∈ cs, c.Inner) : Keeps p (Node.Conforms p) (do
    let target ← LedSketch.child n cs 0
    match cs.drop 1 with
    | [] => return target
    | tail :: _ =>
      let parts ← reading tail.children
      let op ← element parts 0
      checkTarget target "assignment" op
      let word ← reading op.text
      return Node.assign (locOf op) word target (← LedSketch.child n parts 1)) := by
  refine (ih.child 0 h).bind fun target htarget => ?_
  split
  · exact Judges.pure htarget
  · rename_i tail _ ht
    refine (keeps_reading _).bind fun parts hp => (keeps_element _ _).bind fun op _ => ?_
    refine (keeps_checkTarget _ _ _).bind fun _ hassignable => (keeps_reading _).bind fun _ _ => ?_
    refine (ih.child 1 (inner_parts h ht hp)).bind fun v hv => Judges.pure ?_
    exact conforms_two hassignable rfl htarget hv

theorem rules_conditional (h : ∀ c ∈ cs, c.Inner) : Keeps p (Node.Conforms p) (do
    let test ← LedSketch.child n cs 0
    match cs.drop 1 with
    | [] => return test
    | tail :: _ =>
      let (yes, no) ← two (← reading tail.children)
      let yes ← elaborateWithin n yes
      return Node.conditional (locOf tail) test yes (← elaborateWithin n no)) := by
  refine (ih.child 0 h).bind fun test htest => ?_
  split
  · exact Judges.pure htest
  · rename_i tail _ ht
    refine (keeps_reading _).bind fun parts hp => (keeps_two parts).bind fun q hq => ?_
    have hparts := inner_parts h ht hp
    refine (ih.within (hparts q.1 (by simp [hq]))).bind fun yes hyes => ?_
    refine (ih.within (hparts q.2 (by simp [hq]))).bind fun no hno => Judges.pure ?_
    refine conforms_all trivial (show _ = [test, yes, no].map (p, ·) from rfl) ?_
    simpa using ⟨htest, hyes, hno⟩

theorem rules_postfix (h : ∀ c ∈ cs, c.Inner) : Keeps p (Node.Conforms p) (do
    let target ← LedSketch.child n cs 0
    match cs.drop 1 with
    | [] => return target
    | op :: _ =>
      checkTarget target "update" op
      let word ← reading (op.string fun d => .noMember d.typeName "strip")
      let trimmed := String.ofList (Text.trim word.toList)
      return Node.update (locOf op) (Wording.ofString trimmed) false target) := by
  refine (ih.child 0 h).bind fun target htarget => ?_
  split
  · exact Judges.pure htarget
  · refine (keeps_checkTarget _ _ _).bind fun _ hassignable => (keeps_reading _).bind fun _ _ => ?_
    exact Judges.pure (conforms_one hassignable rfl htarget)

end

/-- One more level of a tree without a program in it. -/
theorem rules_within (h : t.Inner) : Keeps p (Node.Conforms p) (elaborateWithin (n + 1) t) := by
  rw [elaborateWithin.eq_def]
  split
  · contradiction
  · split
    · exact (keeps_reading _).bind fun _ _ => keeps_throw _
    · exact keeps_throw _
  · exact keeps_throw _
  · rename_i heq _ _
    obtain rfl := Nat.succ.inj heq
    refine (keeps_reading _).bind fun tag htag => (keeps_reading _).bind fun cs hcs => ?_
    have hkids : ∀ c ∈ cs, c.Inner := fun c hc => h.child hcs hc
    have hlater : ∀ c ∈ cs.drop 1, c.Inner := fun c hc => hkids c (List.mem_of_mem_drop hc)
    have hchild := fun i => ih.child (p := p) i hkids
    have hbody {i : Nat} {t : Tree ω} (ht : cs[i]? = some t) :=
      ih.loopBody (p := p) (hkids t (List.mem_of_getElem? ht))
    dsimp only
    split
    · exact absurd htag h.tag
    · exact (ih.all hkids).bind fun ns hns => Judges.pure (conforms_all trivial rfl hns)
    · exact rules_varDecl ih hkids
    · exact ih.functionDecl hkids
    · exact (hchild 0).bind fun m hm => Judges.pure (conforms_one trivial rfl hm)
    · exact rules_ifElse ih hkids
    · exact ih.forLoop hkids
    · refine (hchild 0).bind fun a ha => (keeps_element _ _).bind fun t ht => ?_
      exact (hbody ht).bind fun b hb => Judges.pure (conforms_two trivial rfl ha hb)
    · refine (keeps_element _ _).bind fun t ht => (hbody ht).bind fun b hb => ?_
      exact (hchild 1).bind fun a ha => Judges.pure (conforms_two trivial rfl ha hb)
    · refine judges_get.bind fun e he => keeps_guard fun hc => ?_
      have hf : p.function ≠ none := fun hp => hc (he.isEmpty_iff.mpr hp)
      split
      · exact Judges.pure (conforms_leaf hf rfl)
      · exact (ih.within (hkids _ List.mem_cons_self)).bind fun m hm =>
          Judges.pure (conforms_one hf rfl hm)
    · refine judges_get.bind fun e he => keeps_guard fun hc => ?_
      have hl : p.looping = true := by simpa [he.loops_eq_zero_iff] using hc
      exact Judges.pure (conforms_leaf hl rfl)
    · refine judges_get.bind fun e he => keeps_guard fun hc => ?_
      have hl : p.looping = true := by simpa [he.loops_eq_zero_iff] using hc
      exact Judges.pure (conforms_leaf hl rfl)
    · exact Judges.pure (conforms_leaf trivial rfl)
    · exact (keeps_reading _).bind fun _ _ => (keeps_numeral _).bind fun _ _ =>
        Judges.pure (conforms_leaf trivial rfl)
    · exact (keeps_reading _).bind fun _ _ => Judges.pure (conforms_leaf trivial rfl)
    · exact Judges.pure (conforms_leaf trivial rfl)
    · exact Judges.pure (conforms_leaf trivial rfl)
    · exact (keeps_reading _).bind fun _ _ => Judges.pure (conforms_leaf trivial rfl)
    · exact rules_template ih hkids
    · exact (keeps_reading _).bind fun _ _ => Judges.pure (conforms_leaf trivial rfl)
    · exact (ih.all hkids).bind fun ns hns => Judges.pure (conforms_all trivial rfl hns)
    · exact hchild 0
    · exact (hchild 0).bind fun m hm => ih.foldTails hm hlater
    · exact (hchild 0).bind fun m hm => ih.foldTails hm hlater
    · exact rules_assignment ih hkids
    · exact rules_conditional ih hkids
    · exact ih.unary hkids
    · exact rules_postfix ih hkids
    · exact (hchild 0).bind fun m hm => ih.accessTails hm hlater
    · exact keeps_throw _

omit ih in
/-- **Elaboration enforces the static rules.** -/
theorem rules (n : Nat) : Rules ω n := by
  induction n with
  | zero => exact rules_zero
  | succ n ih =>
    exact ⟨rules_within ih, rules_child ih, rules_all ih, rules_declarators ih, rules_foldTails ih,
      rules_unary ih, rules_accessTails ih, rules_templateParts ih, rules_functionDecl ih,
      rules_loopBody ih, rules_forLoop ih, rules_forClauses ih⟩

omit ih in
/-- What the root of a program becomes. -/
theorem elaborateWithin_program {cs : List (Tree ω)} (htag : t.tag = .ok "program")
    (hcs : t.children = .ok cs) (ht : ∀ d us, t ≠ .foreign d us) :
    elaborateWithin (n + 1) t = (do
      set ({} : Enclosing)
      return .program (locOf t) (← elaborateAll n cs)) := by
  cases t with
  | foreign d us => exact absurd rfl (ht d us)
  | leaf m =>
    rw [elaborateWithin.eq_def]
    simp only [htag, hcs, reading_ok, pure_bind]
  | node m ts =>
    rw [elaborateWithin.eq_def]
    simp only [htag, hcs, reading_ok, pure_bind]

omit ih in
theorem keeps_foreign {Q : Node ω → Prop} (d : Datum) :
    Keeps p Q (elaborateWithin n (.foreign d ts)) := by
  cases n with
  | zero => exact keeps_throw _
  | succ n =>
    cases d
    case map =>
      rw [elaborateWithin]
      split
      · exact (keeps_reading _).bind fun _ _ => keeps_throw _
      · exact keeps_throw _
    all_goals exact keeps_throw _

omit ih in
/-- A computation from the start keeps its promise. -/
theorem Judges.start {V : Fault → Prop} {a : α} {e : Enclosing} (h : Judges ⟨none, false⟩ V Q x)
    (hr : x.run {} = .ok (a, e)) : Q a := by
  have := h {} ⟨⟨rfl, Int.le_refl 0, nofun⟩, fun _ => rfl⟩
  rw [hr] at this
  exact this.1

omit ih in
/-- **The root** may be a program, and is then elaborated from the start. -/
theorem rules_root {m : Node ω} {e : Enclosing} (h : t.Rooted)
    (hr : (elaborateWithin n t).run {} = .ok (m, e)) : m.Conforms ⟨none, false⟩ := by
  by_cases hforeign : ∃ d us, t = .foreign d us
  · obtain ⟨d, us, rfl⟩ := hforeign
    exact (keeps_foreign d).start hr
  by_cases htag : t.tag = .ok "program"
  · cases n with
    | zero => cases hr
    | succ n =>
      obtain ⟨cs, hcs⟩ : ∃ cs, t.children = .ok cs := by
        cases t with
        | leaf m => exact ⟨_, rfl⟩
        | node m ts => exact ⟨_, rfl⟩
        | foreign d us => exact absurd ⟨d, us, rfl⟩ hforeign
      rw [elaborateWithin_program htag hcs fun d us hd => hforeign ⟨d, us, hd⟩] at hr
      have hbody : Keeps ⟨none, false⟩ (Node.Conforms ⟨none, false⟩) (do
          return Node.program (locOf t) (← elaborateAll n cs)) :=
        ((rules n).all (h cs hcs)).bind fun ns hns => Judges.pure (conforms_all trivial rfl hns)
      exact hbody.start hr
  · refine ((rules n).within fun u hu => ?_).start hr
    cases hu with
    | refl => exact htag
    | step hcs hc hu => exact h _ hcs _ hc _ hu

end Elab

/-- **Whatever elaboration returns obeys all static rules**, also if no grammar builds the tree, as
long as a program occurs only as its root; and it always comes to an end by itself. -/
theorem conforms_of_elaborate {ω : Type} [Wording ω] (t : Tree ω) :
    t.elaborate ≠ .error (.mishap .tooDeep) ∧
      (t.Rooted → ∀ n, t.elaborate = .ok n → n.Conforms ⟨none, false⟩) := by
  refine ⟨elaborate_ne_tooDeep t, fun ht n h => ?_⟩
  unfold Tree.elaborate StateT.run' at h
  cases hr : elaborateWithin t.reach t {} with
  | error f =>
    rw [hr] at h
    cases h
  | ok r =>
    rw [hr] at h
    cases h
    exact Elab.rules_root ht hr

/-- A tree from outside: an async function whose name is a number, with a loop that waits and is
left, and with a declarator that has no tag and is nested deeply. -/
theorem conforms_untagged :
    let part (tag : String) (text : Datum) (children : List Datum) : Datum :=
      .map [(.str "tag", .str tag), (.str "text", text), (.str "children", .list children)]
    let name (text : Datum) : Datum := part "name" text []
    let grouped : Datum := (List.range 6).foldl (fun d _ => part "group" .null [d]) (name (.str "x"))
    let body : Datum := part "block" .null [
      part "expr-stmt" .null [part "unary" .null [part "op" (.str "await") [], name (.str "x")]],
      part "var-decl" .null [part "var-kind" (.str "const") [],
        .map [(.str "children", .list [name (.bool true), grouped])]],
      part "break" .null []]
    let five : Datum := .num (.int 5)
    let t : Tree Datum := .ofDatum <| part "program" .null [part "function-decl" .null [
      part "async" .null [], name five, part "while" .null [name (.str "on"), body]]]
    let n : Node Datum := .program none [.functionDecl none five []
      (.whileLoop none (.identifier none (.str "on")) (.block none [
        .exprStmt none (.await none (.identifier none (.str "x"))),
        .varDecl none (.str "const") [(.bool true, some (.identifier none (.str "x")))],
        .breakStmt none])) true]
    t.Rooted ∧ t.elaborate = .ok n ∧ n.Conforms ⟨none, false⟩ := by
  intro part name grouped body five t n
  -- the parts of a node are those of its datum, spliced
  have hpart {tag : String} {text : Datum} {ds : List Datum} (htag : tag ≠ "program")
      (h : ∀ c ∈ Tree.spliced ds, c.Inner) : (Tree.ofDatum (part tag text ds)).Inner :=
    Tree.inner_node htag h
  have hleaf {tag : String} {text : Datum} (htag : tag ≠ "program") :
      (Tree.ofDatum (part tag text [])).Inner := hpart htag nofun
  have hgrouped : (Tree.ofDatum grouped).Inner := by
    iterate 6 refine hpart (by decide) (List.forall_mem_singleton.mpr ?_)
    exact hleaf (by decide)
  have hbody : (Tree.ofDatum body).Inner := by
    refine hpart (by decide) (List.forall_mem_cons.mpr ⟨?_, List.forall_mem_cons.mpr ⟨?_,
      List.forall_mem_singleton.mpr (hleaf (by decide))⟩⟩)
    · refine hpart (by decide) (List.forall_mem_singleton.mpr (hpart (by decide) ?_))
      exact List.forall_mem_cons.mpr ⟨hleaf (by decide),
        List.forall_mem_singleton.mpr (hleaf (by decide))⟩
    · refine hpart (by decide) (List.forall_mem_cons.mpr ⟨hleaf (by decide), ?_⟩)
      refine List.forall_mem_singleton.mpr (Tree.inner_of_parts nofun ?_)
      rintro cs ⟨⟩
      exact List.forall_mem_cons.mpr ⟨hleaf (by decide), List.forall_mem_singleton.mpr hgrouped⟩
  have ht : t.Rooted := by
    rintro cs ⟨⟩
    refine List.forall_mem_singleton.mpr (hpart (by decide) ?_)
    refine List.forall_mem_cons.mpr ⟨hleaf (by decide), List.forall_mem_cons.mpr
      ⟨hleaf (by decide), List.forall_mem_singleton.mpr (hpart (by decide) ?_)⟩⟩
    exact List.forall_mem_cons.mpr ⟨hleaf (by decide), List.forall_mem_singleton.mpr hbody⟩
  have hn : t.elaborate = .ok n := rfl
  exact ⟨ht, hn, (conforms_of_elaborate t).2 ht n hn⟩

end LedSketch
