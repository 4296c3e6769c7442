import Mathlib.Data.List.Forall2
import LedSketch.Proofs.Grammar.Shapes

/-!
# What an expression reads of a text

`Reads p cs ds Ps` says that wherever `cs` is left of a source, the parsing expression `p` takes it
up to `ds` and builds trees that satisfy `Ps` one by one; `Refuses p cs` that it takes nothing.
Both speak of all runs with enough fuel, so that the readings of the parts of an expression make up
its own: there is one lemma for each way to build an expression, and for each outcome.

* `Reads`, `Refuses`: what an expression does at the start of a text.
* `Tree.Tagged`, `Tree.Spells`: the trees of nodes and leaves.
-/

namespace LedSketch

namespace Tree

/-- The trees satisfy the predicates one by one. -/
def Meet (Ps : List (Tree → Prop)) (ts : List Tree) : Prop := List.Forall₂ (fun P t => P t) Ps ts

/-- A node of some tag whose children satisfy the predicates one by one. -/
def Tagged (tag : String) (Ps : List (Tree → Prop)) (t : Tree) : Prop :=
  ∃ m ts, t = node m ts ∧ m.tag = tag ∧ Meet Ps ts

/-- A leaf of some tag with some text. -/
def Spells (tag : String) (cs : List Char) (t : Tree) : Prop :=
  ∃ m, t = leaf m ∧ m.tag = tag ∧ m.text = some (String.ofList cs)

variable {P Q : Tree → Prop} {Ps Qs : List (Tree → Prop)} {t : Tree} {ts us : List Tree}

theorem meet_nil : Meet [] [] := .nil

theorem meet_one (h : P t) : Meet [P] [t] := .cons h .nil

theorem Meet.append (h : Meet Ps ts) (h' : Meet Qs us) : Meet (Ps ++ Qs) (ts ++ us) :=
  List.rel_append h h'

theorem Meet.none (h : Meet [] ts) : ts = [] := List.forall₂_nil_left_iff.mp h

theorem Meet.uncons (h : Meet (P :: Ps) ts) : ∃ t us, ts = t :: us ∧ P t ∧ Meet Ps us := by
  obtain ⟨t, us, ht, hus, rfl⟩ := List.forall₂_cons_left_iff.mp h
  exact ⟨t, us, rfl, ht, hus⟩

theorem Meet.one (h : Meet [P] ts) : ∃ t, ts = [t] ∧ P t := by
  obtain ⟨t, _, rfl, ht, h⟩ := h.uncons
  obtain rfl := h.none
  exact ⟨t, rfl, ht⟩

theorem Meet.two (h : Meet [P, Q] ts) : ∃ t u, ts = [t, u] ∧ P t ∧ Q u := by
  obtain ⟨t, _, rfl, ht, h⟩ := h.uncons
  obtain ⟨u, rfl, hu⟩ := h.one
  exact ⟨t, u, rfl, ht, hu⟩

theorem Meet.split (h : Meet (Ps ++ Qs) ts) :
    ∃ us vs, ts = us ++ vs ∧ Meet Ps us ∧ Meet Qs vs := by
  induction Ps generalizing ts with
  | nil => exact ⟨[], ts, rfl, .nil, h⟩
  | cons P Ps ih =>
    obtain ⟨t, _, rfl, ht, h⟩ := Meet.uncons h
    obtain ⟨us, vs, rfl, hus, hvs⟩ := ih h
    exact ⟨t :: us, vs, rfl, .cons ht hus, hvs⟩

end Tree

namespace Grammar

open LedSketch.Tree

variable {p : Peg Rule} {ps : List (Peg Rule)} {cs ds es : List Char} {P Q : Tree → Prop}
  {Ps Qs : List (Tree → Prop)} {tag : String} {m : Lexeme} {name : Rule}

/-- What all runs with enough fuel come to. -/
def ComesTo (p : Peg Rule) (c : Cursor) (o : Outcome) : Prop :=
  ∃ n, ∀ k, n ≤ k → run hostForm k p c = o

/-- **An expression takes a text** up to `ds`, and builds trees that satisfy `Ps`. -/
def Reads (p : Peg Rule) (cs ds : List Char) (Ps : List (Tree → Prop)) : Prop :=
  ∀ c, c.rest = cs → ∃ ts k, ComesTo p c (.got ts (c.advance k)) ∧ cs.drop k = ds ∧ Meet Ps ts

/-- **An expression refuses a text.** -/
def Refuses (p : Peg Rule) (cs : List Char) : Prop := ∀ c, c.rest = cs → ComesTo p c .refused

theorem ComesTo.of_succ {o : Outcome} {c : Cursor} (n : Nat)
    (h : ∀ k, n ≤ k → run hostForm (k + 1) p c = o) : ComesTo p c o := by
  refine ⟨n + 1, fun k hk => ?_⟩
  cases k with
  | zero => omega
  | succ k => exact h k (by omega)

/-- A run of an expression leads to runs of its only part. -/
theorem ComesTo.of_step {q : Peg Rule} {c : Cursor} {o o' : Outcome} (h : ComesTo p c o)
    (hs : ∀ k, run hostForm k p c = o → run hostForm (k + 1) q c = o') : ComesTo q c o' := by
  obtain ⟨n, hn⟩ := h
  exact .of_succ n fun k hk => hs k (hn k hk)

/-- A run of an expression leads to runs of two of its parts. -/
theorem ComesTo.of_steps {p' q : Peg Rule} {c d : Cursor} {o o' o'' : Outcome} (h : ComesTo p c o)
    (h' : ComesTo p' d o')
    (hs : ∀ k, (∀ j, k ≤ j → run hostForm j p c = o) →
      (∀ j, k ≤ j → run hostForm j p' d = o') → run hostForm (k + 2) q c = o'') :
    ComesTo q c o'' := by
  obtain ⟨n, hn⟩ := h
  obtain ⟨n', hn'⟩ := h'
  refine ⟨n + n' + 2, fun k hk => ?_⟩
  match k with
  | 0 | 1 => omega
  | k + 2 => exact hs k (fun j hj => hn j (by omega)) fun j hj => hn' j (by omega)

/-! ## Lexemes -/

theorem reads_token {k : Nat} (h : m cs = some k) : Reads (.token m) cs (cs.drop k) [] := by
  rintro c rfl
  exact ⟨[], k, .of_succ 0 fun n _ => by rw [run, h], rfl, meet_nil⟩

/-- A lexeme that takes the text in front of `ds`. -/
theorem reads_lexeme (h : m (cs ++ ds) = some cs.length) : Reads (.token m) (cs ++ ds) ds [] := by
  have := reads_token h
  rwa [List.drop_left] at this

theorem refuses_token (h : m cs = none) : Refuses (.token m) cs := by
  rintro c rfl
  exact .of_succ 0 fun n _ => by rw [run, h]

/-! ## Marked expressions -/

theorem Reads.drop (h : Reads p cs ds Ps) : Reads (.drop p) cs ds [] := by
  intro c hc
  obtain ⟨ts, k, hrun, hk, -⟩ := h c hc
  exact ⟨[], k, hrun.of_step fun n hn => by rw [run, hn]; rfl, hk, meet_nil⟩

theorem Reads.node (h : Reads p cs ds Ps) (tag : String) :
    Reads (.node tag p) cs ds [Tagged tag Ps] := by
  intro c hc
  obtain ⟨ts, k, hrun, hk, hm⟩ := h c hc
  exact ⟨[.node (c.mark (c.advance k) tag) ts], k,
    hrun.of_step fun n hn => by rw [run, hn]; rfl, hk, meet_one ⟨_, _, rfl, rfl, hm⟩⟩

theorem Reads.leaf (h : Reads p (cs ++ ds) ds Ps) (tag : String) :
    Reads (.leaf tag p) (cs ++ ds) ds [Spells tag cs] := by
  intro c hc
  obtain ⟨ts, k, hrun, hk, -⟩ := h c hc
  refine ⟨[.leaf (c.mark (c.advance k) tag)], k,
    hrun.of_step fun n hn => by rw [run, hn]; rfl, hk, meet_one ⟨_, rfl, rfl, ?_⟩⟩
  have htake : c.rest.take k = cs := by
    have hsplit := List.take_append_drop k (cs ++ ds)
    rw [hk] at hsplit
    rw [hc]
    exact List.append_cancel_right hsplit
  rw [Cursor.mark, upTo_advance, htake]

theorem Reads.rule (h : Reads (hostForm name) cs ds Ps) : Reads (.rule name) cs ds Ps := by
  intro c hc
  obtain ⟨ts, k, hrun, hk, hm⟩ := h c hc
  exact ⟨ts, k, hrun.of_step fun n hn => by rw [run, hn], hk, hm⟩

theorem Refuses.drop (h : Refuses p cs) : Refuses (.drop p) cs := fun c hc =>
  (h c hc).of_step fun n hn => by rw [run, hn]; rfl

theorem Refuses.node (h : Refuses p cs) (tag : String) : Refuses (.node tag p) cs := fun c hc =>
  (h c hc).of_step fun n hn => by rw [run, hn]; rfl

theorem Refuses.leaf (h : Refuses p cs) (tag : String) : Refuses (.leaf tag p) cs := fun c hc =>
  (h c hc).of_step fun n hn => by rw [run, hn]; rfl

theorem Refuses.rule (h : Refuses (hostForm name) cs) : Refuses (.rule name) cs := fun c hc =>
  (h c hc).of_step fun n hn => by rw [run, hn]

/-- Trees may be known for less. -/
theorem Reads.mono (h : Reads p cs ds [P]) (hPQ : ∀ t, P t → Q t) : Reads p cs ds [Q] := by
  intro c hc
  obtain ⟨ts, k, hrun, hk, hm⟩ := h c hc
  obtain ⟨t, rfl, ht⟩ := hm.one
  exact ⟨[t], k, hrun, hk, meet_one (hPQ t ht)⟩

/-! ## Sequences -/

theorem reads_nil (cs : List Char) : Reads (.seq []) cs cs [] := by
  rintro c rfl
  refine ⟨[], 0, .of_succ 1 fun n hn => ?_, rfl, meet_nil⟩
  cases n with
  | zero => omega
  | succ n => rw [run, runSeq, Cursor.advance_zero]

theorem Reads.cons (h : Reads p cs ds Ps) (h' : Reads (.seq ps) ds es Qs) :
    Reads (.seq (p :: ps)) cs es (Ps ++ Qs) := by
  rintro c rfl
  obtain ⟨ts, k, hrun, rfl, hm⟩ := h c rfl
  obtain ⟨us, l, hrun', rfl, hm'⟩ := h' (c.advance k) (rest_advance k c)
  refine ⟨ts ++ us, k + l, hrun.of_steps hrun' fun n hn hn' => ?_, by rw [List.drop_drop],
    hm.append hm'⟩
  have hrest := hn' (n + 1) (by omega)
  rw [run] at hrest ⊢
  rw [runSeq, hn n le_rfl, Outcome.andThen, hrest, Cursor.advance_add]

theorem Refuses.first (h : Refuses p cs) (ps : List (Peg Rule)) : Refuses (.seq (p :: ps)) cs := by
  intro c hc
  obtain ⟨n, hn⟩ := h c hc
  refine .of_succ (n + 1) fun k hk => ?_
  cases k with
  | zero => omega
  | succ k => rw [run, runSeq, hn k (by omega)]; rfl

theorem Reads.refuses (h : Reads p cs ds Ps) (h' : Refuses (.seq ps) ds) :
    Refuses (.seq (p :: ps)) cs := by
  rintro c rfl
  obtain ⟨ts, k, hrun, rfl, -⟩ := h c rfl
  refine hrun.of_steps (h' (c.advance k) (rest_advance k c)) fun n hn hn' => ?_
  have hrest := hn' (n + 1) (by omega)
  rw [run] at hrest ⊢
  rw [runSeq, hn n le_rfl, Outcome.andThen, hrest]

/-! ## Choices -/

theorem refuses_nil (cs : List Char) : Refuses (.choice []) cs := by
  intro c _
  refine .of_succ 1 fun n hn => ?_
  cases n with
  | zero => omega
  | succ n => rw [run, runChoice]

/-- The first alternative fits. -/
theorem Reads.here (h : Reads p cs ds Ps) (ps : List (Peg Rule)) :
    Reads (.choice (p :: ps)) cs ds Ps := by
  intro c hc
  obtain ⟨ts, k, ⟨n, hn⟩, hk, hm⟩ := h c hc
  refine ⟨ts, k, .of_succ (n + 1) fun j hj => ?_, hk, hm⟩
  cases j with
  | zero => omega
  | succ j => rw [run, runChoice, hn j (by omega)]

/-- A later alternative fits. -/
theorem Refuses.reads (h : Refuses p cs) (h' : Reads (.choice ps) cs ds Ps) :
    Reads (.choice (p :: ps)) cs ds Ps := by
  intro c hc
  obtain ⟨ts, k, hrun, hk, hm⟩ := h' c hc
  refine ⟨ts, k, (h c hc).of_steps hrun fun n hn hn' => ?_, hk, hm⟩
  have hrest := hn' (n + 1) (by omega)
  rw [run] at hrest ⊢
  rw [runChoice, hn n le_rfl]
  exact hrest

theorem Refuses.cons (h : Refuses p cs) (h' : Refuses (.choice ps) cs) :
    Refuses (.choice (p :: ps)) cs := by
  intro c hc
  refine (h c hc).of_steps (h' c hc) fun n hn hn' => ?_
  have hrest := hn' (n + 1) (by omega)
  rw [run] at hrest ⊢
  rw [runChoice, hn n le_rfl]
  exact hrest

/-- No alternative fits. -/
theorem refuses_choice (h : ∀ p ∈ ps, Refuses p cs) : Refuses (.choice ps) cs := by
  induction ps with
  | nil => exact refuses_nil cs
  | cons p ps ih =>
    exact (h p List.mem_cons_self).cons (ih fun q hq => h q (List.mem_cons_of_mem p hq))

/-- An alternative fits, and those before it do not. -/
theorem Reads.among (h : Reads p cs ds Ps) (before after : List (Peg Rule))
    (hb : ∀ q ∈ before, Refuses q cs) : Reads (.choice (before ++ p :: after)) cs ds Ps := by
  induction before with
  | nil => exact h.here after
  | cons q before ih =>
    exact (hb q List.mem_cons_self).reads (ih fun r hr => hb r (List.mem_cons_of_mem q hr))

/-! ## Repetitions and options -/

/-- Nothing more is taken. -/
theorem Refuses.many (h : Refuses p cs) : Reads (.many p) cs cs [] := by
  rintro c rfl
  exact ⟨[], 0, (h c rfl).of_step fun n hn => by rw [run, hn, Cursor.advance_zero], rfl, meet_nil⟩

/-- Once more is taken. -/
theorem Reads.many (h : Reads p cs ds Ps) (h' : Reads (.many p) ds es Qs) :
    Reads (.many p) cs es (Ps ++ Qs) := by
  rintro c rfl
  obtain ⟨ts, k, hrun, rfl, hm⟩ := h c rfl
  obtain ⟨us, l, hrun', rfl, hm'⟩ := h' (c.advance k) (rest_advance k c)
  refine ⟨ts ++ us, k + l, hrun.of_steps hrun' fun n hn hn' => ?_, by rw [List.drop_drop],
    hm.append hm'⟩
  rw [run, hn (n + 1) (by omega)]
  dsimp only
  rw [hn' (n + 1) (by omega), Outcome.build, Cursor.advance_add]

theorem Refuses.optional (h : Refuses p cs) : Reads (.optional p) cs cs [] := by
  rintro c rfl
  exact ⟨[], 0, (h c rfl).of_step fun n hn => by rw [run, hn, Cursor.advance_zero], rfl, meet_nil⟩

theorem Reads.optional (h : Reads p cs ds Ps) : Reads (.optional p) cs ds Ps := by
  intro c hc
  obtain ⟨ts, k, hrun, hk, hm⟩ := h c hc
  exact ⟨ts, k, hrun.of_step fun n hn => by rw [run, hn], hk, hm⟩

end Grammar
end LedSketch
