import LedSketch.Proofs.Syntax.Precedence
import LedSketch.Proofs.Syntax.RoundTrip

/-!
# Chains of operators are read by precedence

Each level of the grammar takes its own operators between operands of the next tighter level. Read
from the tightest level up, this is precedence climbing: what a level is left with behind an operand
is what climbing at tighter operators leaves, and its repetition is the loop of climbing.

* `Chained`: a rule that reads chains as climbing does from some binding on.
* `reads_tails`, `chained_level`: one level, from the next tighter one.
* `chained_binary`: all levels.
* `readHostForm_chain`: a chain as a program.
-/

namespace LedSketch.HostText

open Text Scan Scanner Dialect Grammar Lexeme LedSketch.Tree

variable {cs ds : List Char} {p : Setting} {least : Nat} {l : Level} {k : Link}
  {ks links : List Link} {name : String}

/-- The text of further operands, with single spaces. -/
def linksText (links : List Link) : List Char :=
  links.flatMap fun k => ' ' :: (k.op.toList ++ ' ' :: k.name.toList)

/-- The text of a chain. -/
def chainText (name : String) (links : List Link) : List Char := name.toList ++ linksText links

/-! ## What follows an operand -/

theorem linksText_cons (k : Link) (ks : List Link) (ds : List Char) :
    linksText (k :: ks) ++ ds =
      ' ' :: (k.op.toList ++ ' ' :: (k.name.toList ++ (linksText ks ++ ds))) := by
  simp [linksText]

/-- Behind an operand nothing goes on that binds tighter than what comes next. -/
theorem still_links (h : ∀ k ∈ links, k.Valid) (hd : Ends ds) {height : Nat} (hten : height ≤ 10)
    (hb : ∀ k ∈ links.head?, binding k.op + height ≤ 9) : Still height (linksText links ++ ds) := by
  cases links with
  | nil => exact hd.final.unassigned.unasked.still.mono hten
  | cons k ks =>
    obtain ⟨l, hl⟩ := (h k List.mem_cons_self).spelled
    have hbinding := binding_spelled hl
    have hk := hb k rfl
    rw [linksText_cons]
    exact (operator_spelled hl _).2.2.mono (by omega)

theorem stopsRun_links (links : List Link) (hd : Ends ds) :
    StopsRun isNameChar (linksText links ++ ds) := by
  cases links with
  | nil => exact hd.closing.stopsRun
  | cons k ks =>
    rw [linksText_cons]
    exact stopsRun_space _

/-! ## Levels -/

/-- **A rule that reads chains** as climbing does at operators that bind at least as tightly as
`least`, up to what climbing leaves. -/
def Chained (p : Setting) (q : Peg Rule) (least : Nat) : Prop :=
  ∀ (name : String) (links : List Link) (ds : List Char), IsIdentifier name →
    (∀ k ∈ links, k.Valid) → Ends ds →
    Reads q (name.toList ++ (linksText links ++ ds))
      (linksText (climb least (.identifier none name) links).rest ++ ds)
      [Means p (climb least (.identifier none name) links).tree]

theorem Climbed.valid (c : Climbed links) (h : ∀ k ∈ links, k.Valid) : ∀ k ∈ c.rest, k.Valid :=
  fun k hk => h k (c.suffix.subset hk)

/-- Above all levels, an operand stands alone. -/
theorem chained_unary : Chained p (.rule .unary) 10 := by
  intro name links ds hn h hd
  obtain ⟨htree, hrest⟩ := climb_ten h (.identifier none name)
  rw [htree, hrest]
  refine (target_identifier hn).unary (still_links h hd (Nat.zero_le _) fun k hk => ?_)
    (stopsRun_links links hd)
  obtain ⟨l, hl⟩ := (h k (List.mem_of_mem_head? hk)).spelled
  have := binding_spelled hl
  omega

/-- A further operand of a level. -/
def tail (l : Level) : Peg Rule :=
  .node "binary-tail" (.seq [blank, op l.operator, blank, operand l])

theorem refuses_tail (h : l.operator (behindGap cs) = none) : Refuses (tail l) cs :=
  (refuses_spaced (refuses_op h) _).node _

section

variable (hleast : least + l.height = 9) (hl : Chained p (operand l) (least + 1))
include hleast hl

/-- A further operand, with as much as climbing takes for it. -/
theorem reads_tail (hk : k.Valid) (hbinding : binding k.op = least) (h : ∀ k ∈ ks, k.Valid)
    (hd : Ends ds) :
    Reads (tail l) (linksText (k :: ks) ++ ds)
      (linksText (climb (binding k.op + 1) (.identifier none k.name) ks).rest ++ ds)
      [MeansTail p (k.op, (climb (binding k.op + 1) (.identifier none k.name) ks).tree)] := by
  obtain ⟨hsolid, hop, -⟩ := operator_spelled (hk.spelled_of_binding (hbinding ▸ hleast))
    (k.name.toList ++ (linksText ks ++ ds))
  have operand := hl k.name ks ds hk.name h hd
  rw [← hbinding] at operand
  rw [linksText_cons]
  exact ((reads_blank (behindGap_space hsolid)).cons <| (reads_op hop).cons <|
    (reads_blank (behindGap_space (solid_name hk.name.1 _))).cons <|
    operand.cons (reads_nil _)).node "binary-tail"

/-- **The operators of a level** are taken from left to right as climbing takes them. -/
theorem reads_tails (left : Node) (h : ∀ k ∈ links, k.Valid) (hd : Ends ds)
    (hhead : ∀ k ∈ links.head?, binding k.op ≤ least) :
    ∃ tails : List (String × Node),
      Reads (.many (tail l)) (linksText links ++ ds)
        (linksText (climb least left links).rest ++ ds) (tails.map (MeansTail p)) ∧
      (climb least left links).tree = folded left tails := by
  induction hn : links.length using Nat.strong_induction_on generalizing left links with
  | h n ih =>
    subst hn
    have stop (hb : ∀ k ∈ links.head?, binding k.op < least) :
        Reads (.many (tail l)) (linksText links ++ ds) (linksText links ++ ds) [] := by
      have still : Still (l.height + 1) (linksText links ++ ds) :=
        still_links h hd (by omega) fun k hk => by
          have := hb k hk
          omega
      exact (refuses_tail (still.operator l (Nat.lt_succ_self _))).many
    cases links with
    | nil =>
      obtain ⟨htree, hrest⟩ := climb_nil least left
      rw [htree, hrest]
      exact ⟨[], stop (by rintro _ ⟨⟩), rfl⟩
    | cons k ks =>
      have hks : ∀ k ∈ ks, k.Valid := fun k' hk' => h k' (List.mem_cons_of_mem k hk')
      by_cases hk : binding k.op = least
      · obtain ⟨htree, hrest⟩ := climb_taken hk.ge left ks
        have first := reads_tail hleast hl (h k List.mem_cons_self) hk hks hd
        have hnext := binding_lt_of_mem_head? (binding k.op + 1) (.identifier none k.name) ks
        -- the loop goes on with what climbing left behind the operand
        generalize climb (binding k.op + 1) (.identifier none k.name) ks = right at *
        obtain ⟨tails, hreads, hfolded⟩ := ih right.rest.length
          (Nat.lt_succ_of_le right.suffix.length_le) (join k.op left right.tree) (right.valid hks)
          (fun k' hk' => hk ▸ Nat.le_of_lt_succ (hnext k' hk')) rfl
        rw [htree, hrest, hfolded]
        refine ⟨_ :: tails, first.many hreads, ?_⟩
        rw [join_eq_binaryNode]
        rfl
      · have hlt : binding k.op < least := Nat.lt_of_le_of_ne (hhead k rfl) hk
        obtain ⟨htree, hrest⟩ := climb_stopped hlt left ks
        rw [htree, hrest]
        refine ⟨[], stop ?_, rfl⟩
        rintro _ ⟨⟩
        exact hlt

/-- **A level reads chains** if the next tighter one does. -/
theorem chained_level : Chained p (.rule (.binary l)) least := by
  intro name links ds hn h hd
  have hfirst := climb_climb (Nat.le_succ least) (.identifier none name) links
  obtain ⟨tails, hreads, hfolded⟩ := reads_tails hleast hl
    (climb (least + 1) (.identifier none name) links).tree (Climbed.valid _ h) hd
    fun k hk => Nat.le_of_lt_succ (binding_lt_of_mem_head? _ _ _ k hk)
  rw [hfirst.2] at hreads
  rw [← hfirst.1, hfolded]
  have parts := (hl name links ds hn h hd).cons (hreads.cons (reads_nil _))
  rw [List.append_nil] at parts
  exact .rule ((parts.node "binary").mono fun _ => means_chain)

end

/-- **Every level reads chains** as climbing does from its own operators on. -/
theorem chained_binary (l : Level) :
    ∀ least, least + l.height = 9 → Chained p (.rule (.binary l)) least := by
  induction l using Level.tightest_first with
  | tightest =>
    rintro least rfl
    exact chained_level rfl chained_unary
  | looser l t ht ih =>
    intro least hleast
    have hheight := Level.height_of_tighter ht
    refine chained_level hleast ?_
    rw [operand_of_tighter ht]
    exact ih _ (by omega)

/-! ## Chains as programs -/

/-- **A chain of names is read by precedence**: the tree of the chain with a semicolon is the one
that climbing makes of the chain, places aside. -/
theorem readHostForm_chain (hn : IsIdentifier name) (h : ∀ k ∈ links, k.Valid) :
    ∃ n, readHostForm (String.ofList (chainText name links ++ [';'])) = .ok n ∧
      n.unplaced = .program none [.exprStmt none (chainTree name links)] := by
  have hd := ends_semicolon []
  have htext : chainText name links ++ [';'] = name.toList ++ (linksText links ++ [';']) :=
    List.append_assoc ..
  have hopens := opens_identifier hn (stopsRun_links links hd)
  have chain : Reads _ _ _ [Means ⟨none, false⟩ (chainTree name links)] :=
    chained_binary .logicalOr 0 rfl name links [';'] hn h hd
  rw [rest_climb_zero] at chain
  obtain ⟨n, hread, hplain⟩ := readHostForm_expression hopens (expression_of_binary hd chain)
  refine ⟨n, by rw [htext, hread], ?_⟩
  rw [hplain, Node.unplaced, Node.unplacedAll, Node.unplaced, chainTree, unplaced_climb 0 rfl]
  rfl

/-- Operators of three levels behind a name. -/
def mixedLinks : List Link := [⟨"||", "b"⟩, ⟨"+", "c"⟩, ⟨"*", "d"⟩, ⟨"-", "e"⟩]

theorem readHostForm_mixedLinks : IsIdentifier "a" ∧ (∀ k ∈ mixedLinks, k.Valid) ∧
    ∃ n, readHostForm "a || b + c * d - e;" = .ok n ∧
      n.unplaced = .program none [.exprStmt none (.logical none "||" (.identifier none "a")
        (.binary none "-" (.binary none "+" (.identifier none "b")
          (.binary none "*" (.identifier none "c") (.identifier none "d")))
          (.identifier none "e")))] := by
  have name : IsIdentifier "a" := ⟨by decide, by decide⟩
  have valid : ∀ k ∈ mixedLinks, k.Valid := by
    have all : ∀ k ∈ mixedLinks, k.op ∈ precedence.flatten ∧ isName k.name.toList = true ∧
        k.name ∉ reservedWords := by decide
    exact fun k hk => ⟨takes_iff.mpr (all k hk).1, (all k hk).2⟩
  have tree : chainTree "a" mixedLinks = .logical none "||" (.identifier none "a")
      (.binary none "-" (.binary none "+" (.identifier none "b")
        (.binary none "*" (.identifier none "c") (.identifier none "d")))
        (.identifier none "e")) := by with_unfolding_all rfl
  have text : "a || b + c * d - e;" = String.ofList (chainText "a" mixedLinks ++ [';']) := by
    decide
  rw [← tree, text]
  exact ⟨name, valid, readHostForm_chain name valid⟩

end LedSketch.HostText
