import LedSketch.Proofs.Dialect.Tokens

/-!
# The pass writes the host form of a sketch

The pass reads a sketch from left to right and never looks back further than one token. What it
writes for a part of a sketch is the host form of that part, and behind it the pass is where it was
before, up to the previous token.

* `Writes`: what the pass writes for a part of a sketch, and where it is behind it.
* `Stands`: the pass stands in code, and it is known whether a call of `delay` suspends there.
* `writes_expr`, `writes_declaration`, `writes_header`, `writes_item`: the parts of a sketch.
* `toHostForm_sketch`: what becomes of a whole sketch.
-/

namespace LedSketch.Dialect

open Text Scan Scanner Sketch

namespace Rewriter

variable {r r' r'' : Rewriter} {f : Bool} {a a' b b' cs z : List Char} {c : Char}
  {p : Option String}

/-- In front of `z` the pass writes `out` for `text`, and goes on as `r'` behind some token that
keeps nothing from being rewritten. -/
def Writes (r r' : Rewriter) (text out z : List Char) : Prop :=
  ∃ p, Settled p ∧ r.run (text ++ z) = out ++ (r'.after p).run z

namespace Writes

/-- One part comes behind the other. -/
theorem append (h : Writes r r' a a' (b ++ z))
    (hb : ∀ p, Settled p → Writes (r'.after p) r'' b b' z) :
    Writes r r'' (a ++ b) (a' ++ b') z := by
  obtain ⟨p, hp, ha⟩ := h
  obtain ⟨q, hq, hb⟩ := hb p hp
  exact ⟨q, hq, by rw [List.append_assoc, ha, hb, List.append_assoc]⟩

theorem cons (h : Writes r r' [c] [c] (b ++ z))
    (hb : ∀ p, Settled p → Writes (r'.after p) r'' b b' z) :
    Writes r r'' (c :: b) (c :: b') z := h.append hb

theorem nil (hp : Settled r.previous) : Writes r r [] [] z := ⟨r.previous, hp, rfl⟩

end Writes

theorem writes_gap (hr : r.scanner.mode = .code) (hp : Settled r.previous) (g : Gap) :
    Writes r r g.chars g.chars z := ⟨r.previous, hp, run_blanks hr g.blank z⟩

/-! ## Where a part ends -/

/-- What an expression ends in front of: a mark that goes on no name and no number and opens no
call. -/
def closes (c : Char) : Bool := !(isNumberChar c || isNameChar c || isSpace c || c == '(')

/-- A text that goes on behind an expression. -/
def Closes (cs : List Char) : Prop := ∃ c ∈ cs.head?, closes c = true

/-- Marks that an expression ends in front of. -/
def closingMarks : List Char :=
  [',', ';', ')', '}', '=', '!', '<', '>', '+', '-', '*', '/', '%', '&', '|', '^']

theorem closes_of_mem (h : c ∈ closingMarks) : closes c = true := by
  have hlt : closingMarks.all (·.toNat < 0xAA) = true := by decide
  have key : closingMarks.all (fun c => !(isAsciiAlnum c || c == '_' || c == '.' || c == '$' ||
      isSpace c || c == '(')) = true := by decide
  have hc : c.toNat < 0xAA := by simpa using List.all_eq_true.mp hlt c h
  have := List.all_eq_true.mp key c h
  simp only [Bool.not_eq_true', Bool.or_eq_false_iff] at this
  simp only [closes, isNumberChar_of_lt hc, isNameChar_of_lt hc, this, Bool.or_self, Bool.not_false]

theorem closes_cons (hc : c ∈ closingMarks) (cs : List Char) : Closes (c :: cs) :=
  ⟨c, rfl, closes_of_mem hc⟩

theorem Closes.append (h : Closes cs) (z : List Char) : Closes (cs ++ z) := by
  obtain ⟨c, hcs, hc⟩ := h
  obtain ⟨cs, rfl⟩ := List.head?_eq_some_iff.mp hcs
  exact ⟨c, rfl, hc⟩

theorem Closes.stops (h : Closes z) : StopsRun isNumberChar z ∧ StopsRun isNameChar z := by
  obtain ⟨c, hds, hc⟩ := h
  simp only [closes, Bool.not_eq_true', Bool.or_eq_false_iff] at hc
  constructor <;> intro d hd <;> cases hds.symm.trans hd
  · exact hc.1.1.1
  · exact hc.1.1.2

theorem Closes.not_called (h : Closes z) : peekChar? z ≠ some '(' := by
  obtain ⟨c, hds, hc⟩ := h
  obtain ⟨cs, rfl⟩ := List.head?_eq_some_iff.mp hds
  simp only [closes, Bool.not_eq_true', Bool.or_eq_false_iff, beq_eq_false_iff_ne] at hc
  rw [peekChar?_cons, hc.1.2]
  rintro ⟨⟩
  exact hc.2 rfl

/-! ## Where the pass stands -/

/-- The pass stands in code outside of a list of parameters, and `f` says whether a call of `delay`
suspends there. -/
structure Stands (r : Rewriter) (f : Bool) : Prop where
  mode : r.scanner.mode = .code
  level : r.paramLevel = none
  entered : Entered r.scanner.nesting
  suspends : (r.scanner.nesting.suspendable && !r.scanner.inInterpolation) = f

namespace Stands

theorem after (h : Stands r f) (p : Option String) : Stands (r.after p) f := ⟨h.1, h.2, h.3, h.4⟩

theorem interpolated (h : Stands r f) : Stands r.interpolated false where
  mode := rfl
  level := h.level
  entered b hb := (h.entered b hb).trans (Nat.le_succ _)
  suspends := Bool.and_false _

end Stands

/-- The pass inside of one more parenthesis. -/
def opened (r : Rewriter) : Rewriter := { r with parens := r.parens + 1 }

theorem Stands.opened (h : Stands r f) : Stands r.opened f := ⟨h.1, h.2, h.3, h.4⟩

theorem settled_mark {v : String} (hv : v ∉ quietBefore ++ bindingWords) : Settled (some v) := by
  rw [List.mem_append, not_or] at hv
  exact settled_some hv.1 hv.2

theorem writes_openParen (hr : r.scanner.mode = .code) : Writes r r.opened ['('] ['('] z :=
  ⟨some "(", settled_mark (by decide), run_openParen hr z⟩

theorem writes_closeParen (hr : r.scanner.mode = .code) (hlevel : r.paramLevel = none) :
    Writes (r.opened.after p) r [')'] [')'] z := by
  refine ⟨some ")", settled_mark (by decide), ?_⟩
  have : ({ r.opened.after p with previous := some ")", parens := r.parens, paramLevel := none } :
      Rewriter) = r.after (some ")") := by
    unfold after
    rw [← hlevel]
    rfl
  rw [List.singleton_append, run_closeParen (r := r.opened.after p) hr r.parens rfl, this,
    List.singleton_append]
  rw [after_paramLevel]
  show ∀ l ∈ r.paramLevel, l = r.parens
  rw [hlevel]
  nofun

/-- What stands in parentheses. -/
theorem writes_parens (hr : r.scanner.mode = .code) (hlevel : r.paramLevel = none)
    (ha : ∀ p, Settled p → Writes (r.opened.after p) r.opened a a' (')' :: (b ++ z)))
    (hb : ∀ p, Settled p → Writes (r.after p) r b b' z) :
    Writes r r ('(' :: (a ++ ')' :: b)) ('(' :: (a' ++ ')' :: b')) z :=
  (writes_openParen hr).cons fun p hp => (ha p hp).append fun _ _ =>
    (writes_closeParen hr hlevel).cons hb

theorem writes_mark (hr : r.scanner.mode = .code) (hc : c ∈ simpleMarks) (hdot : c ≠ '.') :
    Writes r r [c] [c] z := by
  have key : ∀ c ∈ simpleMarks, c ≠ '.' → String.ofList [c] ∉ quietBefore ++ bindingWords :=
    List.forall_iff_forall_mem.mp (by decide)
  exact ⟨_, settled_mark (key c hc hdot), run_simpleMark hr hc z⟩

theorem writes_semicolon (hr : r.scanner.mode = .code)
    (hpending : r.scanner.nesting.pending = none) : Writes r r [';'] [';'] z :=
  ⟨some ";", settled_mark (by decide), run_semicolon hr hpending z⟩

theorem writes_keyword (hr : r.scanner.mode = .code) (v : String)
    (hv : v ∈ ["if", "else", "for", "while", "return"]) (hds : StopsRun isNameChar z) :
    Writes r r v.toList v.toList z := by
  have key : ∀ v ∈ ["if", "else", "for", "while", "return"],
      v ∈ ["if", "else", "for", "while", "return", "const"] ∧
        v ∉ quietBefore ++ bindingWords := by decide
  exact ⟨some v, settled_mark (key v hv).2, run_keyword hr v (key v hv).1 hds⟩

/-! ## Operators -/

/-- What stands behind an operator starts no comment with it. -/
def Starts (cs : List Char) : Prop := ∃ c ∈ cs.head?, c ≠ '/' ∧ c ≠ '*'

theorem Starts.append (h : Starts cs) (z : List Char) : Starts (cs ++ z) := by
  obtain ⟨c, hcs, hc⟩ := h
  obtain ⟨cs, rfl⟩ := List.head?_eq_some_iff.mp hcs
  exact ⟨c, rfl, hc⟩

theorem Starts.gap (h : Starts cs) (g : Gap) : Starts (g.chars ++ cs) := by
  have hblank := g.blank
  cases hg : g.chars with
  | nil => exact h
  | cons c es =>
    rw [hg] at hblank
    have hc := hblank c List.mem_cons_self
    exact ⟨c, rfl, ne_of_isSpace hc (by decide), ne_of_isSpace hc (by decide)⟩

theorem starts_operand {numeric : Bool} : (o : Operand numeric) → Starts (o.text .dialect)
  | .int n _ => ⟨n.first, rfl, by
      have hne (d : Char) (hd : isDecimalDigit d = false) : n.first ≠ d := by
        rintro rfl
        rw [n.digit] at hd
        cases hd
      exact ⟨hne _ (by decide), hne _ (by decide)⟩⟩
  | .name x _ => by
      rw [Operand.text]
      refine Starts.append ?_ _
      have hname := x.name
      cases hx : x.chars with
      | nil => rw [hx] at hname; cases hname
      | cons c cs =>
        rw [hx] at hname
        have hc := (isName_cons.mp hname).1
        have hne (d : Char) (hd : isNameStart d = false) : c ≠ d := by
          rintro rfl
          rw [hc] at hd
          cases hd
        exact ⟨c, rfl, hne _ (by decide), hne _ (by decide)⟩
  | .string s _ => ⟨s.quote.char, rfl, by cases s.quote <;> decide⟩
  | .template _ _ => ⟨_, rfl, by decide⟩
  | .group _ _ _ => ⟨_, rfl, by decide⟩
  | .call o _ _ _ => ((starts_operand o).append _ : Starts (_ ++ _))
  | .member o _ _ _ => (starts_operand o).append _

theorem starts_expr : (e : Expr) → Starts (e.text .dialect)
  | .operand o => starts_operand o
  | .binary l _ _ _ => by
      rw [Expr.text, List.append_assoc, List.append_assoc]
      exact (starts_expr l).append _

/-- The marks that operators are made of, but the slash. -/
def operatorMarks : List Char := ['=', '!', '<', '>', '+', '-', '*', '%', '&', '|', '^']

theorem writes_marks (hr : r.scanner.mode = .code) (hcs : ∀ c ∈ cs, c ∈ operatorMarks)
    (hne : cs ≠ []) : Writes r r cs cs z := by
  have key : ∀ c ∈ operatorMarks, c ∈ simpleMarks ∧ c ≠ '.' :=
    List.forall_iff_forall_mem.mp (by decide)
  induction cs generalizing r with
  | nil => exact absurd rfl hne
  | cons c cs ih =>
    have hc := key c (hcs c List.mem_cons_self)
    cases cs with
    | nil => exact writes_mark hr hc.1 hc.2
    | cons d cs =>
      exact (writes_mark hr hc.1 hc.2).cons fun p _ =>
        ih (r := r.after p) hr (fun e he => hcs e (List.mem_cons_of_mem c he)) (by simp)

/-- An operator is copied in front of what starts no comment with it. -/
theorem writes_operator (hr : r.scanner.mode = .code) (o : Operator) (hds : Starts z) :
    Writes r r o.text.toList o.text.toList z := by
  have key : ∀ w ∈ operators, w = "/" ∨ w = "/=" ∨
      w.toList ≠ [] ∧ w.toList.Forall (· ∈ operatorMarks) := by decide
  have hslash {z : List Char} (hds : Starts z) : Writes r r ['/'] ['/'] z := by
    refine ⟨some "/", settled_mark (by decide), run_slash hr fun c hc => ?_⟩
    obtain ⟨d, hd, hne⟩ := hds
    cases hc.symm.trans hd
    exact hne
  rcases key o.text o.known with h | h | ⟨hne, hmarks⟩
  · rw [h]
    exact hslash hds
  · rw [h]
    exact (hslash ⟨'=', rfl, by decide⟩).cons fun p _ =>
      writes_mark (r := r.after p) hr (by decide) (by decide)
  · exact writes_marks hr (List.forall_iff_forall_mem.mp hmarks) hne

theorem closes_operator (o : Operator) (cs : List Char) : Closes (o.text.toList ++ cs) := by
  have key : ∀ w ∈ operators, (w.toList.head?.any closingMarks.contains) = true := by decide
  have := key o.text o.known
  cases ho : o.text.toList with
  | nil => rw [ho] at this; cases this
  | cons c cs => rw [ho] at this; exact closes_cons (by simpa using this) _

/-! ## Expressions -/

/-- What goes on an operand: an integer goes on with more than a name does. -/
def goesOn (numeric : Bool) : Char → Bool := if numeric then isNumberChar else isNameChar

theorem goesOn_openParen (numeric : Bool) : goesOn numeric '(' = false := by
  cases numeric
  · exact isNameChar_of_isAsciiMark (c := '(') (by decide)
  · exact isNumberChar_openParen

theorem Closes.goesOn (h : Closes z) (numeric : Bool) : StopsRun (goesOn numeric) z := by
  cases numeric
  · exact h.stops.2
  · exact h.stops.1

theorem awaiting_host {numeric : Bool} (f : Bool) (o : Operand numeric) :
    Form.awaiting (.host f) o = if f && o.isDelay then "await ".toList else [] := by
  cases f <;> rfl

/-- What is awaited if a call follows. -/
def awaitingCall {numeric : Bool} (f : Bool) (o : Operand numeric) (z : List Char) : List Char :=
  if peekChar? z = some '(' then Form.awaiting (.host f) o else []

theorem awaitingCall_of_not_isDelay {numeric : Bool} {o : Operand numeric} (h : o.isDelay = false)
    (f : Bool) (z : List Char) : awaitingCall f o z = [] := by
  simp [awaitingCall, awaiting_host, h]

theorem awaitingCall_of_ne {numeric : Bool} (o : Operand numeric) (f : Bool)
    (h : peekChar? z ≠ some '(') : awaitingCall f o z = [] := if_neg h

/-- A name is awaited if it is that of the pausing builtin and a call of it may suspend here. -/
theorem writes_name (hr : Stands r f) (hp : Settled r.previous) (x : Identifier) (g : Gap)
    (hds : StopsRun isNameChar z) :
    Writes r r (x.chars ++ g.chars) (awaitingCall f (.name x g) z ++ (x.chars ++ g.chars)) z := by
  have hawaits : (if r.awaits x.chars (g.chars ++ z) then "await ".toList else []) =
      awaitingCall f (.name x g) z := by
    have hdelay : decide (String.ofList x.chars = "delay") = (Operand.name x g).isDelay := by
      rw [Operand.isDelay]
      exact decide_eq_decide.mpr ⟨fun h => by rw [← h, String.toList_ofList], fun h => by rw [h]; rfl⟩
    unfold awaits awaitingCall
    rw [awaiting_host, peekChar?_append g.blank, hp.previousIn.1, ← hr.suspends, hdelay]
    generalize "await ".toList = word
    cases (Operand.name x g).isDelay <;> cases r.scanner.nesting.suspendable <;>
      cases r.scanner.inInterpolation <;> simp
  refine ⟨_, settled_identifier x, ?_⟩
  rw [List.append_assoc, run_identifier hr.mode x (g.stops (fun _ => isNameChar_of_isSpace) hds),
    hawaits, run_blanks (r := r.after (some _)) hr.mode g.blank]
  simp only [List.append_assoc]

/-- A member is never awaited. -/
theorem writes_member (hr : r.scanner.mode = .code) (g : Gap) (x : Identifier) (g' : Gap)
    (hds : StopsRun isNameChar z) :
    Writes r r ('.' :: (g.chars ++ x.chars ++ g'.chars)) ('.' :: (g.chars ++ x.chars ++ g'.chars))
      z := by
  refine ⟨_, settled_identifier x, ?_⟩
  simp only [List.cons_append, List.append_assoc]
  rw [run_simpleMark hr (by decide), run_blanks (r := r.after (some _)) hr g.blank,
    run_variable (r := r.after (some ".")) hr x (g'.stops (fun _ => isNameChar_of_isSpace) hds)
      (.inr rfl), after_after, run_blanks (r := r.after (some _)) hr g'.blank]

mutual

/-- **An operand** is written in host form; what is in front of it depends on whether a call
follows. -/
theorem writes_operand {numeric : Bool} (o : Operand numeric) {r : Rewriter} {f : Bool}
    {z : List Char} (hr : Stands r f) (hp : Settled r.previous)
    (hds : StopsRun (goesOn numeric) z) :
    Writes r r (o.text .dialect) (awaitingCall f o z ++ o.text (.host f)) z := by
  match o with
  | .int n g =>
    obtain ⟨p, hsettled, hrun⟩ := run_numeral (z := g.chars ++ z) hr.mode n
      (g.stops (fun _ => Grammar.isNumberChar_of_isSpace) hds)
    refine ⟨p, hsettled, ?_⟩
    rw [awaitingCall_of_not_isDelay rfl, List.nil_append, Operand.text, Operand.text,
      List.append_assoc, hrun, run_blanks (r := r.after p) hr.mode g.blank, List.append_assoc]
  | .name x g =>
    rw [Operand.text, Operand.text]
    exact writes_name hr hp x g hds
  | .string s g =>
    refine ⟨none, settled_none, ?_⟩
    have hliteral := run_literal hr.mode s (g.chars ++ z)
    rw [run_blanks (r := r.after none) hr.mode g.blank] at hliteral
    rw [awaitingCall_of_not_isDelay rfl, List.nil_append, Operand.text, Operand.text]
    simpa only [List.append_assoc, List.cons_append] using hliteral
  | .template t g =>
    rw [awaitingCall_of_not_isDelay rfl, List.nil_append, Operand.text, Operand.text]
    obtain ⟨p, hsettled, hrun⟩ := writes_template t hr (z := g.chars ++ z)
    refine ⟨p, hsettled, ?_⟩
    rw [List.cons_append, run_openTemplate hr.mode, List.append_assoc, hrun,
      run_blanks (r := r.after p) hr.mode g.blank, List.cons_append, List.append_assoc]
  | .group g e g' =>
    rw [awaitingCall_of_not_isDelay rfl, List.nil_append, Operand.text, Operand.text]
    refine writes_parens hr.mode hr.level (fun p hp => ?_) fun p hp =>
      writes_gap (r := r.after p) hr.mode hp g'
    exact (writes_gap (r := r.opened.after p) hr.mode hp g).append fun q hq =>
      writes_expr e (hr.opened.after q) hq (closes_cons (by decide) _)
  | .call o g args g' =>
    rw [awaitingCall_of_not_isDelay rfl, List.nil_append, Operand.text, Operand.text]
    have hcallee := writes_operand o (z := '(' :: (g.chars ++ args.text .dialect ++ ')' :: g'.chars)
      ++ z) hr hp (stopsRun_cons (goesOn_openParen _) _)
    refine Writes.append (hcallee : Writes r r _ (Form.awaiting (.host f) o ++ _) _) fun p hp => ?_
    refine writes_parens (r := r.after p) hr.mode hr.level (fun q hq => ?_) fun q hq =>
      writes_gap (r := r.after q) hr.mode hq g'
    exact (writes_gap (r := r.opened.after q) hr.mode hq g).append fun q hq =>
      writes_args args (hr.opened.after q) hq (closes_cons (by decide) _)
  | .member o g x g' =>
    rw [awaitingCall_of_not_isDelay rfl, List.nil_append, Operand.text, Operand.text]
    have hreceiver := writes_operand o (z := '.' :: (g.chars ++ x.chars ++ g'.chars) ++ z) hr hp
      (stopsRun_cons (isNameChar_of_isAsciiMark (by decide)) _)
    rw [awaitingCall_of_ne o f (by rintro ⟨⟩), List.nil_append] at hreceiver
    exact hreceiver.append fun p hp => writes_member (r := r.after p) hr.mode g x g' hds

/-- **An expression is written in host form.** -/
theorem writes_expr (e : Expr) {r : Rewriter} {f : Bool} {z : List Char} (hr : Stands r f)
    (hp : Settled r.previous) (hds : Closes z) :
    Writes r r (e.text .dialect) (e.text (.host f)) z := by
  match e with
  | .operand o =>
    have := writes_operand o hr hp (hds.goesOn _)
    rw [awaitingCall_of_ne o f hds.not_called, List.nil_append] at this
    exact this
  | .binary e o g e' =>
    rw [Expr.text, Expr.text]
    simp only [List.append_assoc]
    refine (writes_expr e hr hp ((closes_operator o _).append z)).append fun p hp => ?_
    refine (writes_operator (r := r.after p) hr.mode o (((starts_expr e').gap g).append z)).append
      fun p hp => ?_
    exact (writes_gap (r := r.after p) hr.mode hp g).append fun p hp =>
      writes_expr e' (hr.after p) hp hds

theorem writes_args (args : Args) {r : Rewriter} {f : Bool} {z : List Char} (hr : Stands r f)
    (hp : Settled r.previous) (hds : Closes z) :
    Writes r r (args.text .dialect) (args.text (.host f)) z := by
  match args with
  | .none => exact .nil hp
  | .some l => exact writes_arguments l hr hp hds

theorem writes_arguments (l : Arguments) {r : Rewriter} {f : Bool} {z : List Char}
    (hr : Stands r f) (hp : Settled r.previous) (hds : Closes z) :
    Writes r r (l.text .dialect) (l.text (.host f)) z := by
  match l with
  | .last e => exact writes_expr e hr hp hds
  | .more e g l =>
    rw [Arguments.text, Arguments.text]
    refine (writes_expr e hr hp (closes_cons (by decide) _)).append fun p hp => ?_
    refine (writes_mark (r := r.after p) hr.mode (by decide) (by decide)).cons fun p hp => ?_
    exact (writes_gap (r := r.after p) hr.mode hp g).append fun p hp =>
      writes_arguments l (hr.after p) hp hds

/-- Inside of an interpolation no call suspends, and behind it the template goes on. -/
theorem writes_template (t : Template) {r : Rewriter} {f : Bool} {z : List Char}
    (hr : Stands r f) : Writes (r.within .template) r (t.text .dialect) (t.text (.host f)) z := by
  match t with
  | .closed c =>
    refine ⟨none, settled_none, ?_⟩
    rw [Template.text, Template.text, List.append_assoc, run_chunk r c _ (by rintro ⟨⟩),
      List.singleton_append, run_closeTemplate hr.mode, List.append_assoc, List.singleton_append]
  | .interpolation c g e t =>
    obtain ⟨p, -, he⟩ := (writes_gap (r := r.interpolated) (z := e.text .dialect ++ '}' ::
      (t.text .dialect ++ z)) rfl settled_none g).append fun p hp =>
        writes_expr e (hr.interpolated.after p) hp (closes_cons (by decide) _)
    obtain ⟨q, hq, ht⟩ := writes_template t hr (z := z)
    refine ⟨q, hq, ?_⟩
    rw [Template.text, Template.text]
    simp only [List.append_assoc, List.cons_append, Form.interpolated, Form.inside] at he ⊢
    rw [run_chunk r c _ (by rintro ⟨⟩), run_openInterpolation, he,
      run_closeInterpolation hr.entered, ht]

end

end Rewriter

end LedSketch.Dialect
