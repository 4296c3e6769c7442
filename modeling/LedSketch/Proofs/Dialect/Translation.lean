import LedSketch.Proofs.Dialect.Writing

/-!
# The host form of declarations, functions and statements

Between two statements no declaration waits for its body and no interpolation is open. A function
declares its body before the brace that opens it, and that brace takes the declaration away, so
behind the body everything is as it was in front of the function.

* `AtItem`: the pass stands between two statements.
* `writes_declaration`, `writes_header`, `writes_guard`, `writes_item`: the parts of a sketch.
* `toHostForm_sketch`: **the host form of a sketch is what the pass makes of it.**
-/

namespace LedSketch.Dialect

open Text Scan Scanner Sketch

namespace Rewriter

variable {r : Rewriter} {f : Bool} {z : List Char} {p : Option String}

/-! ## Declarations -/

/-- What comes in front of the first variable of a declaration, and its name. -/
theorem writes_binding (hr : Stands r f) (hp : Settled r.previous) (d : Declaration)
    (x : Identifier) (hds : StopsRun isNameChar z) (hcall : peekChar? z ≠ some '(') :
    Writes r r (d.head .dialect ++ x.chars) (d.head (.host f) ++ x.chars) z := by
  obtain ⟨constant, t, g, declarators⟩ := d
  refine ⟨_, settled_identifier x, ?_⟩
  cases constant with
  | none =>
    simp only [Declaration.head, List.append_assoc]
    rw [run_type hr.mode hp.ne_dot t (g.stops _), run_let hr.mode hp hr.level t.word_mem g x hds hcall,
      run_blanks (r := r.after (some "let")) hr.mode g.blank,
      run_variable (r := r.after (some "let")) hr.mode x hds (.inl hcall), after_after]
  | some k =>
    have hbinding : (r.after (some "const")).previousIn bindingWords = true :=
      (by decide : bindingWords.contains "const" = true)
    have hdot : (r.after (some "const")).previous ≠ some "." :=
      (by decide : some "const" ≠ some ".")
    simp only [Declaration.head, List.append_assoc]
    rw [run_keyword hr.mode "const" (by decide) (k.stops _),
      run_blanks (r := r.after (some "const")) hr.mode k.blank,
      run_type (r := r.after (some "const")) hr.mode hdot t (g.stops _),
      run_dropped (r := r.after (some "const")) hr.mode hdot (.inr hbinding) t.word_mem g x hds
        hcall,
      run_variable (r := r.after (some "const")) hr.mode x hds (.inl hcall), after_after]

/-- The initial value of a variable. -/
theorem writes_value (hr : Stands r f) (hp : Settled r.previous) (d : Declarator)
    (hds : Closes z) :
    Writes r r (d.behindName.chars ++ '=' :: (d.behindMark.chars ++ d.value.text .dialect))
      (d.behindName.chars ++ '=' :: (d.behindMark.chars ++ d.value.text (.host f))) z := by
  refine (writes_gap hr.mode hp d.behindName).append fun p hp => ?_
  refine (writes_mark (r := r.after p) hr.mode (by decide) (by decide)).cons fun p hp => ?_
  exact (writes_gap (r := r.after p) hr.mode hp d.behindMark).append fun p hp =>
    writes_expr d.value (hr.after p) hp hds

/-- What follows the name of a variable is no call. -/
theorem behind_name (g : Gap) {cs : List Char} (h : Closes cs) :
    StopsRun isNameChar (g.chars ++ cs) ∧ peekChar? (g.chars ++ cs) ≠ some '(' := by
  refine ⟨g.stops (fun _ => isNameChar_of_isSpace) h.stops.2, ?_⟩
  rw [peekChar?_append g.blank]
  exact h.not_called

theorem writes_declarator (hr : Stands r f) (d : Declarator) (hds : Closes z) :
    Writes r r (d.text .dialect) (d.text (.host f)) z := by
  simp only [Declarator.text, List.append_assoc]
  have hname : Writes r r d.name.chars d.name.chars
      (d.behindName.chars ++ '=' :: (d.behindMark.chars ++ d.value.text .dialect) ++ z) := by
    rw [List.append_assoc]
    obtain ⟨hstop, hcall⟩ := behind_name d.behindName (closes_cons (c := '=') (by decide)
      (d.behindMark.chars ++ d.value.text .dialect ++ z))
    exact ⟨_, settled_identifier d.name, run_variable hr.mode d.name hstop (.inl hcall)⟩
  exact hname.append fun p hp => writes_value (hr.after p) hp d hds

/-- One or more parts, the first of them behind something of its own. -/
theorem writes_listed {α : Type} {text out : α → List Char} {a b : List Char}
    (hr : r.scanner.mode = .code) (l : Listed α)
    (hfirst : ∀ z, Closes z → Writes r r (a ++ text l.first) (b ++ out l.first) z)
    (hothers : ∀ x p z, Settled p → Closes z → Writes (r.after p) r (text x) (out x) z)
    (hds : Closes z) : Writes r r (a ++ l.text text) (b ++ l.text out) z := by
  obtain ⟨x, others⟩ := l
  change ∀ z, Closes z → Writes r r (a ++ text x) (b ++ out x) z at hfirst
  -- whatever was written already, the other parts follow
  suffices h : ∀ c c', (∀ z, Closes z → Writes r r c c' z) → Writes r r
      (c ++ others.flatMap fun p => ',' :: (p.1.chars ++ text p.2))
      (c' ++ others.flatMap fun p => ',' :: (p.1.chars ++ out p.2)) z by
    simpa only [Listed.text, List.append_assoc] using h _ _ hfirst
  induction others with
  | nil =>
    intro c c' hc
    simpa using hc z hds
  | cons y others ih =>
    intro c c' hc
    simp only [List.flatMap_cons]
    rw [← List.append_assoc, ← List.append_assoc]
    refine ih _ _ fun es hes => (hc _ (closes_cons (by decide) _)).append fun p hp => ?_
    refine (writes_mark (r := r.after p) hr (by decide) (by decide)).cons fun p hp => ?_
    exact (writes_gap (r := r.after p) hr hp y.1).append fun p hp => hothers y.2 p es hp hes

/-- **A declaration** keeps `const`, or gets `let`. -/
theorem writes_declaration (hr : Stands r f) (hp : Settled r.previous) (d : Declaration)
    (hds : Closes z) : Writes r r (d.text .dialect) (d.text (.host f)) z := by
  refine writes_listed hr.mode d.declarators (fun z hds => ?_)
    (fun x p z hp hds => writes_declarator (hr.after p) x hds) hds
  set x := d.declarators.first
  have hname : Writes r r (d.head .dialect ++ x.name.chars) (d.head (.host f) ++ x.name.chars)
      (x.behindName.chars ++ '=' :: (x.behindMark.chars ++ x.value.text .dialect) ++ z) := by
    rw [List.append_assoc]
    obtain ⟨hstop, hcall⟩ := behind_name x.behindName (closes_cons (c := '=') (by decide)
      (x.behindMark.chars ++ x.value.text .dialect ++ z))
    exact writes_binding hr hp d x.name hstop hcall
  have := hname.append fun p hp => writes_value (hr.after p) hp x hds
  simpa only [Declarator.text, List.append_assoc] using this

/-! ## Functions -/

theorem run_returnType (hr : r.scanner.mode = .code) (hdot : r.previous ≠ some ".")
    (t : ReturnType) (hds : StopsRun isNameChar z) :
    r.run (t.text ++ z) = t.remnant ++ r.run (t.word.toList ++ z) := by
  cases t with
  | void => exact congrArg r.run rfl
  | value t => exact run_type hr hdot t hds

/-- **A parameter** loses its type. -/
theorem writes_parameter (hr : r.scanner.mode = .code) (hlevel : r.paramLevel.isSome = true)
    (hp : Settled r.previous) (x : Parameter) (hds : Closes z) :
    Writes r r (x.text .dialect) (x.text (.host f)) z := by
  obtain ⟨hstop, hcall⟩ := behind_name x.behindName hds
  refine ⟨_, settled_identifier x.name, ?_⟩
  simp only [Parameter.text, Parameter.head, List.append_assoc]
  rw [run_type hr hp.ne_dot x.type (x.behindType.stops _),
    run_dropped hr hp.ne_dot (.inl hlevel) x.type.word_mem x.behindType x.name hstop hcall,
    run_variable hr x.name hstop (.inl hcall),
    run_blanks (r := r.after (some _)) hr x.behindName.blank]

/-- What stands between the parentheses of a function, and the parentheses. -/
theorem writes_parameters (hr : Stands r f) (h : Header) :
    Writes (r.listing h.name) (r.declare false)
      (h.behindName.chars ++ '(' :: (h.inside.chars ++ h.listText .dialect ++ ')' :: h.behind.chars))
      (h.behindName.chars ++ '(' ::
        (h.inside.chars ++ h.listText (.host f) ++ ')' :: h.behind.chars)) z := by
  refine (writes_gap (r := r.listing h.name) hr.mode (settled_identifier h.name)
    h.behindName).append fun p hp => ?_
  refine (writes_openParen (r := (r.listing h.name).after p) hr.mode).cons fun p hp => ?_
  set l := (r.listing h.name).opened
  have hlist (p : Option String) (hp : Settled p) (z : List Char) (hds : Closes z) :
      Writes (l.after p) l (h.listText .dialect) (h.listText (.host f)) z := by
    unfold Header.listText
    cases h.parameters with
    | none => exact .nil hp
    | some ps =>
      exact writes_listed (r := l.after p) (a := []) (b := []) hr.mode ps
        (fun z hds => writes_parameter (r := l.after p) hr.mode rfl hp _ hds)
        (fun x p z hp hds => writes_parameter (r := l.after p) hr.mode rfl hp x hds) hds
  have hclose (p : Option String) (z : List Char) :
      Writes (l.after p) (r.declare false) [')'] [')'] z := by
    refine ⟨some ")", settled_mark (by decide), ?_⟩
    rw [List.singleton_append, run_closeParen (r := l.after p) hr.mode r.parens rfl
      (by rintro _ ⟨⟩; rfl), List.singleton_append, after, declare, hr.level]
    rfl
  refine Writes.append ?_ fun p _ => (hclose p _).cons fun p hp =>
    writes_gap (r := (r.declare false).after p) hr.mode hp h.behind
  exact (writes_gap (r := l.after p) hr.mode hp h.inside).append fun p hp =>
    hlist p hp _ (closes_cons (by decide) _)

/-- **The head of a function** declares what its body is. -/
theorem writes_header (hr : Stands r f) (hp : Settled r.previous) (h : Header) :
    Writes r (r.declare h.isEntry) (h.text .dialect) (h.text (.host f)) z := by
  have htype := h.type.word_mem
  by_cases hentry : String.ofList h.name.chars ∈ entryPoints
  · have hlist (f : Form) : h.listText f = [] := by rw [Header.listText, h.entry hentry]
    have hisEntry : h.isEntry = true := List.contains_iff_mem.mpr hentry
    refine ⟨some ")", settled_mark (by decide), ?_⟩
    simp only [Header.text, Header.typeText, hlist, hisEntry, if_true, List.append_nil,
      List.append_assoc, List.cons_append]
    rw [run_returnType hr.mode hp.ne_dot h.type (h.behindType.stops _),
      run_entry hr.mode hp.ne_dot hr.level htype h.behindType h.name hentry,
      run_blanks (r := (r.declare true).after (some ")")) hr.mode h.behind.blank]
  · have hisEntry : h.isEntry = false := by simpa [Header.isEntry] using hentry
    obtain ⟨p, hp', hrun⟩ := writes_parameters (z := z) hr h
    refine ⟨p, hp', ?_⟩
    have hstop := h.behindName.stops (fun _ => isNameChar_of_isSpace)
      (stopsRun_cons (isNameChar_of_isAsciiMark (c := '(') (by decide))
        (h.inside.chars ++ (h.listText .dialect ++ ')' :: (h.behind.chars ++ z))))
    simp only [Header.text, Header.typeText, hisEntry, Bool.false_eq_true, if_false,
      List.append_assoc, List.cons_append] at hrun ⊢
    rw [run_returnType hr.mode hp.ne_dot h.type (h.behindType.stops _),
      run_function hr.mode hp.ne_dot hr.level htype h.behindType h.name hentry hstop ?_, hrun]
    rw [peekChar?_append h.behindName.blank]
    rfl

/-! ## Statements -/

/-- The pass stands between two statements. -/
structure AtItem (r : Rewriter) (f : Bool) : Prop extends Stands r f where
  outside : r.scanner.interpolations = []
  idle : r.scanner.nesting.pending = none

theorem AtItem.after (h : AtItem r f) (p : Option String) : AtItem (r.after p) f :=
  ⟨h.toStands.after p, h.outside, h.idle⟩

theorem AtItem.opened (h : AtItem r f) : AtItem r.opened f :=
  ⟨h.toStands.opened, h.outside, h.idle⟩

/-- Whether a call of `delay` suspends behind the next brace. -/
def entering (r : Rewriter) : Bool :=
  r.scanner.nesting.pending.getD r.scanner.nesting.suspendable

theorem AtItem.entering (h : AtItem r f) : r.entering = f := by
  rw [Rewriter.entering, h.idle, ← h.suspends, inInterpolation, h.outside]
  simp

theorem AtItem.forget (h : AtItem r f) : r.forget = r := by
  rw [Rewriter.forget, Nesting.cancelPending, ← h.idle]

/-- The body of a function takes away what the function declared. -/
theorem AtItem.forget_declare (h : AtItem r f) (entry : Bool) : (r.declare entry).forget = r := by
  rw [Rewriter.forget, declare, Nesting.cancelPending, Nesting.declare, ← h.idle]

/-- Between the braces of a block the pass stands between two statements. -/
theorem Stands.inBlock (h : Stands r f) (hi : r.scanner.interpolations = []) :
    AtItem r.inBlock r.entering := by
  have hnesting : r.inBlock.scanner.nesting = r.scanner.nesting.openBrace := rfl
  have hinside : r.inBlock.scanner.inInterpolation = false := by
    rw [inInterpolation, show r.inBlock.scanner.interpolations = [] from hi]
    rfl
  have hentered := h.entered
  refine ⟨⟨h.mode, h.level, ?entered, ?suspends⟩, hi, ?idle⟩ <;>
    simp only [hnesting, hinside, Nesting.openBrace, Rewriter.entering] <;>
    cases r.scanner.nesting.pending
  case entered.none =>
    intro b hb
    exact (hentered b hb).trans (Nat.le_succ _)
  case entered.some =>
    rintro _ ⟨⟩
    exact Nat.le_refl _
  all_goals simp [Nesting.suspendable]

theorem writes_openBrace (hr : r.scanner.mode = .code) : Writes r r.inBlock ['{'] ['{'] z :=
  ⟨some "\x7b", settled_mark (by decide), run_openBrace hr z⟩

theorem writes_closeBrace (hr : Stands r f) (hi : r.scanner.interpolations = []) :
    Writes (r.inBlock.after p) r.forget ['}'] ['}'] z :=
  ⟨some "\x7d", settled_mark (by decide), run_closeBrace hr.mode hi hr.entered p z⟩

/-- What a `for` starts with. -/
theorem writes_init (hr : Stands r f) (hp : Settled r.previous) (i : Init) (hds : Closes z) :
    Writes r r (i.text .dialect) (i.text (.host f)) z := by
  cases i with
  | nothing => exact .nil hp
  | declaration d => exact writes_declaration hr hp d hds
  | expression e => exact writes_expr e hr hp hds

theorem writes_optional (hr : Stands r f) (hp : Settled r.previous) (e : Option Expr)
    (hds : Closes z) : Writes r r (optional .dialect e) (optional (.host f) e) z := by
  cases e with
  | none => exact .nil hp
  | some e => exact writes_expr e hr hp hds

/-- A keyword, and the parenthesis behind it. -/
theorem writes_opening (hr : r.scanner.mode = .code) (v : String)
    (hv : v ∈ ["if", "else", "for", "while", "return"]) (g : Gap) {a a' : List Char}
    (ha : ∀ p, Settled p → Writes (r.opened.after p) r.opened a a' z) :
    Writes r r.opened (v.toList ++ g.chars ++ '(' :: a) (v.toList ++ g.chars ++ '(' :: a') z := by
  have hopen (p : Option String) (z : List Char) : Writes (r.after p) r.opened ['('] ['('] z :=
    writes_openParen (r := r.after p) hr
  have hstop := g.stops (fun _ => isNameChar_of_isSpace)
    (stopsRun_cons (isNameChar_of_isAsciiMark (c := '(') (by decide)) (a ++ z))
  have hkeyword := (writes_keyword hr v hv hstop).append (z := '(' :: a ++ z) fun p hp =>
    writes_gap (r := r.after p) hr hp g
  exact hkeyword.append fun p _ => (hopen p _).cons ha

/-- What comes before the body of a branch or a loop. -/
theorem writes_guard (hr : AtItem r f) (k : Guard) (hds : Closes z) :
    Writes r r.opened (k.text .dialect) (k.text (.host f)) z := by
  have hvalue (g : Gap) (e : Expr) (p : Option String) (hp : Settled p) :
      Writes (r.opened.after p) r.opened (g.chars ++ e.text .dialect) (g.chars ++ e.text (.host f))
        z :=
    (writes_gap (r := r.opened.after p) hr.mode hp g).append fun p hp =>
      writes_expr e (hr.opened.after p).toStands hp hds
  cases k with
  | branch g g' e =>
    unfold Guard.text
    dsimp only
    exact writes_opening hr.mode "if" (by decide) g (hvalue g' e)
  | loop g g' e =>
    unfold Guard.text
    dsimp only
    exact writes_opening hr.mode "while" (by decide) g (hvalue g' e)
  | count g g' i g₁ e g₂ e' =>
    unfold Guard.text
    dsimp only
    refine writes_opening hr.mode "for" (by decide) g fun p hp => ?_
    have hsemicolon (p : Option String) (z : List Char) :
        Writes (r.opened.after p) r.opened [';'] [';'] z :=
      writes_semicolon (r := r.opened.after p) hr.mode hr.idle
    have hclose {cs : List Char} : Closes (';' :: cs) := closes_cons (by decide) cs
    simp only [List.append_assoc]
    refine (writes_gap (r := r.opened.after p) hr.mode hp g').append fun p hp => ?_
    refine (writes_init (hr.opened.after p).toStands hp i hclose).append fun p _ => ?_
    refine (hsemicolon p _).cons fun p hp => ?_
    refine (writes_gap (r := r.opened.after p) hr.mode hp g₁).append fun p hp => ?_
    refine (writes_optional (hr.opened.after p).toStands hp e hclose).append fun p _ => ?_
    refine (hsemicolon p _).cons fun p hp => ?_
    refine (writes_gap (r := r.opened.after p) hr.mode hp g₂).append fun p hp => ?_
    exact writes_optional (hr.opened.after p).toStands hp e' hds

/-- The semicolon that ends a statement. -/
theorem writes_end (hr : AtItem r f) (g : Gap) :
    Writes r r (';' :: g.chars) (';' :: g.chars) z :=
  (writes_semicolon hr.mode hr.idle).cons fun p hp => writes_gap (r := r.after p) hr.mode hp g

/-- The parenthesis that ends what comes before a body, and the body. -/
theorem writes_guarded (hr : AtItem r f) (k : Guard) (g : Gap) {a a' : List Char}
    (ha : ∀ p, Settled p → Writes (r.after p) r a a' z) :
    Writes r r (k.text .dialect ++ ')' :: (g.chars ++ a))
      (k.text (.host f) ++ ')' :: (g.chars ++ a')) z := by
  refine (writes_guard hr k (closes_cons (by decide) _)).append fun p _ => ?_
  refine (writes_closeParen hr.mode hr.level).cons fun p hp => ?_
  exact (writes_gap (r := r.after p) hr.mode hp g).append ha

theorem Block.stops (b : Block) (z : List Char) : StopsRun isNameChar (b.text .dialect ++ z) := by
  cases b
  exact stopsRun_cons (isNameChar_of_isAsciiMark (by decide)) _

/-- Where no declaration waits for its body, a block is no body. -/
theorem AtItem.writes_block (h : AtItem r f) {b : Block}
    (hb : Writes r r.forget (b.text .dialect) (b.text (.host r.entering)) z) :
    Writes r r (b.text .dialect) (b.text (.host f)) z := by
  rwa [h.forget, h.entering] at hb

mutual

/-- **A statement is written in host form.** -/
theorem writes_item (i : Item) {r : Rewriter} {f : Bool} {z : List Char} (hr : AtItem r f)
    (hp : Settled r.previous) : Writes r r (i.text .dialect) (i.text (.host f)) z := by
  have hclose {cs : List Char} : Closes (';' :: cs) := closes_cons (by decide) cs
  match i with
  | .function h b =>
    refine (writes_header hr.toStands hp h).append fun p hp => ?_
    have hstands : Stands ((r.declare h.isEntry).after p) f :=
      ⟨hr.mode, hr.level, hr.entered, hr.suspends⟩
    have hforget : ((r.declare h.isEntry).after p).forget = r.after p :=
      congrArg (·.after p) (hr.forget_declare h.isEntry)
    have hbody := writes_block b (z := z) hstands hr.outside
    rw [hforget] at hbody
    exact hbody
  | .declaration d g =>
    exact (writes_declaration hr.toStands hp d hclose).append fun p _ => writes_end (hr.after p) g
  | .block b => exact hr.writes_block (writes_block b hr.toStands hr.outside)
  | .guarded k g b =>
    exact writes_guarded hr k g fun p _ =>
      (hr.after p).writes_block (writes_block b (hr.toStands.after p) hr.outside)
  | .choice g g' e g₁ b g₂ b' =>
    have htext (f : Form) : (Item.choice g g' e g₁ b g₂ b').text f =
        (Guard.branch g g' e).text f ++ ')' ::
          (g₁.chars ++ (b.text f ++ ("else".toList ++ (g₂.chars ++ b'.text f)))) := by
      simp only [← List.append_assoc]
      rfl
    rw [htext, htext]
    refine writes_guarded hr (.branch g g' e) g₁ fun p _ => ?_
    refine Writes.append ((hr.after p).writes_block
      (writes_block b (hr.toStands.after p) hr.outside)) fun p hp => ?_
    have hstop : StopsRun isNameChar (g₂.chars ++ b'.text .dialect ++ z) := by
      rw [List.append_assoc]
      exact g₂.stops (fun _ => isNameChar_of_isSpace) (Block.stops b' z)
    refine (writes_keyword (r := r.after p) hr.mode "else" (by decide) hstop).append fun p hp => ?_
    refine (writes_gap (r := r.after p) hr.mode hp g₂).append fun p _ => ?_
    exact (hr.after p).writes_block (writes_block b' (hr.toStands.after p) hr.outside)
  | .leave g g' =>
    have hkeyword := (writes_keyword hr.mode "return" (by decide)
      (g.stops (fun _ => isNameChar_of_isSpace) (closes_cons (by decide) _).stops.2)).append
        (z := ';' :: g'.chars ++ z) fun p hp => writes_gap (r := r.after p) hr.mode hp g
    exact hkeyword.append fun p _ => writes_end (hr.after p) g'
  | .yield g e g' =>
    have hkeyword := (writes_keyword hr.mode "return" (by decide) (g.stops _)).append
        (z := e.text .dialect ++ (';' :: g'.chars ++ z)) fun p hp =>
          writes_gap (r := r.after p) hr.mode hp g.toGap
    have hvalue := hkeyword.append (z := ';' :: g'.chars ++ z) fun p hp =>
      writes_expr e (hr.toStands.after p) hp hclose
    exact hvalue.append fun p _ => writes_end (hr.after p) g'
  | .expression e g =>
    exact (writes_expr e hr.toStands hp hclose).append fun p _ => writes_end (hr.after p) g

theorem writes_items (is : Items) {r : Rewriter} {f : Bool} {z : List Char} (hr : AtItem r f)
    (hp : Settled r.previous) : Writes r r (is.text .dialect) (is.text (.host f)) z := by
  match is with
  | .nil => exact .nil hp
  | .cons i is => exact (writes_item i hr hp).append fun p hp => writes_items is (hr.after p) hp

/-- A block is the body of the declaration that waits for one, if there is one. -/
theorem writes_block (b : Block) {r : Rewriter} {f : Bool} {z : List Char} (hr : Stands r f)
    (hi : r.scanner.interpolations = []) :
    Writes r r.forget (b.text .dialect) (b.text (.host r.entering)) z := by
  match b with
  | .braces g is g' =>
    have hin := hr.inBlock hi
    rw [Block.text, Block.text]
    refine (writes_openBrace hr.mode).cons fun p hp => ?_
    rw [List.append_assoc, List.append_assoc]
    refine (writes_gap (r := r.inBlock.after p) hr.mode hp g).append fun p hp => ?_
    refine (writes_items is (hin.after p) hp).append fun p _ => ?_
    exact (writes_closeBrace hr hi).cons fun p hp =>
      writes_gap (r := r.forget.after p) hr.mode hp g'

end

end Rewriter

/-- **The host form of a sketch is what the pass makes of it**, in the same layout. -/
theorem toHostForm_sketch (s : Sketch) : toHostForm (s.text .dialect) = s.text (.host false) := by
  have hstart : Rewriter.AtItem {} false := ⟨⟨rfl, rfl, nofun, rfl⟩, rfl, rfl⟩
  have hwrites : Rewriter.Writes {} {} (s.lead.chars ++ s.items.text .dialect)
      (s.lead.chars ++ s.items.text (.host false)) [] :=
    (Rewriter.writes_gap hstart.mode Rewriter.settled_none s.lead).append fun p hp =>
      Rewriter.writes_items s.items (hstart.after p) hp
  obtain ⟨p, -, hrun⟩ := hwrites
  rw [Rewriter.run_nil, List.append_nil, List.append_nil] at hrun
  rw [toHostForm, Sketch.text, String.toList_ofList, hrun, Sketch.text]

end LedSketch.Dialect
