import LedSketch.Proofs.Grammar.Shapes
import LedSketch.Proofs.Grammar.Trails

/-!
# The parser meets no pause that is not awaited

A reader that goes along with the parser and minds every pause finds a pause only where the tree that
is built puts it behind an `await`.

* `Minded`: what a run of the parser means for such a reader.
* `Covers`: what the reader has open at a place of a tree.
* `minded_unary`, `minded_access`, `minded_functionDecl`: the rules that decide about a pause.
* `walk_minded`: every rule of the grammar is minded.
-/

namespace LedSketch.Grammar

open Text Scan Scanner Dialect
open Node (Site)

/-- What a reader is told rightly about a lexeme, and what it may expect of it. -/
structure Reading.Fair (r : Reader) (x : Reading Rule) : Prop where
  told : x.Told r
  proper : x.Proper
  /-- No member has the name of a word that means something. -/
  named : x.rule = .memberAccess → String.ofList x.text ∉ boundWords

/-- Where a reader is, and what it remembers. -/
abbrev State := Gist → Reader → List Char → Prop

/-- **What a run of the parser means for a reader that minds every pause**: it gets to the end with
the kinds of the readings, and at `p` every pause of the trees is awaited. -/
def Minded (source : List Char) (p : Site) (P Q : State) : Passage Rule := fun c ts rs d =>
  ∀ g r, P g r c.rest → c.On source → Minds g r c.rest → (∀ x ∈ rs, x.Fair r) →
    ∃ g' r', Trail g r c.rest (rs.flatMap Reading.kinds) g' r' d.rest ∧ Q g' r' d.rest ∧
      d.On source ∧ ∀ t ∈ ts, t.Attended (Paused source) p

variable {source : List Char} {p : Site} {P Q R : State} {c d e : Cursor} {ts us : List Tree}
  {rs ss : List (Reading Rule)} {F : Frame} {ok : Option Bool → Prop} {n : Nat} {w : Rule}
  {g : Gist} {r : Reader} {cs : List Char}

theorem Minded.nil (P : State) (c : Cursor) : Minded source p P P c [] [] c :=
  fun g r hr hon _ _ => ⟨g, r, .refl g r _, hr, hon, by simp⟩

theorem Reading.Fair.trail {g' : Gist} {r' : Reader} {cs ds : List Char} {ks : List Kind}
    {x : Reading Rule} (h : x.Fair r) (ht : Trail g r cs ks g' r' ds) : x.Fair r' := by
  refine ⟨?_, h.proper, h.named⟩
  unfold Reading.Told
  rw [ht.along.members]
  exact h.told

/-- **Passages go one behind the other.** -/
theorem Minded.append (h : Minded source p P Q c ts rs d) (h' : Minded source p Q R d us ss e) :
    Minded source p P R c (ts ++ us) (rs ++ ss) e := by
  intro g r hr hon hminds hfair
  obtain ⟨g₁, r₁, ht₁, hq, hon₁, ha₁⟩ :=
    h g r hr hon hminds fun x hx => hfair x (List.mem_append_left _ hx)
  obtain ⟨g₂, r₂, ht₂, hr₂, hon₂, ha₂⟩ := h' g₁ r₁ hq hon₁ (hminds.trail ht₁)
    fun x hx => (hfair x (List.mem_append_right _ hx)).trail ht₁
  refine ⟨g₂, r₂, ?_, hr₂, hon₂, fun t ht => (List.mem_append.mp ht).elim (ha₁ t) (ha₂ t)⟩
  rw [List.flatMap_append]
  exact ht₁.trans ht₂

theorem Minded.closed (P : State) : (Minded source p P P).Closed := ⟨Minded.nil P, Minded.append⟩

theorem minded_nil (P : State) : ObeysSeq hostForm n w [] (Minded source p P P) :=
  ObeysSeq.nil (Minded.nil P)

theorem minded_cons {q : Peg Rule} {qs : List (Peg Rule)}
    (hq : Obeys hostForm n w q (Minded source p P Q))
    (hqs : ObeysSeq hostForm n w qs (Minded source p Q R)) :
    ObeysSeq hostForm n w (q :: qs) (Minded source p P R) := by
  refine (ObeysSeq.cons hq hqs).weaken ?_
  rintro c ts rs d ⟨e, ts₁, ts₂, rs₁, rs₂, h₁, h₂, rfl, rfl⟩
  exact h₁.append h₂

theorem Minded.mono {P' Q' : State} (h : Minded source p P Q c ts rs d)
    (hP : ∀ g r cs, P' g r cs → P g r cs) (hQ : ∀ g r cs, Q g r cs → Q' g r cs) :
    Minded source p P' Q' c ts rs d := by
  intro g r hr hon hminds hfair
  obtain ⟨g', r', ht, hq, hrest⟩ := h g r (hP g r _ hr) hon hminds hfair
  exact ⟨g', r', ht, hQ _ _ _ hq, hrest⟩

/-- Other trees may stand for those of a passage if they are attended too. -/
theorem Minded.build {q : Site} (h : Minded source p P Q c ts rs d)
    (ha : (∀ t ∈ ts, t.Attended (Paused source) p) → ∀ t ∈ us, t.Attended (Paused source) q) :
    Minded source q P Q c us rs d := by
  intro g r hr hon hminds hfair
  obtain ⟨g', r', ht, hq, hon', hts⟩ := h g r hr hon hminds hfair
  exact ⟨g', r', ht, hq, hon', ha hts⟩

/-! ## Lexemes -/

/-- A lexeme that is read as its rule means it. -/
theorem minded_token {k : Nat} (h : ∀ g r, P g r c.rest → (Reading.mk w c k).Fair r →
      ∃ g' r', Trail g r c.rest (Reading.mk w c k).kinds g' r' (c.rest.drop k) ∧
        Q g' r' (c.rest.drop k)) :
    Minded source p P Q c [] [⟨w, c, k⟩] (c.advance k) := by
  intro g r hr hon _ hfair
  obtain ⟨g', r', ht, hq⟩ := h g r hr (hfair _ List.mem_cons_self)
  rw [← rest_advance] at ht hq
  exact ⟨g', r', by simpa using ht, hq, hon.advance k, by simp⟩

theorem minded_drop {q : Peg Rule} (h : Obeys hostForm n w q (Minded source p P Q)) :
    Obeys hostForm n w (.drop q) (Minded source p P Q) :=
  obeys_drop h fun _ _ _ _ hp => hp.build (by simp)

/-- A leaf is attended anywhere. -/
theorem minded_leaf {tag : String} {q : Peg Rule} (h : Obeys hostForm n w q (Minded source p P Q)) :
    Obeys hostForm n w (.leaf tag q) (Minded source p P Q) :=
  obeys_leaf h fun _ _ _ _ hp => hp.build fun _ t ht => by
    obtain rfl := List.mem_singleton.mp ht
    exact Tree.attended_leaf

/-- Most nodes are attended if their children are. -/
theorem minded_node {tag : String} {q : Peg Rule} (htag : tag ∉ Tree.marked)
    (h : Obeys hostForm n w q (Minded source (p.as .other) P Q)) :
    Obeys hostForm n w (.node tag q) (Minded source p P Q) :=
  obeys_node h fun _ _ _ _ hp => hp.build fun ha t ht => by
    obtain rfl := List.mem_singleton.mp ht
    exact Tree.attended_node htag ha

/-- The reader is between two lexemes, and nothing is remembered. -/
def Clean (F : Frame) (ok : Option Bool → Prop) : State := fun g r cs => g = .other ∧ At F ok r cs

/-- The reader is between two lexemes. -/
def Anyhow (F : Frame) (ok : Option Bool → Prop) : State := fun _ r cs => At F ok r cs

/-- The reader is in front of what stands at `p`, and something is remembered at most if that is
awaited. -/
def Fronting (p : Site) (F : Frame) (ok : Option Bool → Prop) : State := fun g r cs =>
  (p.role = .other → g = .other) ∧ At F ok r cs

theorem Clean.fronting (p : Site) (g : Gist) (r : Reader) (cs : List Char) (h : Clean F ok g r cs) :
    Fronting p F ok g r cs := ⟨fun _ => h.1, h.2⟩

theorem Clean.anyhow (g : Gist) (r : Reader) (cs : List Char) (h : Clean F ok g r cs) :
    Anyhow F ok g r cs := h.2

theorem Fronting.anyhow (g : Gist) (r : Reader) (cs : List Char) (h : Fronting p F ok g r cs) :
    Anyhow F ok g r cs := h.2

theorem minded_calm {m : Lexeme} (hw : isCode w = true) (hm : Calm ok m) :
    Obeys hostForm n w (.token m) (Minded source p (Clean F ok) (Clean F ok)) := by
  refine obeys_token fun c k hk => minded_token fun g r hr _ => ?_
  obtain ⟨rfl, hr⟩ := hr
  obtain ⟨r', ht, hr'⟩ := hm F c.rest k hk r hr
  rw [kinds_of_isCode hw]
  exact ⟨.other, r', ht, rfl, hr'⟩

theorem minded_quiet {m : Lexeme} (hw : isCode w = true) (hm : Quiet ok m) :
    Obeys hostForm n w (.token m) (Minded source p (Anyhow F ok) (Clean F ok)) := by
  refine obeys_token fun c k hk => minded_token fun g r hr _ => ?_
  obtain ⟨r', ht, hr'⟩ := hm F c.rest k hk g r hr
  rw [kinds_of_isCode hw]
  exact ⟨.other, r', ht, rfl, hr'⟩

theorem minded_punct {s : String} (hw : isCode w = true) (hs : marks s.toList = true) :
    Obeys hostForm n w (punct s) (Minded source p (Clean F ok) (Clean F ok)) :=
  minded_drop (minded_calm hw (calm_literal hs))

/-- Punctuation that takes the reader from one place to another. -/
theorem minded_opener {s : String} (h : ∀ g r c ds, c.rest = s.toList ++ ds →
      P g r (s.toList ++ ds) → ∃ g' r', Trail g r (s.toList ++ ds)
        (Reading.mk w c s.toList.length).kinds g' r' ds ∧ Q g' r' ds) :
    Obeys hostForm n w (punct s) (Minded source p P Q) := by
  refine minded_drop (obeys_token fun c k hk => minded_token fun g r hr _ => ?_)
  obtain ⟨hcs, rfl⟩ := literal_eq_some hk
  rw [hcs] at hr
  obtain ⟨g', r', ht, hq⟩ := h g r c _ hcs hr
  rw [← hcs] at ht
  exact ⟨g', r', ht, hq⟩

/-- **White space and comments** leave what is remembered as it is. -/
theorem minded_gap (h : ∀ g r cs, P g r cs → ∃ r', Along r cs (gapKinds cs) r'
      (cs.drop (gapKinds cs).length) ∧ P g r' (cs.drop (gapKinds cs).length)) (n : Nat) :
    Obeys hostForm n .blank (hostForm .blank) (Minded source p P P) := by
  refine minded_drop (obeys_token fun c k hk => minded_token fun g r hr _ => ?_)
  obtain rfl : gapLength c.rest = k := Option.some.inj hk
  rw [← length_gapKinds]
  obtain ⟨r', ha, hr'⟩ := h g r c.rest hr
  exact ⟨g, r', ha.still (coded_gapKinds _) (not_mem_gapKinds _) g, hr'⟩

theorem Clean.gap (g : Gist) (r : Reader) (cs : List Char) (h : Clean F ok g r cs) :
    ∃ r', Along r cs (gapKinds cs) r' (cs.drop (gapKinds cs).length) ∧
      Clean F ok g r' (cs.drop (gapKinds cs).length) := by
  obtain ⟨r', ha, hr'⟩ := At.gap r cs h.2
  exact ⟨r', ha, h.1, hr'⟩

theorem minded_blank : Obeys hostForm n w blank (Minded source p (Clean F ok) (Clean F ok)) :=
  obeys_reference (minded_gap Clean.gap)

theorem minded_end (hok : ok none) (n : Nat) : Obeys hostForm n .endOfStatement
    (hostForm .endOfStatement) (Minded source p (Clean F ok) (Clean F ok)) := by
  refine minded_drop (obeys_token fun c k hk => minded_token fun g r hr hfair => ?_)
  obtain ⟨rfl, hr⟩ := hr
  have hlen := map_length_kinds.1 c.rest
  rw [hk] at hlen
  obtain ⟨ks, hks, rfl⟩ := Option.map_eq_some_iff.mp hlen
  have hkinds : (Reading.mk Rule.endOfStatement c ks.length).kinds = ks := by
    simp [Reading.kinds, hks]
  have hproper : properEnd? c.rest = some ks := by rw [← hks]; exact (hfair.proper rfl).symm
  obtain ⟨r', ha, hr'⟩ := along_properEnd hr hok hproper
  rw [hkinds]
  exact ⟨.other, r', ha.calm (coded_properEnd? hproper), rfl, hr'⟩

/-! ## Plain rules -/

mutual

/-- Whether an expression builds only nodes that are the sum of their parts. -/
def Unmarked : Peg Rule → Bool
  | .token _ | .rule _ => true
  | .seq ps | .choice ps => UnmarkedAll ps
  | .many p | .optional p | .leaf _ p | .drop p => Unmarked p
  | .node tag p => !Tree.marked.contains tag && Unmarked p

def UnmarkedAll : List (Peg Rule) → Bool
  | [] => true
  | p :: ps => Unmarked p && UnmarkedAll ps

end

/-- A part of a plain rule is minded if every rule that it refers to is. -/
theorem minded_plain (hp : p.role = .other) (hw : isCode w = true)
    (ih : ∀ name, isPart name = true →
      Obeys hostForm n w (.rule name) (Minded source p (Clean F ok) (Clean F ok))) :
    ∀ q, PlainPeg (Calm ok) q → Unmarked q = true →
      Obeys hostForm n w q (Minded source p (Clean F ok) (Clean F ok))
  | .token _, h, _ => minded_calm hw h
  | .seq ps, h, hu => obeys_seq (ObeysSeq.of_closed (Minded.closed _) (all ps h hu))
  | .choice ps, h, hu => obeys_choice (all ps h hu)
  | .many q, h, hu => obeys_many (Minded.closed _) (minded_plain hp hw ih q h hu)
  | .optional q, h, hu => obeys_optional (Minded.nil _) (minded_plain hp hw ih q h hu)
  | .rule name, h, _ => ih name h
  | .node tag q, h, hu => by
    simp only [Unmarked, Bool.and_eq_true, Bool.not_eq_true', List.contains_eq_mem,
      decide_eq_false_iff_not] at hu
    refine minded_node hu.1 ?_
    rw [show p.as .other = p by rw [← hp]; rfl]
    exact minded_plain hp hw ih q h.2.2 hu.2
  | .leaf _ q, h, hu => minded_leaf (minded_plain hp hw ih q h.2 hu)
  | .drop q, h, hu => minded_drop (minded_plain hp hw ih q h hu)
where
  all : ∀ qs, PlainPegs (Calm ok) qs → UnmarkedAll qs = true →
      ∀ q ∈ qs, Obeys hostForm n w q (Minded source p (Clean F ok) (Clean F ok))
  | [], _, _ => by simp
  | q :: qs, h, hu => by
    simp only [UnmarkedAll, Bool.and_eq_true] at hu
    intro x hx
    rcases List.mem_cons.mp hx with hxq | hx
    · rw [hxq]
      exact minded_plain hp hw ih q h.1 hu.1
    · exact all qs h.2 hu.2 x hx


theorem unmarked_hostForm {name : Rule} (h : isPlain name = true) (hl : isLinked name = false)
    (hp : name ≠ .postfixed) (ha : name ≠ .access) : Unmarked (hostForm name) = true := by
  cases name with
  | postfixed => exact absurd rfl hp
  | access => exact absurd rfl ha
  | _ => first | rfl | exact Bool.noConfusion h | exact Bool.noConfusion hl

theorem unmarked_part {name : Rule} {tag : String} {q : Peg Rule} (h : isLinked name = true)
    (hq : hostForm name = .node tag q) : Unmarked q = true := by
  cases name with
  | binary l =>
    obtain ⟨-, rfl⟩ := Peg.node.inj hq
    cases l <;> rfl
  | expression | assignment | conditional | varDecl =>
    obtain ⟨-, rfl⟩ := Peg.node.inj hq
    rfl
  | _ => cases h

/-- A node with a first child and its tails. -/
theorem minded_linked {name : Rule} (hl : isLinked name = true) (hp : p.role = .other)
    (hok : ok none)
    (ih : ∀ name', isPart name' = true →
      Obeys hostForm n name (.rule name') (Minded source p (Clean F ok) (Clean F ok))) :
    Obeys hostForm n name (hostForm name) (Minded source p (Clean F ok) (Clean F ok)) := by
  have hplain : isPlain name = true := by cases name <;> first | rfl | cases hl
  have hcode : isCode name = true := by cases name <;> first | rfl | cases hl
  have hpeg := (lexemes_calm hok).plainPeg hplain
  obtain ⟨tag, q, heq, htag, hlinked⟩ := linked_parts hl
  have hunmarked := unmarked_part hl heq
  rw [heq] at hpeg ⊢
  have hparts : Obeys hostForm n name q (Minded source p (Clean F ok) (Clean F ok)) :=
    minded_plain hp hcode ih q hpeg.2.2 hunmarked
  refine obeys_node (hparts.and (hlinked n name)) fun c ts rs d h => h.1.build fun ha t ht => ?_
  obtain rfl := List.mem_singleton.mp ht
  refine Tree.attended_linked htag h.2 fun t ht => ?_
  rw [show p.as .other = p by rw [← hp]; rfl]
  exact ha t ht

/-! ## Places -/

/-- What the reader has open at a place `p` of a tree. -/
structure Covers (F : Frame) (p : Site) : Prop where
  sound : F.Sound
  suspendable : p.inAsync = true → F.suspendable = true
  interpolations : p.inTemplate = false → F.interpolations = []

theorem Covers.as (h : Covers F p) (role : Role) : Covers F (p.as role) :=
  ⟨h.sound, h.suspendable, h.interpolations⟩

theorem Covers.braced (h : Covers F p) : Covers (F.braced none) p :=
  ⟨h.sound.braced none, h.suspendable, h.interpolations⟩

/-- The body of a function. -/
theorem Covers.body (h : Covers F p) (a : Bool) :
    Covers (F.braced (some a)) ⟨a, p.inTemplate, .other⟩ :=
  ⟨h.sound.braced _, fun ha => ha, h.interpolations⟩

theorem Covers.interpolated (h : Covers F p) (ht : p.inTemplate = true) :
    Covers F.interpolated p :=
  ⟨h.sound.interpolated, h.suspendable, fun hn => Bool.noConfusion (ht.symm.trans hn)⟩

/-! ## Braces and templates -/

/-- A block, which opens the body of the pending declaration `q` if there is one. -/
theorem minded_block {q : Option Bool} (hF : F.Sound) (hp : p.role = .other)
    (ih : Obeys hostForm n .block (.rule .item)
      (Minded source p (Clean (F.braced q) (· = none)) (Clean (F.braced q) (· = none)))) :
    Obeys hostForm n .block (hostForm .block)
      (Minded source p (Clean F (· = q)) (Clean F (· = none))) := by
  refine minded_node (by decide) ?_
  rw [show p.as .other = p by rw [← hp]; rfl]
  refine obeys_seq (minded_cons (Q := Clean (F.braced q) (· = none)) ?opening
    (minded_cons (obeys_many (Minded.closed _) ih) (minded_cons minded_blank
      (minded_cons ?closing (minded_nil _)))))
  case opening =>
    refine minded_opener fun g r c ds _ hr => ?_
    obtain ⟨rfl, hr⟩ := hr
    obtain ⟨p', r', rfl, ha, hr'⟩ := along_openBrace hr
    exact ⟨.other, r', ha.calm (coded_cons.mpr ⟨fun _ => by decide, coded_nil⟩), rfl,
      hr'.at ds⟩
  case closing =>
    refine minded_opener fun g r c ds _ hr => ?_
    obtain ⟨rfl, hr⟩ := hr
    obtain ⟨r', ha, hr'⟩ := along_closeBrace hF hr
    exact ⟨.other, r', ha.calm (coded_cons.mpr ⟨fun _ => by decide, coded_nil⟩), rfl,
      hr'.at ds⟩

/-- The reader is in template text. -/
def InText (F : Frame) : State := fun g r _ => g = .other ∧ Inside .template F (· = none) r

/-- A template. -/
theorem minded_template
    (ih : Obeys hostForm n .template (.rule .interpolation)
      (Minded source ⟨p.inAsync, true, .other⟩ (InText F) (InText F))) :
    Obeys hostForm n .template (hostForm .template)
      (Minded source p (Anyhow F (· = none)) (Clean F (· = none))) := by
  have children : Obeys hostForm n .template (.seq [punct "\x60",
      .many (.choice [.leaf "chunk" (.token chunk?), .rule .interpolation]), punct "\x60"])
      (Minded source ⟨p.inAsync, true, .other⟩ (Anyhow F (· = none)) (Clean F (· = none))) := by
    refine obeys_seq (minded_cons (Q := InText F) ?opening
      (minded_cons (Q := InText F) ?parts (minded_cons ?closing (minded_nil _))))
    case opening =>
      refine minded_opener fun g r c ds _ hr => ?_
      obtain ⟨r', ha, hr'⟩ := along_openTemplate hr
      exact ⟨.other, r', ha.quiet (coded_cons.mpr ⟨nofun, coded_nil⟩) (Or.inr (Or.inl rfl)) g, rfl,
        hr'⟩
    case parts =>
      refine obeys_many (Minded.closed _) (obeys_choice fun q hq => ?_)
      simp only [List.mem_cons, List.not_mem_nil, or_false] at hq
      rcases hq with rfl | rfl
      · refine minded_leaf (obeys_token fun c k hk => minded_token fun g r hr _ => ?_)
        obtain ⟨rfl, hr⟩ := hr
        have hlen : chunkLength c.rest = k := by
          unfold chunk? at hk
          dsimp only at hk
          split_ifs at hk
          exact Option.some.inj hk
        obtain ⟨r', ha, hr'⟩ := along_chunk hr c.rest
        rw [hlen] at ha
        exact ⟨.other, r', ha.calm (coded_text (k := .template) nofun k), rfl, hr'⟩
      · exact ih
    case closing =>
      refine minded_opener fun g r c ds _ hr => ?_
      obtain ⟨rfl, hr⟩ := hr
      obtain ⟨r', ha, hr'⟩ := along_closeTemplate hr ds
      exact ⟨.other, r', ha.calm (coded_cons.mpr ⟨nofun, coded_nil⟩), rfl, hr'.at ds⟩
  have bare : Obeys hostForm n .template (.seq [punct "\x60",
      .many (.choice [.leaf "chunk" (.token chunk?), .rule .interpolation]), punct "\x60"])
      (Every Tree.isBare) := by
    refine every_seq fun q hq => ?_
    simp only [List.mem_cons, List.not_mem_nil, or_false] at hq
    rcases hq with rfl | rfl | rfl
    · exact every_drop _
    · refine obeys_many (Every.closed _) (obeys_choice fun q hq => ?_)
      simp only [List.mem_cons, List.not_mem_nil, or_false] at hq
      rcases hq with rfl | rfl
      · exact every_leaf (fun _ => rfl) _
      · refine obeys_reference fun _ => every_node (fun m ts hm => ?_) _
        simp [Tree.isBare, hm]
    · exact every_drop _
  refine obeys_node (children.and bare) fun c ts rs d h => h.1.build fun ha t ht => ?_
  obtain rfl := List.mem_singleton.mp ht
  exact Tree.attended_siting (show "template" ∈ Tree.siting by decide)
    (fun t ht => h.2 t (List.mem_of_mem_head? ht)) ha

/-- An interpolation. -/
theorem minded_interpolation (hF : F.Sound) (hp : p.role = .other)
    (ih : Obeys hostForm n .interpolation (.rule .expression)
      (Minded source p (Clean F.interpolated (· = none)) (Clean F.interpolated (· = none)))) :
    Obeys hostForm n .interpolation (hostForm .interpolation)
      (Minded source p (InText F) (InText F)) := by
  refine minded_node (by decide) ?_
  rw [show p.as .other = p by rw [← hp]; rfl]
  refine obeys_seq (minded_cons (Q := Clean F.interpolated (· = none)) ?opening
    (minded_cons minded_blank (minded_cons ih (minded_cons minded_blank
      (minded_cons ?closing (minded_nil _))))))
  case opening =>
    refine minded_opener fun g r c ds _ hr => ?_
    obtain ⟨rfl, hr⟩ := hr
    obtain ⟨r', ha, hr'⟩ := along_openInterpolation hr ds
    exact ⟨.other, r', ha.calm (coded_cons.mpr ⟨nofun, coded_cons.mpr ⟨nofun, coded_nil⟩⟩), rfl,
      hr'.at ds⟩
  case closing =>
    refine minded_opener fun g r c ds _ hr => ?_
    obtain ⟨rfl, hr⟩ := hr
    obtain ⟨r', ha, hr'⟩ := along_closeInterpolation hF hr
    exact ⟨.other, r', ha.calm (coded_cons.mpr ⟨nofun, coded_nil⟩), rfl, hr'⟩


/-! ## What an access starts with -/

theorem minded_string : Obeys hostForm n .string (hostForm .string)
    (Minded source p (Anyhow F ok) (Clean F ok)) := by
  refine minded_leaf (obeys_token fun c k hk => minded_token fun g r hr _ => ?_)
  obtain ⟨r', ha, hr'⟩ := along_string hr hk
  refine ⟨.other, r', ?_, rfl, hr'⟩
  change Trail g r c.rest (List.replicate k .string) .other r' (c.rest.drop k)
  generalize c.rest.drop k = ds at ha
  cases hcs : c.rest with
  | nil =>
    rw [hcs] at hk
    cases hk
  | cons x xs =>
    rw [hcs] at hk ha
    unfold string? at hk
    dsimp only at hk
    split_ifs at hk
    obtain ⟨j, -, rfl⟩ := Option.map_eq_some_iff.mp hk
    have hcoded : Coded isCalm (x :: xs) (List.replicate (j + 1) .string) :=
      coded_text (k := .string) nofun _
    exact ha.quiet hcoded (Or.inl rfl) g

theorem minded_identifier : Obeys hostForm n .identifier (hostForm .identifier)
    (Minded source p (Anyhow F ok) (Clean F ok)) :=
  minded_leaf (minded_quiet rfl quiet_identifier)

/-- A node that a mark opens. -/
theorem minded_enclosed {tag s : String} {qs : List (Peg Rule)} (hp : p.role = .other)
    (hw : isCode w = true) (hs : marks s.toList = true) (hne : s.toList ≠ [])
    (ih : ∀ name, isPart name = true →
      Obeys hostForm n w (.rule name) (Minded source p (Clean F ok) (Clean F ok)))
    (h : PlainPeg (Calm ok) (.node tag (.seq (punct s :: qs))))
    (hu : Unmarked (.node tag (.seq (punct s :: qs))) = true) :
    Obeys hostForm n w (.node tag (.seq (punct s :: qs)))
      (Minded source p (Anyhow F ok) (Clean F ok)) := by
  simp only [Unmarked, UnmarkedAll, Bool.and_eq_true, Bool.not_eq_true', List.contains_eq_mem,
    decide_eq_false_iff_not] at hu
  refine minded_node hu.1 ?_
  rw [show p.as .other = p by rw [← hp]; rfl]
  refine obeys_seq (minded_cons (minded_drop (minded_quiet hw (quiet_literal hs hne)))
    (ObeysSeq.of_closed (Minded.closed _) ?_))
  exact minded_plain.all hp hw ih qs h.2.2.2 hu.2.2

/-- **What an access starts with.** -/
theorem minded_primary
    (ih : ∀ name ∈ [Rule.string, .template, .array, .group, .identifier],
      Obeys hostForm n .primary (.rule name)
        (Minded source p (Anyhow F (· = none)) (Clean F (· = none)))) :
    Obeys hostForm n .primary (hostForm .primary)
      (Minded source p (Anyhow F (· = none)) (Clean F (· = none))) := by
  have word {s : String} (hs : isName s.toList = true) (hb : s ∉ boundWords) :
      Quiet (· = none) (.word s) := quiet_word hs hb
  refine obeys_choice fun q hq => ?_
  simp only [List.mem_cons, List.not_mem_nil, or_false] at hq
  rcases hq with rfl | rfl | rfl | rfl | rfl | rfl | rfl | rfl | rfl
  · exact minded_leaf (minded_quiet rfl quiet_numeral)
  · exact ih _ (by simp)
  · exact ih _ (by simp)
  · refine minded_leaf (minded_quiet rfl (quiet_firstOf fun m hm => ?_))
    simp only [List.mem_cons, List.not_mem_nil, or_false] at hm
    rcases hm with rfl | rfl <;> exact word (by decide) (by decide)
  · exact minded_leaf (minded_quiet rfl (word (by decide) (by decide)))
  · exact minded_leaf (minded_quiet rfl (word (by decide) (by decide)))
  · exact ih _ (by simp)
  · exact ih _ (by simp)
  · exact ih _ (by simp)

/-! ## Members -/

/-- The reader is behind the point of a member access. -/
def Beyond (F : Frame) : State := fun _ r cs => AfterPoint F (· = none) r cs

/-- A member access: the name behind the point is none that means something. -/
theorem minded_memberAccess : Obeys hostForm n .memberAccess (hostForm .memberAccess)
    (Minded source p (Clean F (· = none)) (Clean F (· = none))) := by
  refine minded_node (by decide) (obeys_seq (minded_cons minded_blank
    (minded_cons (Q := Beyond F) ?point (minded_cons (obeys_reference (minded_gap ?gap))
      (minded_cons (minded_leaf ?name) (minded_nil _))))))
  case point =>
    refine minded_opener fun g r c ds _ hr => ?_
    obtain ⟨r', ha, ho, hm⟩ := along_point hr.2
    obtain ⟨g', ht⟩ := ha.trail g
    exact ⟨g', r', ht, ho, Or.inl hm⟩
  case gap => exact fun g r cs hr => along_gap_afterPoint hr
  case name =>
    refine obeys_token fun c k hk => minded_token fun g r hr hfair => ?_
    have hmember := (hfair.told (take_ne_nil_of_property? hk)).mpr rfl
    obtain ⟨r', ht, hr'⟩ := trail_property hr hk hmember (hfair.named rfl) g
    exact ⟨.other, r', ht, rfl, hr'⟩

/-! ## Accesses -/

/-- The text in front of a place of a source. -/
theorem Cursor.On.before (h : c.On source) : ∃ xs, source = xs ++ c.rest := by
  obtain ⟨k, rfl⟩ := h
  refine ⟨source.take k, ?_⟩
  rw [rest_advance]
  exact (List.take_append_drop k source).symm

/-- **A pause is heard**: where an access starts with a call of `delay`, the reader is kept from
awaiting it. -/
theorem heard_of_minds {g : Gist} (hF : Covers F p) (hr : Fronting p F (· = none) g r c.rest)
    (hon : c.On source) (hminds : Minds g r c.rest) (hd : d = c.advance n)
    (hprimary : Primary c ts rs d) (hlinks : Links d us ss e) :
    Tree.Heard (Paused source) p (ts ++ us) := by
  obtain ⟨first, tag, rfl, htag, htext, hgroup⟩ := hprimary
  cases us with
  | nil => trivial
  | cons tail us =>
    rintro - ⟨l, hloc, hpaused⟩
    obtain rfl : d.loc = l := Option.some.inj ((hlinks.2.1 tail rfl).symm.trans hloc)
    obtain ⟨hpeek, before, hsource⟩ := hpaused.at (hd ▸ hon.advance n)
    refine ⟨⟨tag, hgroup.resolve_right ?_, htag⟩, fun hdelay hlonely => ?_⟩
    · -- in front of the call stands `delay`, and no parenthesis
      rintro ⟨xs, hxs⟩
      obtain ⟨ys, hys⟩ := hon.before
      rw [hys, hxs] at hsource
      have hlast : (ys ++ xs) ++ [')'] = (before ++ "dela".toList) ++ ['y'] := by
        refine (List.append_left_inj d.rest).mp ?_
        simpa using hsource
      have := congrArg List.getLast? hlast
      simp at this
    · have htake : c.rest.take n = "delay".toList := by
        rw [hd, upTo_advance] at htext
        have := Except.ok.inj (htext.symm.trans hdelay)
        rw [← String.toList_ofList (l := c.rest.take n), this]
      have hrest : c.rest = "delay".toList ++ d.rest := by
        rw [← htake, hd, rest_advance, List.take_append_drop]
      have hat := hr.2
      have hstop := stopsRun_of_peekChar? hpeek (isNameChar_of_isAsciiMark (by decide))
      rw [hrest] at hat
      refine hminds.mindful _ hrest ⟨?_, by decide, d.rest, hrest, hstop, ?_⟩ hpeek ?_ ?_
        (hr.1 hlonely.2.2)
      · exact hat.code
      · rw [hrest]
        rintro x ⟨⟩
        exact not_goesOn_of_isNameStart hat.between (by decide)
      · rw [hr.2.toOpen.suspendable]
        exact hF.suspendable hlonely.1
      · rw [hr.2.interpolations]
        exact hF.interpolations hlonely.2.1


/-- **An access** begins with a pause only where that is awaited. -/
theorem minded_access (hF : Covers F p)
    (hprimary : Obeys hostForm n .access (.rule .primary)
      (Minded source (p.as .other) (Anyhow F (· = none)) (Clean F (· = none))))
    (ih : ∀ name ∈ [Rule.callArguments, .memberAccess, .indexAccess],
      Obeys hostForm n .access (.rule name)
        (Minded source (p.as .other) (Clean F (· = none)) (Clean F (· = none)))) :
    Obeys hostForm n .access (hostForm .access)
      (Minded source p (Fronting p F (· = none)) (Clean F (· = none))) := by
  have links : Obeys hostForm n .access
      (.many (.choice [.rule .callArguments, .rule .memberAccess, .rule .indexAccess]))
      (Minded source (p.as .other) (Clean F (· = none)) (Clean F (· = none))) := by
    refine obeys_many (Minded.closed _) (obeys_choice fun q hq => ?_)
    simp only [List.mem_cons, List.not_mem_nil, or_false] at hq
    rcases hq with rfl | rfl | rfl <;> exact ih _ (by simp)
  refine obeys_node (obeys_seq (ObeysSeq.cons
    ((hprimary.and (obeys_primaryRule n .access)).and (onward n .access _))
    (ObeysSeq.cons (links.and (obeys_links n .access))
      (ObeysSeq.nil (A := fun c ts rs d => ts = [] ∧ rs = [] ∧ d = c) fun _ => ⟨rfl, rfl, rfl⟩)))) ?_
  rintro c ts rs d ⟨e, ts₁, ts₂, rs₁, rs₂, ⟨⟨h₁, hp⟩, k, hk⟩,
    ⟨_, us, _, ss, _, ⟨h₂, hl⟩, ⟨rfl, rfl, rfl⟩, rfl, rfl⟩, rfl, rfl⟩
  rw [List.append_nil, List.append_nil]
  intro g r hr hon hminds hfair
  obtain ⟨g', r', ht, hq, hon', ha⟩ := (h₁.append h₂) g r hr.2 hon hminds hfair
  refine ⟨g', r', ht, hq, hon', fun t ht => ?_⟩
  obtain rfl := List.mem_singleton.mp ht
  refine Tree.attended_access rfl (heard_of_minds hF hr hon hminds hk hp hl) ?_ ha
  obtain ⟨first, tag, rfl, -⟩ := hp
  exact hl.2.2

/-- An access and what updates it. -/
theorem minded_postfixed
    (ih : Obeys hostForm n .postfixed (.rule .access)
      (Minded source p (Fronting p F (· = none)) (Clean F (· = none)))) :
    Obeys hostForm n .postfixed (hostForm .postfixed)
      (Minded source p (Fronting p F (· = none)) (Clean F (· = none))) := by
  have update : Obeys hostForm n .postfixed (.optional (op updateOperator))
      (Minded source p (Clean F (· = none)) (Clean F (· = none))) := by
    have lexemes : Lexemes (Calm (· = none)) := lexemes_calm rfl
    exact obeys_optional (Minded.nil _) (minded_leaf (minded_calm rfl lexemes.updateOperator))
  refine obeys_node (obeys_seq (minded_cons ih (minded_cons update (minded_nil _))))
    fun c ts rs d h => h.build fun ha t ht => ?_
  obtain rfl := List.mem_singleton.mp ht
  exact Tree.attended_postfix rfl ha

/-! ## Unary operators -/

/-- Behind an operator something is remembered at most if it is `await`. -/
def Behind (b : Bool) (F : Frame) : State := fun g r cs =>
  (b = false → g = .other) ∧ At F (· = none) r cs

/-- The passage of an operator, which is `await` as `b` says. -/
def Awaits (source : List Char) (F : Frame) (b : Bool) : Passage Rule := fun c ts rs d =>
  (∃ m, ts = [.leaf m]) ∧ (∀ us, Tree.awaitFirst (ts ++ us) = b) ∧
    ∀ p, Minded source p (Anyhow F (· = none)) (Behind b F) c ts rs d

theorem trail_unaryOperator {k : Nat} (hk : unaryOperator cs = some k)
    (hr : At F (· = none) r cs) (g : Gist) :
    ∃ g' r', Trail g r cs (List.replicate k .code) g' r' (cs.drop k) ∧
      (String.ofList (cs.take k) ≠ "await" → g' = .other) ∧ At F (· = none) r' (cs.drop k) := by
  have quiet {m : Lexeme} (hm : Quiet (· = none) m) (hk : m cs = some k) :
      ∃ g' r', Trail g r cs (List.replicate k .code) g' r' (cs.drop k) ∧
        (String.ofList (cs.take k) ≠ "await" → g' = .other) ∧ At F (· = none) r' (cs.drop k) := by
    obtain ⟨r', ht, hr'⟩ := hm F cs k hk g r hr
    exact ⟨.other, r', ht, fun _ => rfl, hr'⟩
  obtain ⟨m, hm, hmk⟩ := List.exists_of_findSome?_eq_some hk
  simp only [List.mem_cons, List.not_mem_nil, or_false] at hm
  rcases hm with rfl | rfl | rfl | rfl | rfl | rfl | rfl | rfl
  · exact quiet (quiet_literal (by decide) (by decide)) hmk
  · exact quiet (quiet_literal (by decide) (by decide)) hmk
  · exact quiet (quiet_literal (by decide) (by decide)) hmk
  · exact quiet (quiet_literal (by decide) (by decide)) hmk
  · exact quiet (quiet_literal (by decide) (by decide)) hmk
  · exact quiet (quiet_literal (by decide) (by decide)) hmk
  · exact quiet (quiet_word (by decide) (by decide)) hmk
  · obtain ⟨hlit, hstop⟩ := word_eq_some hmk
    have htake := take_literal hlit
    obtain ⟨hcs, rfl⟩ := literal_eq_some hlit
    rw [hcs] at hr
    obtain ⟨r', ht, hr'⟩ := trail_name hr (by decide) hstop (by decide) (by decide) g
    rw [← hcs] at ht
    refine ⟨_, r', ht, fun hne => absurd ?_ hne, hr'.at _⟩
    rw [htake, String.ofList_toList]

theorem minded_unaryOperator : Obeys hostForm n .unary (op unaryOperator)
    (fun c ts rs d => ∃ b, Awaits source F b c ts rs d) := by
  have token : Obeys hostForm n .unary (.token unaryOperator) (fun c ts rs d => ∀ p,
      Minded source p (Anyhow F (· = none)) (Behind (c.upTo d == "await") F) c ts rs d) := by
    refine obeys_token fun c k hk p => minded_token fun g r hr _ => ?_
    obtain ⟨g', r', ht, hg, hr'⟩ := trail_unaryOperator hk hr g
    refine ⟨g', r', ht, fun hb => hg ?_, hr'⟩
    rw [upTo_advance] at hb
    simpa using hb
  refine obeys_leaf token fun c ts rs d h => ⟨_, ⟨_, rfl⟩, fun us => rfl, fun p => ?_⟩
  refine (h p).build fun _ t ht => ?_
  obtain rfl := List.mem_singleton.mp ht
  exact Tree.attended_leaf

theorem Fronting.gap (g : Gist) (r : Reader) (cs : List Char) (h : Fronting p F ok g r cs) :
    ∃ r', Along r cs (gapKinds cs) r' (cs.drop (gapKinds cs).length) ∧
      Fronting p F ok g r' (cs.drop (gapKinds cs).length) := by
  obtain ⟨r', ha, hr'⟩ := At.gap r cs h.2
  exact ⟨r', ha, h.1, hr'⟩

/-- **A unary expression**: what stands behind an `await` is awaited. -/
theorem minded_unary
    (ih : ∀ role, Obeys hostForm n .unary (.rule .unary)
      (Minded source (p.as role) (Fronting (p.as role) F (· = none)) (Clean F (· = none))))
    (hpostfixed : Obeys hostForm n .unary (.rule .postfixed)
      (Minded source p (Fronting p F (· = none)) (Clean F (· = none)))) :
    Obeys hostForm n .unary (hostForm .unary)
      (Minded source p (Fronting p F (· = none)) (Clean F (· = none))) := by
  refine obeys_choice fun q hq => ?_
  simp only [List.mem_cons, List.not_mem_nil, or_false] at hq
  rcases hq with rfl | rfl
  · have operand : ObeysSeq hostForm n .unary [blank, .rule .unary] (fun c ts rs d => ∀ role,
        Minded source (p.as role) (Fronting (p.as role) F (· = none)) (Clean F (· = none))
          c ts rs d) := fun m hm c ts d hrun role =>
      minded_cons (obeys_reference (minded_gap Fronting.gap))
        (minded_cons (ih role) (minded_nil _)) m hm c ts d hrun
    have operator : Obeys hostForm n .unary (op unaryOperator)
        (fun c ts rs d => ∃ b, Awaits source F b c ts rs d) := minded_unaryOperator
    refine obeys_node (obeys_seq (ObeysSeq.cons operator operand)) ?_
    rintro c ts rs d ⟨e, ts₁, ts₂, rs₁, rs₂, ⟨b, ⟨m, rfl⟩, hawait, h₁⟩, h₂, rfl, rfl⟩
    have hbehind : Minded source (p.as (if b then .operand else .other)) (Fronting p F (· = none))
        (Fronting (p.as (if b then .operand else .other)) F (· = none)) c [.leaf m] rs₁ e := by
      refine (h₁ _).mono Fronting.anyhow fun g r cs hr => ⟨fun hrole => hr.1 ?_, hr.2⟩
      cases b with
      | false => rfl
      | true => cases hrole
    refine (hbehind.append (h₂ _)).build fun ha t ht => ?_
    obtain rfl := List.mem_singleton.mp ht
    refine Tree.attended_siting (show "unary" ∈ Tree.siting by decide) ?_ fun t ht => ?_
    · rintro t ⟨⟩
      rfl
    · have hinner : Tree.inner p "unary" ([.leaf m] ++ ts₂) =
          p.as (if b then .operand else .other) := by
        rw [← hawait ts₂]
        rfl
      exact hinner ▸ ha t ht
  · exact hpostfixed

/-! ## Function declarations -/

/-- The reader is in front of the word `function`, behind `async` as `a` says. -/
structure Heads (F : Frame) (a : Bool) (r : Reader) (cs : List Char) : Prop where
  depth : r.scanner.nesting.depth = F.depth
  bodies : r.scanner.nesting.bodies = F.bodies
  interpolations : r.scanner.interpolations = F.interpolations
  lead : (r.lead == .async) = a
  between : Between r cs

/-- The same, whatever is remembered. -/
def Headed (F : Frame) (a : Bool) : State := fun _ r cs => Heads F a r cs

theorem Clean.headed (g : Gist) (r : Reader) (cs : List Char) (h : Clean F ok g r cs) :
    Headed F false g r cs :=
  ⟨h.2.depth, h.2.bodies, h.2.interpolations, by simpa using h.2.lead, h.2.between⟩

theorem Headed.gap {a : Bool} (g : Gist) (r : Reader) (cs : List Char) (h : Headed F a g r cs) :
    ∃ r', Along r cs (gapKinds cs) r' (cs.drop (gapKinds cs).length) ∧
      Headed F a g r' (cs.drop (gapKinds cs).length) := by
  obtain ⟨r', ha, hs', hb'⟩ := along_gap h.between
  refine ⟨r', ha, ?_, ?_, ?_, ?_, hb'⟩
  · rw [hs'.nesting, h.depth]
  · rw [hs'.nesting, h.bodies]
  · rw [hs'.interpolations, h.interpolations]
  · rw [hs'.lead, h.lead]

theorem Anyhow.gap (g : Gist) (r : Reader) (cs : List Char) (h : Anyhow F ok g r cs) :
    ∃ r', Along r cs (gapKinds cs) r' (cs.drop (gapKinds cs).length) ∧
      Anyhow F ok g r' (cs.drop (gapKinds cs).length) :=
  At.gap r cs h

/-- The word `async` in front of a function. -/
theorem minded_async : Obeys hostForm n .functionDecl (.leaf "async" (.token (.word "async")))
    (Minded source p (Clean F (· = none)) (Headed F true)) := by
  refine minded_leaf (obeys_token fun c k hk => minded_token fun g r hr hfair => ?_)
  obtain ⟨hlit, hstop⟩ := word_eq_some hk
  obtain ⟨hcs, rfl⟩ := literal_eq_some hlit
  have htext : c.rest.take "async".toList.length ≠ [] := by
    rw [hcs, List.take_left]
    decide
  have hmember : r.members c.rest.length = false := by
    simpa using hfair.told htext
  have hr := hr.2
  rw [hcs] at hr
  have hg : ∀ x ∈ "async".toList.head?, ¬ r.GoesOn x := by
    rintro x ⟨⟩
    exact not_goesOn_of_isNameStart hr.between (by decide)
  have hstep := step_word hr.code (by decide) hg hstop
  rw [← hcs] at hstep
  obtain ⟨g', ht⟩ := hstep.trail g
  refine ⟨g', _, ht, ?_⟩
  have heq : String.ofList "async".toList = "async" := by simp
  unfold Reader.word
  rw [heq, if_neg (by decide), if_pos rfl, hmember]
  exact ⟨hr.depth, hr.bodies, hr.interpolations, rfl, Or.inl hr.code, nofun⟩

/-- **The word `function`** declares a body that suspends behind `async`. -/
theorem minded_function {a : Bool} : Obeys hostForm n .functionDecl (keyword "function")
    (Minded source p (Headed F a) (Anyhow F (· = some a))) := by
  refine minded_drop (obeys_token fun c k hk => minded_token fun g r hr _ => ?_)
  obtain ⟨hlit, hstop⟩ := word_eq_some hk
  obtain ⟨hcs, rfl⟩ := literal_eq_some hlit
  have hb := hr.between
  rw [hcs] at hb
  have hg : ∀ x ∈ "function".toList.head?, ¬ r.GoesOn x := by
    rintro x ⟨⟩
    exact not_goesOn_of_isNameStart hb (by decide)
  have hstep := step_word hb.code (by decide) hg hstop
  rw [← hcs] at hstep
  obtain ⟨g', ht⟩ := hstep.trail g
  refine ⟨g', _, ht, ?_⟩
  have heq : String.ofList "function".toList = "function" := by simp
  unfold Reader.word
  rw [heq, if_pos rfl]
  exact ⟨⟨hr.depth, hr.bodies, hr.interpolations, congrArg some hr.lead, nofun⟩, Or.inl hb.code,
    nofun⟩

theorem minded_name : Obeys hostForm n w (.rule .identifier)
    (Minded source p (Anyhow F ok) (Clean F ok)) :=
  obeys_reference fun _ => minded_identifier

/-- What comes behind `async`, or stands alone. -/
theorem minded_functionParts {a : Bool}
    (ih : Obeys hostForm n .functionDecl (.rule .block)
      (Minded source p (Clean F (· = some a)) (Clean F (· = none)))) :
    ObeysSeq hostForm n .functionDecl functionParts
      (Minded source p (Headed F a) (Clean F (· = none))) := by
  have name : Obeys hostForm n .functionDecl (.rule .identifier)
      (Minded source p (Clean F (· = some a)) (Clean F (· = some a))) :=
    minded_name.weaken fun _ _ _ _ h => h.mono Clean.anyhow fun _ _ _ hr => hr
  have more : Obeys hostForm n .functionDecl (moreBehindCommas (.rule .identifier))
      (Minded source p (Clean F (· = some a)) (Clean F (· = some a))) :=
    obeys_many (Minded.closed _) (obeys_seq (minded_cons minded_blank
      (minded_cons (minded_punct rfl (by decide)) (minded_cons minded_blank
        (minded_cons name (minded_nil _))))))
  have params := obeys_optional (Minded.nil _)
    (obeys_seq (minded_cons name (minded_cons more (minded_nil _))))
  exact minded_cons (obeys_reference (minded_gap Headed.gap)) (minded_cons minded_function
    (minded_cons (obeys_reference (minded_gap Anyhow.gap)) (minded_cons minded_name
      (minded_cons minded_blank (minded_cons (minded_punct rfl (by decide))
        (minded_cons minded_blank (minded_cons params
          (minded_cons minded_blank (minded_cons (minded_punct rfl (by decide))
            (minded_cons minded_blank (minded_cons ih (minded_nil _))))))))))))

/-- The passage of the mark of an async function, if there is one. -/
def Starting (source : List Char) (F : Frame) : Passage Rule := fun c ts rs d =>
  ∃ a, (∀ us, Marked false us → Marked a (ts ++ us)) ∧
    ∀ p, Minded source p (Clean F (· = none)) (Headed F a) c ts rs d

/-- **A function declaration**: in its body pauses are awaited if it is async. -/
theorem minded_functionDecl
    (ih : ∀ a, Obeys hostForm n .functionDecl (.rule .block)
      (Minded source ⟨a, p.inTemplate, .other⟩ (Clean F (· = some a)) (Clean F (· = none)))) :
    Obeys hostForm n .functionDecl (hostForm .functionDecl)
      (Minded source p (Clean F (· = none)) (Clean F (· = none))) := by
  have mark : Obeys hostForm n .functionDecl
      (.optional (.leaf "async" (.token (.word "async")))) (Starting source F) := by
    refine obeys_optional (fun c => ?_) ?_
    · exact ⟨false, fun us h => h, fun p =>
        (Minded.nil _ c).mono (fun _ _ _ h => h) Clean.headed⟩
    · exact fun m hm c ts d hrun =>
        ⟨true, fun us _ => (obeys_async (b := true) (F := F) m hm c ts d hrun).1 us,
          fun p => minded_async m hm c ts d hrun⟩
  have parts : ObeysSeq hostForm n .functionDecl functionParts (fun c ts rs d =>
      (∀ a, Minded source ⟨a, p.inTemplate, .other⟩ (Headed F a) (Clean F (· = none)) c ts rs d) ∧
        Marked false ts) :=
    fun m hm c ts d hrun => ⟨fun a => minded_functionParts (ih a) m hm c ts d hrun,
      obeys_unmarked (w := .functionDecl) m hm c ts d hrun⟩
  refine obeys_node (obeys_seq (ObeysSeq.cons mark parts)) ?_
  rintro c ts rs d ⟨e, ts₁, ts₂, rs₁, rs₂, ⟨a, hmark, h₁⟩, ⟨h₂, hnone⟩, rfl, rfl⟩
  obtain ⟨hasync, hleaf⟩ := hmark ts₂ hnone
  refine ((h₁ _).append (h₂ a)).build fun ha t ht => ?_
  obtain rfl := List.mem_singleton.mp ht
  refine Tree.attended_siting (show "function-decl" ∈ Tree.siting by decide) (fun t ht => ?_)
    fun t ht => ?_
  · cases t with
    | leaf => rfl
    | node | foreign => cases hleaf _ ht
  · have hinner : Tree.inner p "function-decl" (ts₁ ++ ts₂) = ⟨a, p.inTemplate, .other⟩ := by
      rw [← hasync]
      rfl
    exact hinner ▸ ha t ht


/-! ## The walk -/

/-- The rules of what an access starts with. -/
def isFirst : Rule → Bool
  | .primary | .group | .array | .string | .template | .identifier => true
  | _ => false

/-- The rules of what an `await` may wait for. -/
def isOperand : Rule → Bool
  | .unary | .postfixed | .access => true
  | _ => false

/-- Where the reader is in front of a rule at `p`. -/
def entry (p : Site) (F : Frame) (name : Rule) : State :=
  if isFirst name then Anyhow F (· = none)
  else if isOperand name then Fronting p F (· = none)
  else Clean F (· = none)

theorem Clean.entry {name : Rule} (g : Gist) (r : Reader) (cs : List Char)
    (h : Clean F (· = none) g r cs) : entry p F name g r cs := by
  unfold Grammar.entry
  split_ifs
  · exact h.anyhow
  · exact h.fronting p
  · exact h

/-- What all rules mean with some fuel. -/
structure Walked (source : List Char) (n : Nat) : Prop where
  part : ∀ (F : Frame) (p : Site) (w name : Rule), isPart name = true → name ≠ .block →
    Covers F p → (isOperand name = false → p.role = .other) →
    Obeys hostForm n w (.rule name) (Minded source p (entry p F name) (Clean F (· = none)))
  block : ∀ (F : Frame) (p : Site) (w : Rule) (q : Option Bool), F.Sound →
    Covers (F.braced q) p → p.role = .other →
    Obeys hostForm n w (.rule .block) (Minded source p (Clean F (· = q)) (Clean F (· = none)))
  interpolation : ∀ (F : Frame) (p : Site) (w : Rule), Covers F p → p.role = .other →
    p.inTemplate = true →
    Obeys hostForm n w (.rule .interpolation) (Minded source p (InText F) (InText F))

theorem Walked.clean (ih : Walked source n) (hF : Covers F p) (hp : p.role = .other) (w : Rule)
    {name : Rule} (hname : isPart name = true) : Obeys hostForm n w (.rule name)
      (Minded source p (Clean F (· = none)) (Clean F (· = none))) := by
  by_cases hb : name = .block
  · subst hb
    exact ih.block F p w none hF.sound hF.braced hp
  · exact (ih.part F p w name hname hb hF fun _ => hp).weaken fun c ts rs d h =>
      h.mono Clean.entry fun _ _ _ hr => hr

theorem Walked.first (ih : Walked source n) (hF : Covers F p) (hp : p.role = .other) (w : Rule)
    {name : Rule} (hname : isFirst name = true) : Obeys hostForm n w (.rule name)
      (Minded source p (Anyhow F (· = none)) (Clean F (· = none))) := by
  cases name <;> first | exact ih.part F p w _ rfl nofun hF fun _ => hp | cases hname

/-- The rules that decide about a pause. -/
theorem walk_operand (ih : Walked source n) (hF : Covers F p) {name : Rule}
    (hname : isOperand name = true) : Obeys hostForm n name (hostForm name)
      (Minded source p (Fronting p F (· = none)) (Clean F (· = none))) := by
  cases name with
  | unary =>
    exact minded_unary
      (fun role => ih.part F (p.as role) .unary .unary rfl nofun (hF.as role) nofun)
      (ih.part F p .unary .postfixed rfl nofun hF nofun)
  | postfixed => exact minded_postfixed (ih.part F p .postfixed .access rfl nofun hF nofun)
  | access =>
    refine minded_access hF (ih.first (hF.as .other) rfl .access rfl) fun name hname => ?_
    simp only [List.mem_cons, List.not_mem_nil, or_false] at hname
    rcases hname with rfl | rfl | rfl <;> exact ih.clean (hF.as .other) rfl .access rfl
  | _ => cases hname

/-- The rules of what an access starts with. -/
theorem walk_first (ih : Walked source n) (hF : Covers F p) (hp : p.role = .other) {name : Rule}
    (hname : isFirst name = true) : Obeys hostForm n name (hostForm name)
      (Minded source p (Anyhow F (· = none)) (Clean F (· = none))) := by
  have lexemes : Lexemes (Calm (· = none)) := lexemes_calm rfl
  have parts (name : Rule) {name' : Rule} (hname : isPart name' = true) :
      Obeys hostForm n name (.rule name')
        (Minded source p (Clean F (· = none)) (Clean F (· = none))) := ih.clean hF hp name hname
  cases name with
  | primary =>
    refine minded_primary fun name hname => ih.first hF hp .primary ?_
    revert name
    decide
  | group =>
    have hpeg : PlainPeg (Calm (· = none)) (hostForm .group) := lexemes.plainPeg rfl
    exact minded_enclosed hp rfl (by decide) (by decide) (fun _ => parts .group) hpeg rfl
  | array =>
    have hpeg : PlainPeg (Calm (· = none)) (hostForm .array) := lexemes.plainPeg rfl
    exact minded_enclosed hp rfl (by decide) (by decide) (fun _ => parts .array) hpeg rfl
  | string => exact minded_string
  | template =>
    exact minded_template (ih.interpolation F ⟨p.inAsync, true, .other⟩ .template
      ⟨hF.sound, hF.suspendable, nofun⟩ rfl rfl)
  | identifier => exact minded_identifier
  | _ => cases hname

/-- **Every rule of the grammar is minded.** -/
theorem walk_minded (source : List Char) (n : Nat) : Walked source n := by
  induction n with
  | zero =>
    exact ⟨fun _ _ _ _ _ _ _ _ => Obeys.zero _ _ _, fun _ _ _ _ _ _ _ => Obeys.zero _ _ _,
      fun _ _ _ _ _ _ => Obeys.zero _ _ _⟩
  | succ n ih =>
    have lexemes : Lexemes (Calm (· = none)) := lexemes_calm rfl
    refine ⟨fun F p w name hpart hblock hF hp => obeys_rule ?_, fun F p w q hS hF hp => ?_,
      fun F p w hF hp ht => ?_⟩
    · by_cases hfirst : isFirst name = true
      · have h := walk_first ih hF (hp (by cases name <;> first | rfl | cases hfirst)) hfirst
        rwa [entry, if_pos hfirst]
      by_cases hoperand : isOperand name = true
      · have h := walk_operand ih hF hoperand
        rwa [entry, if_neg hfirst, if_pos hoperand]
      rw [entry, if_neg hfirst, if_neg hoperand]
      have hp := hp (by simpa using hoperand)
      have parts (name' : Rule) (hname : isPart name' = true) :
          Obeys hostForm n name (.rule name')
            (Minded source p (Clean F (· = none)) (Clean F (· = none))) := ih.clean hF hp name hname
      by_cases hlinked : isLinked name = true
      · exact minded_linked hlinked hp rfl parts
      by_cases hplain : isPlain name = true
      · have hcode : isCode name = true := by cases name <;> first | rfl | cases hplain
        refine minded_plain hp hcode parts _ (lexemes.plainPeg hplain)
          (unmarked_hostForm hplain (by simpa using hlinked) ?_ ?_)
        · rintro rfl
          exact hoperand rfl
        · rintro rfl
          exact hoperand rfl
      cases name with
      | blank => exact minded_gap Clean.gap n
      | endOfStatement => exact minded_end (by rfl) n
      | functionDecl =>
        exact minded_functionDecl fun a => ih.block F ⟨a, p.inTemplate, .other⟩ .functionDecl
          (some a) hF.sound (hF.body a) rfl
      | memberAccess => exact minded_memberAccess
      | block => exact absurd rfl hblock
      | unary => exact absurd rfl hoperand
      | string | template => exact absurd rfl hfirst
      | program | interpolation => cases hpart
      | _ => exact absurd rfl hplain
    · exact obeys_rule (minded_block hS hp (ih.clean hF hp .block rfl))
    · exact obeys_rule (minded_interpolation hF.sound hp
        (ih.clean (hF.interpolated ht) hp .interpolation rfl))

/-- **A whole program is minded.** -/
theorem walk_minded_program (source : List Char) (n : Nat) (hF : Covers F p)
    (hp : p.role = .other) (w : Rule) :
    Obeys hostForm n w (.rule .program) (fun c ts rs d => ∃ m us, ts = [.node m us] ∧
      m.tag = "program" ∧ Minded source p (Clean F (· = none)) (Clean F (· = none)) c us rs d) := by
  refine obeys_reference fun n => obeys_node (obeys_seq (minded_cons ?_ (minded_cons minded_blank
    (minded_nil _)))) fun c ts rs d h => ⟨_, ts, rfl, rfl, h⟩
  exact obeys_many (Minded.closed _) ((walk_minded source n).clean hF hp .program rfl)

end LedSketch.Grammar
