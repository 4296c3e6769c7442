import LedSketch.Proofs.Grammar.Sources

/-!
# The scanner and the parser agree

For a source that the grammar takes, the scanner gives every character the kind that the parser takes
it for, and ends where the parser does, exactly if every end of statement closes its comments at the
first comment end.

* `Agrees`: the scanner and the parser agree on a source.
* `properEnd?_of_sees`: where they agree, an end of statement is proper.
* `agrees_iff`: when they agree.
-/

namespace LedSketch.Grammar

open Text Scan Scanner Dialect

/-- **The scanner and the parser agree** on every character, and at the end nothing is open. -/
structure Agrees (source : List Char) : Prop where
  kinds : classify source = parsedKinds source
  mode : (({} : Scanner).finish source).mode = .code ∨
    (({} : Scanner).finish source).mode = .lineComment
  depth : (({} : Scanner).finish source).nesting.depth = 0
  interpolations : (({} : Scanner).finish source).interpolations = []

variable {s : Scanner} {c : Char} {cs ds : List Char} {ks ls : List Kind}

/-! ## What the scanner sees -/

/-- From `s` the scanner sees the kinds `ks`, then `ls`, which open a comment only where one is, and it
does not end inside of a comment. -/
structure Sees (s : Scanner) (cs : List Char) (ks ls : List Kind) : Prop where
  kinds : s.kinds cs = ks ++ ls
  opens : ls.head? = some .blockComment → ∃ ds, cs.drop ks.length = '/' :: '*' :: ds
  finish : (s.finish cs).mode ≠ .blockComment

theorem Sees.ordinary (h : Sees s (c :: cs) (.code :: ks) ls) (hs : s.mode = .code)
    (hc : isOrdinary c = true) : Sees s cs ks ls where
  kinds := by
    have hk := h.kinds
    rw [kinds_ordinary hs hc] at hk
    exact (List.cons.inj hk).2
  opens := h.opens
  finish := by
    rw [← finish_ordinary hs hc]
    exact h.finish

theorem Sees.openComment (hs : s.mode = .code)
    (h : Sees s ('/' :: '*' :: cs) (.blockComment :: .blockComment :: ks) ls) :
    Sees { s with mode := .blockComment } cs ks ls where
  kinds := by
    have hk := h.kinds
    rw [kinds_step, step_code hs] at hk
    exact (List.cons.inj (List.cons.inj hk).2).2
  opens := h.opens
  finish := by
    have hf := h.finish
    rw [finish_step, step_code hs] at hf
    exact hf

theorem Sees.closeComment (hs : s.mode = .blockComment)
    (h : Sees s ('*' :: '/' :: cs) (.blockComment :: .blockComment :: ks) ls) :
    Sees { s with mode := .code } cs ks ls where
  kinds := by
    have hk := h.kinds
    rw [kinds_step, step_blockComment hs, if_pos rfl, List.head?_cons, if_pos rfl] at hk
    exact (List.cons.inj (List.cons.inj hk).2).2
  opens := h.opens
  finish := by
    have hf := h.finish
    rw [finish_step, step_blockComment hs, if_pos rfl, List.head?_cons, if_pos rfl] at hf
    exact hf

theorem Sees.inside (hs : s.mode = .blockComment) (hc : c = '*' → cs.head? ≠ some '/')
    (h : Sees s (c :: cs) (.blockComment :: ks) ls) : Sees s cs ks ls where
  kinds := by
    have hk := h.kinds
    rw [(kinds_comment hs hc).1] at hk
    exact (List.cons.inj hk).2
  opens := h.opens
  finish := by
    rw [← (kinds_comment hs hc).2]
    exact h.finish

/-! ## An end that is not proper is seen -/

theorem kindsBehindComment?_head? (h : kindsBehindComment? cs = some ks) :
    ks.head? = some .blockComment := by
  rw [kindsBehindComment?.eq_def] at h
  split at h
  · cases h
  · split at h
    · cases h
      rfl
    · obtain ⟨ls, -, rfl⟩ := Option.map_eq_some_iff.mp h
      rfl
  · split_ifs at h
    obtain ⟨ls, -, rfl⟩ := Option.map_eq_some_iff.mp h
    rfl

/-- A comment may begin earlier. -/
theorem kindsBehindComment?_cons (hc : c ≠ '\n') (h : kindsBehindComment? (c :: cs) = none) :
    kindsBehindComment? cs = none := by
  rw [kindsBehindComment?.eq_def] at h
  split at h
  · contradiction
  · rename_i heq
    obtain ⟨rfl, rfl⟩ := List.cons.inj heq
    split at h
    · cases h
    · simpa using h
  · rename_i heq
    obtain ⟨rfl, rfl⟩ := List.cons.inj heq
    rw [if_neg hc] at h
    simpa using h

/-- Where an end begins with a comment, a comment may end in it. -/
theorem endKinds?_comment (h : endKinds? ('/' :: '*' :: cs) = some ks) :
    kindsBehindComment? ('/' :: '*' :: cs) ≠ none := by
  intro hnone
  have := kindsBehindComment?_cons (by decide) (kindsBehindComment?_cons (by decide) hnone)
  rw [endKinds?.eq_def] at h
  simp [isHorizontal, this] at h

/-- The scanner is not inside of a comment at an end of statement where no comment can end. -/
theorem not_sees_inside (hs : s.mode = .blockComment) (hend : endKinds? cs = some ks)
    (hbehind : kindsBehindComment? cs = none) : ¬ Sees s cs ks ls := by
  intro h
  have hopens : ∃ ds, cs = '/' :: '*' :: ds := by
    cases cs with
    | nil => exact absurd hs (by simpa using h.finish)
    | cons c cs =>
      have hhead : (ks ++ ls).head? = some .blockComment := by
        rw [← h.kinds, head?_kinds]
        exact congrArg some (kind_comment hs c cs)
      cases ks with
      | nil => exact h.opens hhead
      | cons k ks => exact endKinds?_head? hend hhead
  obtain ⟨ds, rfl⟩ := hopens
  exact endKinds?_comment hend hbehind

/-- The scanner is not in code where the parser is inside of a comment that no end of statement
follows. -/
theorem not_sees_behind (hs : s.mode = .code) (hbehind : kindsBehindComment? cs = some ks)
    (hend : endKinds? cs = none) : ¬ Sees s cs ks ls := by
  intro h
  have hopens : ∃ ds, cs = '/' :: '*' :: ds := by
    refine opens_of_kinds hs ?_
    rw [h.kinds]
    have := kindsBehindComment?_head? hbehind
    cases ks with
    | nil => cases this
    | cons k ks => exact this
  obtain ⟨cs, rfl⟩ := hopens
  have hnone : kindsBehindComment? cs = none := by
    rw [endKinds?.eq_def] at hend
    simpa [isHorizontal] using hend
  rw [kindsBehindComment?, if_neg (by decide), Option.map_eq_some_iff] at hbehind
  · obtain ⟨ms, hms, rfl⟩ := hbehind
    rw [kindsBehindComment?.eq_def] at hms
    split at hms
    · contradiction
    · -- the comment mark and the comment end share a star
      rename_i ds heq
      obtain ⟨-, rfl⟩ := List.cons.inj heq
      split at hms
      · rename_i ns hns
        cases hms
        have hnone' := kindsBehindComment?_cons (by decide) hnone
        exact not_sees_inside rfl hns hnone'
          ((h.openComment hs).inside (c := '/') rfl fun hc => absurd hc (by decide))
      · rw [hnone] at hms
        cases hms
    · rename_i heq
      obtain ⟨rfl, rfl⟩ := List.cons.inj heq
      rw [hnone] at hms
      split_ifs at hms
      cases hms
  · rintro ds - ⟨⟩

/-- **Where the scanner agrees with the parser, an end of statement is proper.** -/
theorem properEnd?_of_sees :
    (∀ cs s ks ls, s.mode = .code → endKinds? cs = some ks → Sees s cs ks ls →
      properEnd? cs = some ks) ∧
    ∀ cs s ks ls, s.mode = .blockComment → kindsBehindComment? cs = some ks → Sees s cs ks ls →
      ∃ n ms, commentEnd? cs = some n ∧ properEnd? (cs.drop n) = some ms ∧
        ks = List.replicate n .blockComment ++ ms := by
  refine endKinds?.mutual_induct _ _ ?nil ?blank ?mark ?brace ?feed ?line ?block ?other
    ?behindNil ?close ?later ?newline ?inside
  case nil =>
    intro s ks ls _ h _
    rw [endKinds?] at h
    rw [properEnd?, h]
  case blank =>
    intro c cs hc ih s ks ls hs h hsees
    rw [endKinds?.eq_def] at h
    rw [properEnd?.eq_def]
    simp only [if_pos hc] at h ⊢
    obtain ⟨ms, hms, rfl⟩ := Option.map_eq_some_iff.mp h
    have hord := isOrdinary_of_isSpace (isSpace_of_isHorizontal hc)
    rw [ih s ms ls hs hms (hsees.ordinary hs hord)]
    rfl
  case mark =>
    intro c cs h₁ h₂ s ks ls _ h _
    rw [endKinds?.eq_def] at h
    rw [properEnd?.eq_def]
    simp only [if_neg h₁, if_pos h₂] at h ⊢
    exact h
  case brace =>
    intro cs h₁ h₂ s ks ls _ h _
    rw [endKinds?.eq_def] at h
    rw [properEnd?.eq_def]
    exact h
  case feed =>
    intro cs h₁ h₂ h₃ s ks ls _ h _
    rw [endKinds?.eq_def] at h
    rw [properEnd?.eq_def]
    exact h
  case line =>
    intro cs h₁ h₂ h₃ s ks ls _ h _
    rw [endKinds?.eq_def] at h
    rw [properEnd?.eq_def]
    exact h
  case block =>
    intro cs h₁ h₂ h₃ ih s ks ls hs h hsees
    rw [endKinds?.eq_def] at h
    rw [properEnd?.eq_def]
    simp only [if_neg h₁, if_neg h₂, if_neg h₃] at h ⊢
    obtain ⟨ms, hms, rfl⟩ := Option.map_eq_some_iff.mp h
    obtain ⟨n, ns, hn, hns, rfl⟩ := ih _ ms ls rfl hms (hsees.openComment hs)
    rw [hn]
    dsimp only
    rw [hns, Nat.add_comm]
    rfl
  case other =>
    intro c cs h₁ h₂ h₃ h₄ h₅ h₆ s ks ls _ h _
    rw [endKinds?.eq_def] at h
    simp only [if_neg h₁, if_neg h₂, if_neg h₃] at h
    cases h
  case behindNil =>
    intro s ks ls _ h _
    rw [kindsBehindComment?] at h
    cases h
  case close =>
    intro cs ms hms ih s ks ls hs h hsees
    rw [kindsBehindComment?, hms] at h
    cases h
    exact ⟨2, ms, rfl, ih _ ms ls rfl hms (hsees.closeComment hs), rfl⟩
  case later =>
    -- the parser passes by a comment end, and the scanner does not
    intro cs hend _ _ s ks ls hs h hsees
    rw [kindsBehindComment?, hend] at h
    obtain ⟨ms, hms, rfl⟩ := Option.map_eq_some_iff.mp h
    rw [kindsBehindComment?, if_neg (by decide)] at hms
    · obtain ⟨ns, hns, rfl⟩ := Option.map_eq_some_iff.mp hms
      exact absurd (hsees.closeComment hs) (not_sees_behind rfl hns hend)
    · rintro ds ⟨⟩
  case newline =>
    intro cs hne s ks ls _ h _
    rw [kindsBehindComment?, if_pos rfl] at h
    · cases h
    · exact hne
  case inside =>
    intro c cs hne hc ih s ks ls hs h hsees
    rw [kindsBehindComment?, if_neg hc] at h
    · obtain ⟨ms, hms, rfl⟩ := Option.map_eq_some_iff.mp h
      have hopen : c = '*' → cs.head? ≠ some '/' := by
        rintro rfl hhead
        obtain ⟨ds, rfl⟩ := List.head?_eq_some_iff.mp hhead
        exact hne ds rfl rfl
      obtain ⟨n, ns, hn, hns, rfl⟩ := ih s ms ls hs hms (hsees.inside hs hopen)
      refine ⟨n + 1, ns, ?_, hns, rfl⟩
      rw [commentEnd?, hn]
      · rfl
      · exact hne
    · exact hne

/-! ## Agreement -/

/-- Up to an end of statement that is not proper, and behind it, the scanner sees what the parser
takes the source for, if the two agree. -/
theorem Agrees.sees {source : String} {d : Cursor} {us vs : List (Reading Rule)} {x : Reading Rule}
    {r : Reader} (h : Agrees source.toList) (hsplit : lexemes source.toList = us ++ x :: vs)
    (htiled : Tiled (Cursor.start source.toList) (lexemes source.toList) d)
    (hkinds : x.kinds = ks)
    (halong : Along (readerOf source.toList) source.toList (us.flatMap Reading.kinds) r x.place.rest) :
    Sees r.scanner x.place.rest ks (vs.flatMap Reading.kinds) where
  kinds := by
    have hk := h.kinds
    have hreader : ({} : Scanner).kinds source.toList = _ ++ r.scanner.kinds x.place.rest :=
      halong.kinds
    rw [classify_eq_kinds, hreader, parsedKinds, hsplit, List.flatMap_append,
      List.flatMap_cons, hkinds] at hk
    exact List.append_cancel_left hk
  opens hhead := by
    rw [hsplit] at htiled
    obtain ⟨e, -, rfl, hx, hvs⟩ := tiled_append.mp htiled
    have hlen : x.count = ks.length := by rw [← hx.length, hkinds]
    obtain ⟨ds, hds⟩ := hvs.opens hhead
    rw [rest_advance, hlen] at hds
    exact ⟨ds, hds⟩
  finish := by
    have hfinish : Alike (({} : Scanner).finish source.toList) (r.scanner.finish x.place.rest) :=
      halong.finish
    rw [← hfinish.mode]
    rcases h.mode with hm | hm <;> rw [hm] <;> nofun

/-- **The scanner and the parser agree** on a source that the grammar takes exactly if every end of
statement closes its comments at the first comment end. -/
theorem agrees_iff {source : String} {t : Tree} (h : parse source = .ok t) :
    Agrees source.toList ↔ ∀ x ∈ lexemes source.toList, x.Proper := by
  obtain ⟨d, m, ts, hd, -, -, hpasses⟩ := passes_source h
  rcases hpasses with ⟨r, halong, hr, hproper, -⟩ | hstray
  · refine iff_of_true ?_ hproper
    rw [hd] at halong hr
    have hfinish : Alike (({} : Scanner).finish source.toList) (r.scanner.finish []) :=
      halong.finish
    have hkinds : ({} : Scanner).kinds source.toList = _ ++ r.scanner.kinds [] := halong.kinds
    rw [finish_nil] at hfinish
    refine ⟨?_, ?_, hfinish.depth.trans hr.depth, hfinish.interpolations.trans hr.interpolations⟩
    · rw [classify_eq_kinds, hkinds, kinds_nil, List.append_nil, parsedKinds]
    · rw [hfinish.mode]
      exact hr.ready.imp_right And.left
  · obtain ⟨us, x, vs, r, ks, hsplit, hx, hks, halong, hm⟩ := hstray
    refine iff_of_false (fun hagrees => hx fun hrule => ?_) fun hproper => hx (hproper x ?_)
    · have hkinds : x.kinds = ks := by simp [Reading.kinds, hrule, hks]
      obtain ⟨e, -, htiled⟩ := tiled_source h
      rw [hks]
      exact (properEnd?_of_sees.1 _ _ ks _ hm hks (hagrees.sees hsplit htiled hkinds halong)).symm
    · rw [hsplit]
      simp

/-- A template with a comment in its interpolation, and comments behind the semicolon. -/
theorem agrees_template : ∃ t, parse "p(`a${ /* b */ c }`); /* d */ // e" = .ok t ∧
    Agrees "p(`a${ /* b */ c }`); /* d */ // e".toList := by
  have hok : (parse "p(`a${ /* b */ c }`); /* d */ // e").isOk = true := by decide +kernel
  obtain ⟨t, ht⟩ := exists_parse hok
  exact ⟨t, ht, (agrees_iff ht).mpr (by decide +kernel)⟩

/-- The parser passes by the first comment end, and the scanner does not. -/
theorem not_agrees_passedBy : (∃ t, parse "x /* a */ y */;" = .ok t) ∧
    ¬ Agrees "x /* a */ y */;".toList := by
  refine ⟨exists_parse (by decide +kernel), fun h => ?_⟩
  exact absurd h.kinds (by decide +kernel)

end LedSketch.Grammar
