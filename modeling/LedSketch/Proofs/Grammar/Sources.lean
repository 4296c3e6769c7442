import LedSketch.Proofs.Grammar.Tiling
import LedSketch.Proofs.Grammar.Walk

/-!
# Reading a whole source

The reader that knows where the parser finds the member names of a source, and what it means for
that reader that the grammar takes the source.

* `readerOf`: the reader of a source.
* `Tiled.told`: it is told rightly about every lexeme.
* `passes_source`: a source that the grammar takes passes as a whole.
-/

namespace LedSketch.Grammar

open Text Scan Scanner Dialect

/-! ## Member names -/

/-- Whether a lexeme of a member access stands at the place with `n` characters left. -/
def memberAt (xs : List (Reading Rule)) (n : Nat) : Bool :=
  xs.any fun x => x.rule = .memberAccess ∧ x.text ≠ [] ∧ x.place.rest.length = n

/-- The reader that knows the member names of a source. -/
def readerOf (source : List Char) : Reader := { members := memberAt (lexemes source) }

theorem length_rest_advance_lt {x : Reading Rule} (h : x.text ≠ []) :
    (x.place.advance x.count).rest.length < x.place.rest.length := by
  have htext : 0 < x.text.length := List.length_pos_iff.mpr h
  rw [Reading.text, List.length_take] at htext
  rw [rest_advance, List.length_drop]
  omega

theorem Tiled.length_le {c d : Cursor} {xs : List (Reading Rule)} (h : Tiled c xs d)
    {x : Reading Rule} (hx : x ∈ xs) : x.place.rest.length ≤ c.rest.length := by
  induction xs generalizing c with
  | nil => cases hx
  | cons y ys ih =>
    obtain ⟨rfl, -, h⟩ := h
    rcases List.mem_cons.mp hx with rfl | hx
    · exact le_rfl
    · refine (ih h hx).trans ?_
      rw [rest_advance]
      exact (List.drop_suffix _ _).length_le

/-- Where characters are taken tells one lexeme from another. -/
theorem Tiled.eq_of_length {c d : Cursor} {xs : List (Reading Rule)} (h : Tiled c xs d)
    {x y : Reading Rule} (hx : x ∈ xs) (hy : y ∈ xs) (hxt : x.text ≠ []) (hyt : y.text ≠ [])
    (heq : x.place.rest.length = y.place.rest.length) : x = y := by
  induction xs generalizing c with
  | nil => cases hx
  | cons z zs ih =>
    obtain ⟨rfl, -, h⟩ := h
    rcases List.mem_cons.mp hx with rfl | hx' <;> rcases List.mem_cons.mp hy with rfl | hy'
    · rfl
    · have := h.length_le hy'
      have := length_rest_advance_lt hxt
      omega
    · have := h.length_le hx'
      have := length_rest_advance_lt hyt
      omega
    · exact ih h hx' hy'

/-- **A reader that knows the member names is told rightly** about every lexeme. -/
theorem Tiled.told {c d : Cursor} {xs : List (Reading Rule)} (h : Tiled c xs d) {r : Reader}
    (hr : r.members = memberAt xs) : ∀ x ∈ xs, x.Told r := by
  intro x hx htext
  rw [hr, memberAt, List.any_eq_true]
  constructor
  · rintro ⟨y, hy, hmember⟩
    obtain ⟨hrule, hyt, hlen⟩ := of_decide_eq_true hmember
    rw [← h.eq_of_length hy hx hyt htext hlen]
    exact hrule
  · intro hrule
    exact ⟨x, hx, decide_eq_true ⟨hrule, htext, rfl⟩⟩

/-! ## From the start to the end -/

/-- Nothing is open at the start of a source. -/
def Frame.empty : Frame := ⟨0, [], []⟩

theorem Frame.sound_empty : Frame.empty.Sound := ⟨by simp [Frame.empty], by simp [Frame.empty]⟩

theorem at_start (source cs : List Char) : At .empty Settled (readerOf source) cs :=
  ⟨⟨rfl, rfl, rfl, nofun, nofun⟩, Or.inl rfl, nofun⟩

theorem parse_eq_ok {source : String} {t : Tree} (h : parse source = .ok t) :
    ∃ d, readProgram source.toList = .got [t] d ∧ d.rest = [] := by
  unfold parse at h
  split at h
  · rename_i t' d hrun
    split_ifs at h with hd
    cases h
    exact ⟨d, hrun, by simpa using hd⟩
  · cases h

theorem exists_parse {source : String} (h : (parse source).isOk = true) :
    ∃ t, parse source = .ok t := by
  cases hp : parse source with
  | ok t => exact ⟨t, rfl⟩
  | error e => rw [hp] at h; cases h

/-- The lexemes of a source that the grammar takes leave nothing out. -/
theorem tiled_source {source : String} {t : Tree} (h : parse source = .ok t) :
    ∃ d, d.rest = [] ∧ Tiled (Cursor.start source.toList) (lexemes source.toList) d := by
  obtain ⟨d, hrun, hd⟩ := parse_eq_ok h
  exact ⟨d, hd, tiles _ .program .program _ le_rfl _ _ _ hrun⟩

/-- **A source that the grammar takes passes as a whole.** -/
theorem passes_source {source : String} {t : Tree} (h : parse source = .ok t) :
    ∃ d m ts, d.rest = [] ∧ t = .node m ts ∧ m.tag = "program" ∧
      (Passed false (At .empty Settled) (readerOf source.toList) (Cursor.start source.toList) ts
          (lexemes source.toList) d ∨
        Strays (readerOf source.toList) (Cursor.start source.toList) (lexemes source.toList)) := by
  obtain ⟨d, hrun, hd⟩ := parse_eq_ok h
  have htiled := tiles _ .program .program _ le_rfl _ _ _ hrun
  obtain ⟨m, ts, ht, hm, hpasses⟩ :=
    walk_program _ .empty .program Frame.sound_empty nofun _ le_rfl _ _ _ hrun
  exact ⟨d, m, ts, hd, (List.cons.inj ht).1, hm,
    hpasses (readerOf source.toList) (at_start _ _) (Tiled.told htiled rfl)⟩

end LedSketch.Grammar
