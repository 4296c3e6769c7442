import Mathlib.Tactic.SplitIfs
import LedSketch.Proofs.Grammar.Painting

/-!
# The lexemes of a run leave nothing out

The readings of a run lie one behind the other, so the kinds that they give their characters make up
the kinds of the whole text.

* `Reading.Fits`: a reading gives as many kinds as it takes characters.
* `Tiled`: readings that lie one behind the other.
* `tiles`: the readings of a run are tiled.
* `Tiled.opens`: the parser sees a comment only where one opens.
-/

namespace LedSketch.Grammar

open Text Scan

theorem gapKinds_head? {cs : List Char} (h : (gapKinds cs).head? = some .blockComment) :
    ∃ ds, cs = '/' :: '*' :: ds := by
  rw [gapKinds.eq_def] at h
  split at h
  · cases h
  · dsimp only at h
    rw [Nat.add_comm, List.replicate_succ] at h
    cases h
  · exact ⟨_, rfl⟩
  · split_ifs at h
    · cases h
    · cases h

theorem endKinds?_head? {cs : List Char} {ks : List Kind} (h : endKinds? cs = some ks)
    (hk : ks.head? = some .blockComment) : ∃ ds, cs = '/' :: '*' :: ds := by
  rw [endKinds?.eq_def] at h
  split at h
  · cases h
    cases hk
  · split_ifs at h
    · obtain ⟨ls, -, rfl⟩ := Option.map_eq_some_iff.mp h
      cases hk
    · cases h
      cases hk
    · cases h
      cases hk
    · split at h
      · cases h
        cases hk
      · cases h
        cases hk
      · exact ⟨_, rfl⟩
      · cases h

/-- A reading that gives each of its characters one kind, and opens a comment only where one is. -/
structure Reading.Fits (x : Reading Rule) : Prop where
  length : x.kinds.length = x.count
  opens : x.kinds.head? = some .blockComment → ∃ ds, x.place.rest = '/' :: '*' :: ds

/-- The readings lie one behind the other from `c` to `d`. -/
def Tiled : Cursor → List (Reading Rule) → Cursor → Prop
  | c, [], d => c = d
  | c, x :: rs, d => x.place = c ∧ x.Fits ∧ Tiled (c.advance x.count) rs d

theorem tiled_append {c d : Cursor} {rs ss : List (Reading Rule)} :
    Tiled c (rs ++ ss) d ↔ ∃ e, Tiled c rs e ∧ Tiled e ss d := by
  induction rs generalizing c with
  | nil => simp [Tiled]
  | cons x rs ih =>
    rw [List.cons_append, Tiled, ih]
    constructor
    · rintro ⟨hc, hx, e, h, h'⟩
      exact ⟨e, ⟨hc, hx, h⟩, h'⟩
    · rintro ⟨e, ⟨hc, hx, h⟩, h'⟩
      exact ⟨hc, hx, e, h, h'⟩

/-- If the first character is of a block comment, then a block comment opens there. -/
theorem Tiled.opens {c d : Cursor} {rs : List (Reading Rule)} (h : Tiled c rs d)
    (hk : (rs.flatMap Reading.kinds).head? = some .blockComment) :
    ∃ ds, c.rest = '/' :: '*' :: ds := by
  induction rs generalizing c with
  | nil => cases hk
  | cons x rs ih =>
    obtain ⟨rfl, hx, h⟩ := h
    rw [List.flatMap_cons] at hk
    cases hkinds : x.kinds with
    | nil =>
      have hcount := hx.length
      rw [hkinds] at hcount hk
      rw [← hcount] at h
      exact ih h hk
    | cons k ks =>
      refine hx.opens ?_
      rw [hkinds] at hk ⊢
      exact hk

theorem fits_replicate {x : Reading Rule} {k : Kind} (hk : k ≠ .blockComment)
    (hx : x.kinds = List.replicate x.count k) : x.Fits := by
  refine ⟨by rw [hx, List.length_replicate], fun h => absurd ?_ hk⟩
  rw [hx, List.head?_replicate] at h
  split_ifs at h
  exact Option.some.inj h

theorem fits_blank {c : Cursor} {k : Nat} (hk : gap c.rest = some k) :
    (Reading.mk .blank c k).Fits where
  length := (length_gapKinds c.rest).trans (Option.some.inj hk)
  opens := gapKinds_head?

theorem fits_endOfStatement {c : Cursor} {k : Nat} (hk : endOfStatement? c.rest = some k) :
    (Reading.mk .endOfStatement c k).Fits := by
  have hlen := map_length_kinds.1 c.rest
  rw [hk] at hlen
  obtain ⟨ks, hks, rfl⟩ := Option.map_eq_some_iff.mp hlen
  have hkinds : (Reading.mk .endOfStatement c ks.length).kinds = ks := by simp [Reading.kinds, hks]
  exact ⟨by rw [hkinds], fun h => endKinds?_head? hks (by rwa [hkinds] at h)⟩

/-- The passage that leaves no character out. -/
def Tiles : Passage Rule := fun c _ rs d => Tiled c rs d

theorem Tiles.closed : Tiles.Closed where
  nil _ := rfl
  append h h' := tiled_append.mpr ⟨_, h, h'⟩

/-- **The readings of a run lie one behind the other.** -/
theorem tiles (n : Nat) : ∀ w name, Obeys hostForm n w (.rule name) Tiles := by
  induction n with
  | zero => exact fun _ _ => Obeys.zero _ _ _
  | succ n ih =>
    intro w name
    refine obeys_rule ?_
    have others (hb : name ≠ .blank) (he : name ≠ .endOfStatement) :
        ∀ p, Obeys hostForm n name p Tiles := by
      refine obeys_any Tiles.closed (fun _ _ _ _ _ h => h) (fun m c k _ => ?_) (ih name)
      refine ⟨rfl, ?_, rfl⟩
      cases name with
      | blank => exact absurd rfl hb
      | endOfStatement => exact absurd rfl he
      | string => exact fits_replicate (k := .string) nofun rfl
      | template => exact fits_replicate (k := .template) nofun rfl
      | interpolation => exact fits_replicate (k := .template) nofun rfl
      | _ => exact fits_replicate (k := .code) nofun rfl
    by_cases hb : name = .blank
    · subst hb
      exact obeys_drop (A := Tiles) (obeys_token fun c k hk => ⟨rfl, fits_blank hk, rfl⟩)
        fun _ _ _ _ h => h
    by_cases he : name = .endOfStatement
    · subst he
      exact obeys_drop (A := Tiles) (obeys_token fun c k hk => ⟨rfl, fits_endOfStatement hk, rfl⟩)
        fun _ _ _ _ h => h
    · exact others hb he _

end LedSketch.Grammar
