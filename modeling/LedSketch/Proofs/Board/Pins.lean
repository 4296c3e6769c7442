import LedSketch.Board.Strip
import Mathlib.Tactic.SplitIfs

/-!
# What no operation does to a strip

Whatever is done to a strip, and with whatever values, it keeps its pins and their levels stay in
the range. An operation that is refused changes nothing, and one that addresses a pin changes no
other pin.

* `Operation`: what can be done to a strip; `carryOut` does it.
* `Sound`: what holds of every strip of `n` pins.
* `Spares`: what an operation may not touch.
* `sound_run`: after any operations a strip is sound, and the next one spares what it has to.
-/

namespace LedSketch.Strip

/-- What can be done to a strip. -/
inductive Operation where
  | command (c : Command)
  | read (pin : Value)
  | reset

/-- The value that addresses the pin of a command, if it is about one pin. -/
def Command.index? : Command → Option Value
  | .configure pin _ | .writeDigital pin _ | .writeLevel pin _ | .toggle pin => some pin
  | .setAll _ | .shiftLeft | .shiftRight => none

/-- The value that addresses the pin of an operation, if it is about one pin. -/
def Operation.index? : Operation → Option Value
  | .command c => c.index?
  | .read pin => some pin
  | .reset => none

/-- Carries out an operation: what it answers, and the strip after it. -/
def carryOut (s : Strip) : Operation → Except Refusal (Option Nat) × Strip
  | .command c =>
    match s.obey c with
    | .ok t => (.ok none, t)
    | .error r => (.error r, s)
  | .read pin => ((s.read pin).map some, s)
  | .reset => (.ok none, s.reset)

/-- The strip after some operations. -/
def run (s : Strip) (ops : List Operation) : Strip := ops.foldl (fun s op => (s.carryOut op).2) s

/-- Whether a value addresses a pin: as an integer, or as a double that is one. -/
def Addresses (index : Value) (p : Nat) : Prop :=
  index = .int p ∨ ∃ x, index = .float x ∧ Number.ofIntegral x = .int p

/-- **What holds of a strip of `n` pins.** -/
structure Sound (n : Nat) (s : Strip) : Prop where
  levels : s.levels.length = n
  bounded : ∀ l ∈ s.levels, l ≤ fullLevel
  modes : ∀ i, i < n ↔ ∃ m ∈ [PinMode.output, PinMode.input], s.modes[i]? = some m
  drawn : s.render.toList.length = n

/-- **What an operation spares**: everything if it is refused, and every pin but the one it is
about. -/
structure Spares (s : Strip) (op : Operation) : Prop where
  refused : ∀ r, (s.carryOut op).1 = .error r →
    (s.carryOut op).2.levels = s.levels ∧ (s.carryOut op).2.modes = s.modes
  others : ∀ index a, op.index? = some index → (s.carryOut op).1 = .ok a →
    ∃ p, Addresses index p ∧ p < s.count ∧ ∀ i, i ≠ p →
      (s.carryOut op).2.levels[i]? = s.levels[i]? ∧ (s.carryOut op).2.modes[i]? = s.modes[i]?

variable {s t : Strip} {c : Command} {op : Operation} {index : Value} {n p : Nat}

/-! ## Pins and levels -/

theorem levels_withLevels {ls : List Nat} (h : ls.length = s.count) :
    (s.withLevels ls).levels = ls := by
  simp only [levels, withLevels, List.map_zipWith]
  refine List.ext_getElem (by simp [h, count]) fun i h₁ h₂ => ?_
  simp

@[simp] theorem count_modifyPin (f : Pin → Pin) : (s.modifyPin p f).count = s.count := by
  simp [count, modifyPin]

theorem pins_modifyPin_of_ne (f : Pin → Pin) {i : Nat} (h : i ≠ p) :
    (s.modifyPin p f).pins[i]? = s.pins[i]? := by
  rw [modifyPin, List.getElem?_modify]
  simp [h.symm]

theorem getElem?_levels (i : Nat) : s.levels[i]? = s.pins[i]?.map (·.level) := List.getElem?_map ..

theorem getElem?_modes (i : Nat) : s.modes[i]? = s.pins[i]?.map (·.mode) := List.getElem?_map ..

/-- The pin that a value is read as is the one that it addresses. -/
theorem addresses_of_pin? (h : s.pin? index = .ok p) : Addresses index p := by
  unfold pin? at h
  cases index with
  | num k =>
    cases k with
    | int k =>
      dsimp only at h
      split_ifs at h with hk
      cases h
      exact .inl (by rw [Int.toNat_of_nonneg hk.1])
    | float x =>
      dsimp only at h
      cases hx : Number.ofIntegral x with
      | int k =>
        rw [hx] at h
        dsimp only at h
        split_ifs at h with hk
        cases h
        exact .inr ⟨x, rfl, by rw [hx, Int.toNat_of_nonneg hk.1]⟩
      | float y =>
        rw [hx] at h
        cases h
  | _ => cases h

/-! ## What a command can do -/

/-- What comes of two steps comes of the first. -/
theorem exists_of_bind {α β : Type} {x : Except Refusal α} {f : α → Except Refusal β} {b : β}
    (h : (do let a ← x; f a) = .ok b) : ∃ a, x = .ok a ∧ f a = .ok b := by
  cases x with
  | error r => cases h
  | ok a => exact ⟨a, rfl, h⟩

theorem pin?_of_outputPin? (h : s.outputPin? index = .ok p) : s.pin? index = .ok p := by
  obtain ⟨q, hq, h⟩ := exists_of_bind h
  split_ifs at h
  cases h
  exact hq

/-- Changes of a pin that leave its level in the range. -/
def Tame (f : Pin → Pin) : Prop := ∀ q : Pin, q.level ≤ fullLevel → (f q).level ≤ fullLevel

/-- **A command changes the pin that it addresses, or sets all levels.** -/
theorem obey_cases (hcount : 1 ≤ s.count) (h : s.obey c = .ok t) :
    (∃ index p f, c.index? = some index ∧ s.pin? index = .ok p ∧ Tame f ∧ t = s.modifyPin p f) ∨
    (c.index? = none ∧ ∃ ls, ls.length = s.count ∧ t = s.withLevels ls ∧
      ((∀ l ∈ s.levels, l ≤ fullLevel) → ∀ l ∈ ls, l ≤ fullLevel)) := by
  cases c with
  | configure index mode =>
    obtain ⟨p, hp, h⟩ := exists_of_bind h
    split at h
    · rename_i m _
      cases h
      exact .inl ⟨index, p, fun q => { q with mode := m }, rfl, hp, fun _ hq => hq, rfl⟩
    · cases h
  | writeDigital index value =>
    obtain ⟨p, hp, h⟩ := exists_of_bind h
    cases h
    refine .inl ⟨index, p, _, rfl, pin?_of_outputPin? hp, fun _ _ => ?_, rfl⟩
    dsimp only
    split_ifs
    · exact Nat.le_refl _
    · exact Nat.zero_le _
  | writeLevel index level =>
    obtain ⟨p, hp, h⟩ := exists_of_bind h
    cases h
    exact .inl ⟨index, p, _, rfl, pin?_of_outputPin? hp, fun _ _ => levelOf_le level, rfl⟩
  | toggle index =>
    obtain ⟨p, hp, h⟩ := exists_of_bind h
    cases h
    refine .inl ⟨index, p, _, rfl, hp, fun _ _ => ?_, rfl⟩
    dsimp only
    split_ifs
    · exact Nat.zero_le _
    · exact Nat.le_refl _
  | setAll level =>
    cases h
    refine .inr ⟨rfl, _, List.length_replicate, rfl, fun _ l hl => ?_⟩
    rw [List.eq_of_mem_replicate hl]
    split_ifs
    · exact Nat.le_refl _
    · exact Nat.zero_le _
    · exact levelOf_le level
  | shiftLeft =>
    cases h
    refine .inr ⟨rfl, _, ?_, rfl, fun hs l hl => ?_⟩
    · simp only [List.length_append, List.length_drop, levels, List.length_map, List.length_singleton]
      exact Nat.sub_add_cancel hcount
    · rcases List.mem_append.mp hl with hl | hl
      · exact hs l (List.mem_of_mem_drop hl)
      · rw [List.mem_singleton.mp hl]
        exact Nat.zero_le _
  | shiftRight =>
    cases h
    refine .inr ⟨rfl, _, ?_, rfl, fun hs l hl => ?_⟩
    · simp only [List.length_cons, List.length_dropLast, levels, List.length_map]
      exact Nat.sub_add_cancel hcount
    · rcases List.mem_cons.mp hl with rfl | hl
      · exact Nat.zero_le _
      · exact hs l (List.dropLast_subset _ hl)

/-! ## What operations keep -/

/-- A strip of `n` pins whose levels lie in the range. -/
structure Kept (n : Nat) (s : Strip) : Prop where
  count : s.count = n
  bounded : ∀ l ∈ s.levels, l ≤ fullLevel

theorem Kept.sound (h : Kept n s) : Sound n s where
  levels := by rw [levels, List.length_map, ← h.count]; rfl
  bounded := h.bounded
  modes i := by
    have hmode : s.modes[i]? = none ↔ n ≤ i := by
      rw [List.getElem?_eq_none_iff, modes, List.length_map, ← h.count]
      rfl
    constructor
    · intro hi
      cases hm : s.modes[i]? with
      | none => exact absurd (hmode.mp hm) (by omega)
      | some m => exact ⟨m, by cases m <;> simp, rfl⟩
    · rintro ⟨m, -, hm⟩
      refine Nat.lt_of_not_le fun hi => ?_
      rw [hmode.mpr hi] at hm
      cases hm
  drawn := by rw [length_render, h.count]

theorem kept_dark (n : Nat) : Kept n (dark n) where
  count := by simp [dark, Strip.count]
  bounded l hl := by
    simp only [dark, levels, List.map_replicate] at hl
    rw [List.eq_of_mem_replicate hl]
    exact Nat.zero_le _

theorem Kept.modifyPin (h : Kept n s) {f : Pin → Pin} (hf : Tame f) :
    Kept n (s.modifyPin p f) where
  count := by rw [count_modifyPin, h.count]
  bounded l hl := by
    obtain ⟨i, hi⟩ := List.mem_iff_getElem?.mp hl
    rw [getElem?_levels, Strip.modifyPin, List.getElem?_modify] at hi
    obtain ⟨_, hmap, rfl⟩ := Option.map_eq_some_iff.mp hi
    obtain ⟨q, hq, rfl⟩ := Option.map_eq_some_iff.mp hmap
    have hlevel : q.level ≤ fullLevel :=
      h.bounded q.level (List.mem_map_of_mem (List.mem_of_getElem? hq))
    split_ifs
    · exact hf q hlevel
    · exact hlevel

theorem Kept.withLevels (h : Kept n s) {ls : List Nat} (hlen : ls.length = s.count)
    (hls : ∀ l ∈ ls, l ≤ fullLevel) : Kept n (s.withLevels ls) where
  count := by
    have := congrArg List.length (levels_withLevels hlen)
    rwa [levels, List.length_map, hlen, h.count] at this
  bounded := by rwa [levels_withLevels hlen]

theorem Kept.obey (h : Kept n s) (hn : 1 ≤ n) (ht : s.obey c = .ok t) : Kept n t := by
  rcases obey_cases (h.count ▸ hn) ht with
    ⟨_, p, f, -, -, hf, rfl⟩ | ⟨-, ls, hlen, rfl, hls⟩
  · exact h.modifyPin hf
  · exact h.withLevels hlen (hls h.bounded)

/-- **An operation keeps the pins and the range of their levels.** -/
theorem Kept.carryOut (h : Kept n s) (hn : 1 ≤ n) (op : Operation) : Kept n (s.carryOut op).2 := by
  cases op with
  | command c =>
    unfold Strip.carryOut
    dsimp only
    split
    · exact h.obey hn ‹_›
    · exact h
  | read pin => exact h
  | reset => exact h.count ▸ kept_dark s.count

theorem Kept.run (h : Kept n s) (hn : 1 ≤ n) (ops : List Operation) : Kept n (s.run ops) := by
  induction ops generalizing s with
  | nil => exact h
  | cons op ops ih => exact ih (h.carryOut hn op)

/-! ## What operations spare -/

theorem spares (hcount : 1 ≤ s.count) (op : Operation) : Spares s op where
  refused r hr := by
    cases op with
    | command c =>
      unfold carryOut at hr ⊢
      dsimp only at hr ⊢
      split at hr
      · cases hr
      · exact ⟨rfl, rfl⟩
    | read pin => exact ⟨rfl, rfl⟩
    | reset => cases hr
  others index a hindex ha := by
    cases op with
    | command c =>
      unfold carryOut at ha ⊢
      dsimp only at ha ⊢
      split at ha
      · rename_i t ht
        rcases obey_cases hcount ht with ⟨_, p, f, hc, hp, -, rfl⟩ | ⟨hc, -⟩
        · obtain rfl := Option.some.inj (hc.symm.trans hindex)
          refine ⟨p, addresses_of_pin? hp, pin?_lt hp, fun i hi => ?_⟩
          simp only [getElem?_levels, getElem?_modes, pins_modifyPin_of_ne f hi, and_self]
        · rw [show Operation.index? (.command c) = c.index? from rfl, hc] at hindex
          cases hindex
      · cases ha
    | read pin =>
      cases hindex
      change (s.read index).map some = .ok a at ha
      unfold Strip.read at ha
      cases hp : s.pin? index with
      | ok p => exact ⟨p, addresses_of_pin? hp, pin?_lt hp, fun _ _ => ⟨rfl, rfl⟩⟩
      | error r =>
        rw [hp] at ha
        cases ha
    | reset => cases hindex

/-- **Whatever is done to a strip, it stays sound**, and the next operation spares what it has to. -/
theorem sound_run (hn : 1 ≤ n) (ops : List Operation) :
    Sound n ((dark n).run ops) ∧ ∀ op, Spares ((dark n).run ops) op := by
  have h := (kept_dark n).run hn ops
  exact ⟨h.sound, spares (by rw [h.count]; exact hn)⟩

/-- Two pins: one is lit, the light moves on, and a pin that does not exist is toggled. -/
theorem sound_run_pair :
    1 ≤ 2 ∧ Sound 2 ((dark 2).run [.command (.writeDigital (.int 0) (.bool true)),
      .command .shiftRight, .command (.toggle (.int 2))]) ∧
    ((dark 2).run [.command (.writeDigital (.int 0) (.bool true)),
      .command .shiftRight, .command (.toggle (.int 2))]).levels = [0, 255] :=
  ⟨by decide, (sound_run (by decide) _).1, by decide⟩

end LedSketch.Strip
