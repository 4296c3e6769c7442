import LedSketch.Proofs.Board.Pins

/-!
# Writing to a pin that is an input

A pin is an output until it is configured, and again after a reset; nothing else changes what it is
used for. Three commands write the level of one pin. Two of them look at its mode and refuse an
input; toggling does not look, so it writes inputs too.

* `modeAfter`: the mode that a history of operations leaves a pin in; `mode_run` says that it does.
* `Writer`: what writes the level of one pin.
* `Guarded`, `Flips`: a pin is kept from a command; a command flips it.
* `guarded_run`: in every reachable strip an input is kept from all writers but toggling, and
  toggling flips it.
-/

namespace LedSketch.Strip

variable {s t : Strip} {c : Command} {index : Value} {n p : Nat}

/-! ## Addressing -/

/-- Which pin a value is read as depends on the number of pins alone. -/
theorem pin?_congr (h : s.count = t.count) (index : Value) : s.pin? index = t.pin? index := by
  simp only [pin?, h]

/-- A value that addresses a pin of the strip is read as that pin. -/
theorem Addresses.pin? (h : Addresses index p) (hp : p < s.count) : s.pin? index = .ok p := by
  have hint : s.pin? (.int p) = .ok p := by
    simp only [Strip.pin?]
    rw [if_pos ⟨Int.natCast_nonneg p, Int.ofNat_lt.mpr hp⟩, Int.toNat_natCast]
  obtain rfl | ⟨x, rfl, hx⟩ := h
  · exact hint
  · -- a double is replaced by the integer that it is before anything looks at it
    have : s.pin? (.float x) = s.pin? (.num (.ofIntegral x)) := by
      rw [hx]
      simp only [Strip.pin?, hx]
    rw [this, hx]
    exact hint

theorem lt_count_of_mode {m : PinMode} (h : s.modes[p]? = some m) : p < s.count := by
  obtain ⟨hp, -⟩ := List.getElem?_eq_some_iff.mp h
  rwa [modes, List.length_map] at hp

theorem modeAt_of_mode {m : PinMode} (h : s.modes[p]? = some m) : s.modeAt p = m := by
  rw [modeAt, ← getElem?_modes, h]
  rfl

/-! ## The mode of a pin -/

/-- The mode that an operation gives to a pin of a strip of `n` pins, if it gives it one. -/
def Operation.sets? (n p : Nat) : Operation → Option PinMode
  | .command (.configure index mode) =>
    if ((dark n).pin? index).toOption = some p then PinMode.ofValue? mode else none
  | .reset => some .output
  | _ => none

/-- The mode that a history of operations leaves a pin in: the last that one of them gave it. -/
def modeAfter (n p : Nat) (ops : List Operation) : PinMode :=
  ops.foldl (fun m op => (op.sets? n p).getD m) .output

theorem mode_setLevel (q level : Nat) : (s.setLevel q level).modes = s.modes := by
  refine List.ext_getElem? fun i => ?_
  rw [getElem?_modes, getElem?_modes, setLevel, modifyPin, List.getElem?_modify]
  cases s.pins[i]? with
  | none => rfl
  | some pin =>
    by_cases hi : q = i
    · simp [hi]
    · simp [hi]

theorem modes_withLevels {ls : List Nat} (h : ls.length = s.count) :
    (s.withLevels ls).modes = s.modes := by
  simp only [modes, withLevels, List.map_zipWith]
  refine List.ext_getElem (by simp [h, count]) fun i h₁ h₂ => ?_
  simp

theorem mode_configure (hp : p < s.count) (q : Nat) (m : PinMode) :
    (s.modifyPin q fun pin => { pin with mode := m }).modes[p]? =
      if q = p then some m else s.modes[p]? := by
  rw [getElem?_modes, getElem?_modes, modifyPin, List.getElem?_modify]
  obtain ⟨pin, hpin⟩ : ∃ pin, s.pins[p]? = some pin := ⟨_, List.getElem?_eq_getElem hp⟩
  rw [hpin]
  split_ifs <;> rfl

/-- **What one operation does to the mode of a pin.** -/
theorem mode_carryOut (h : Kept n s) (hn : 1 ≤ n) (hp : p < n) (op : Operation) :
    (s.carryOut op).2.modes[p]? = (op.sets? n p).or s.modes[p]? := by
  have hps : p < s.count := h.count.symm ▸ hp
  have hcount : s.count = (dark n).count := h.count.trans (kept_dark n).count.symm
  cases op with
  | read pin => rfl
  | reset =>
    change (dark s.count).modes[p]? = some .output
    simp [getElem?_modes, dark, hps]
  | command c =>
    unfold carryOut
    dsimp only
    cases c with
    | configure index mode =>
      simp only [Operation.sets?, ← pin?_congr hcount, obey]
      cases hq : s.pin? index with
      | error r => simp [bind, Except.bind, Except.toOption]
      | ok q =>
        cases hm : PinMode.ofValue? mode with
        | none => simp [bind, Except.bind, throw, throwThe, MonadExceptOf.throw]
        | some m =>
          simp only [bind, Except.bind, pure, Except.pure, Except.toOption, Option.some.injEq]
          rw [mode_configure hps]
          split_ifs <;> rfl
    | writeDigital index value | writeLevel index level | toggle index =>
      change _ = s.modes[p]?
      split
      · rename_i t ht
        obtain ⟨q, -, ht⟩ := exists_of_bind ht
        cases ht
        rw [mode_setLevel]
      · rfl
    | setAll level | shiftLeft | shiftRight =>
      change _ = s.modes[p]?
      split
      · rename_i t ht
        have hpos : 1 ≤ s.count := h.count.symm ▸ hn
        obtain ⟨_, _, _, hc, -⟩ | ⟨-, ls, hlen, rfl, -⟩ := obey_cases hpos ht
        · cases hc
        · rw [modes_withLevels hlen]
      · rfl

/-- **What a pin is used for follows from the history**: how it was configured last, and an output
if it was not configured since the last reset. -/
theorem mode_run (hn : 1 ≤ n) (hp : p < n) (ops : List Operation) :
    ((dark n).run ops).modes[p]? = some (modeAfter n p ops) := by
  have general : ∀ (ops : List Operation) (s : Strip) (m : PinMode), Kept n s →
      s.modes[p]? = some m → (s.run ops).modes[p]? =
        some (ops.foldl (fun m op => (op.sets? n p).getD m) m) := by
    intro ops
    induction ops with
    | nil => exact fun _ _ _ hm => hm
    | cons op ops ih =>
      intro s m hs hm
      refine ih _ _ (hs.carryOut hn op) ?_
      rw [mode_carryOut hs hn hp, hm, Option.or_some]
  refine general ops (dark n) .output (kept_dark n) ?_
  simp [getElem?_modes, dark, hp]

/-! ## Writing one pin -/

/-- What writes the level of one pin. -/
inductive Writer where
  | digital (value : Value)
  | level (value : Value)
  | toggle
deriving DecidableEq

/-- The command by which a writer writes the pin that a value addresses. -/
def Writer.command (index : Value) : Writer → Command
  | digital value => .writeDigital index value
  | level value => .writeLevel index value
  | toggle => .toggle index

/-- **A pin is kept from a command**: the command is refused with an error about pins, and nothing
changes. -/
structure Guarded (s : Strip) (c : Command) : Prop where
  refused : ∃ r, (s.carryOut (.command c)).1 = .error r ∧
    ∀ st, ∃ k : Complaint, r.complaint st = .ok k ∧ k.kind = .pinRange
  levels : (s.carryOut (.command c)).2.levels = s.levels
  modes : (s.carryOut (.command c)).2.modes = s.modes

/-- **A command flips a pin**: it is accepted, and what was dark is fully on, what was not is
dark. -/
structure Flips (s : Strip) (c : Command) (p : Nat) : Prop where
  accepted : (s.carryOut (.command c)).1 = .ok none
  level : (s.carryOut (.command c)).2.levels[p]? =
    some (if 0 < s.levelAt p then 0 else fullLevel)
  others : ∀ i, i ≠ p → (s.carryOut (.command c)).2.levels[i]? = s.levels[i]?
  modes : (s.carryOut (.command c)).2.modes = s.modes

/-- An input is no pin for writing. -/
theorem outputPin?_of_input (hindex : Addresses index p) (hmode : s.modes[p]? = some .input) :
    s.outputPin? index = .error (.notOutput p) := by
  rw [outputPin?, hindex.pin? (lt_count_of_mode hmode)]
  simp only [bind, Except.bind, modeAt_of_mode hmode]
  rfl

/-- A command that is refused because a pin is an input leaves everything as it was. -/
theorem guarded_of_notOutput (p : Nat) (h : s.obey c = .error (.notOutput p)) : Guarded s c := by
  have hrun : s.carryOut (.command c) = (.error (.notOutput p), s) := by
    rw [carryOut, h]
  exact ⟨⟨_, by rw [hrun], fun _ => ⟨.pinNotOutput p, rfl, rfl⟩⟩, by rw [hrun], by rw [hrun]⟩

/-- Toggling looks at the number of the pin and at nothing else. -/
theorem flips_toggle (hindex : Addresses index p) (hp : p < s.count) :
    Flips s (.toggle index) p := by
  have hrun : s.carryOut (.command (.toggle index)) =
      (.ok none, s.setLevel p (if 0 < s.levelAt p then 0 else fullLevel)) := by
    rw [carryOut, obey, hindex.pin? hp]
    rfl
  refine ⟨by rw [hrun], ?_, fun i hi => ?_, ?_⟩
  · obtain ⟨pin, hpin⟩ : ∃ pin, s.pins[p]? = some pin := ⟨_, List.getElem?_eq_getElem hp⟩
    rw [hrun, getElem?_levels, setLevel, modifyPin, List.getElem?_modify, hpin]
    simp
  · rw [hrun, getElem?_levels, getElem?_levels, setLevel, pins_modifyPin_of_ne _ hi]
  · rw [hrun, mode_setLevel]

/-- **An input is kept from every writer but toggling**, whatever was done to the strip before, and
toggling flips it. -/
theorem guarded_run (ops : List Operation) (hindex : Addresses index p)
    (hmode : ((dark n).run ops).modes[p]? = some .input) (w : Writer) :
    (Guarded ((dark n).run ops) (w.command index) ↔ w ≠ .toggle) ∧
    (w = .toggle → Flips ((dark n).run ops) (w.command index) p) := by
  have hflips := flips_toggle hindex (lt_count_of_mode hmode)
  have hrefused := outputPin?_of_input hindex hmode
  cases w with
  | digital value | level value =>
    refine ⟨⟨fun _ => nofun, fun _ => guarded_of_notOutput p ?_⟩, nofun⟩
    simp only [Writer.command, obey, hrefused]
    rfl
  | toggle =>
    refine ⟨⟨fun h => ?_, fun h => absurd rfl h⟩, fun _ => hflips⟩
    obtain ⟨r, hr, -⟩ := h.refused
    exact absurd (hflips.accepted.symm.trans hr) nofun

/-- A lone pin that was lit and then made an input: writing is refused, and toggling darkens it. -/
def litInput : List Operation :=
  [.command (.writeDigital (.int 0) (.int 1)), .command (.configure (.int 0) (.str "INPUT"))]

theorem guarded_run_lit : Addresses (.int 0) 0 ∧ ((dark 1).run litInput).modes[0]? = some .input ∧
    Guarded ((dark 1).run litInput) (.writeLevel (.int 0) (.int 7)) ∧
    ((dark 1).run litInput).levels = [255] := by
  have hindex : Addresses (.int 0) 0 := .inl rfl
  have hmode : ((dark 1).run litInput).modes[0]? = some .input := by decide
  exact ⟨hindex, hmode, (guarded_run litInput hindex hmode (.level (.int 7))).1.mpr nofun,
    by decide⟩

/-- Not every writer spares an input: toggling a dark one lights it. -/
theorem not_guarded_toggle :
    ¬ ∀ (n : Nat) (ops : List Operation) (index : Value) (p : Nat) (w : Writer), 1 ≤ n →
      Addresses index p → ((dark n).run ops).modes[p]? = some .input →
      Guarded ((dark n).run ops) (w.command index) := by
  intro h
  have guarded := h 1 [.command (.configure (.int 0) (.str "INPUT"))] (.int 0) 0 .toggle
    (by decide) (.inl rfl) (by decide)
  have : ((dark 1).run [.command (.configure (.int 0) (.str "INPUT")),
      .command (.toggle (.int 0))]).levels = [0] := guarded.levels
  revert this
  decide

end LedSketch.Strip
