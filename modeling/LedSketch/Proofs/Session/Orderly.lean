import LedSketch.Session.Control

/-!
# Orderly benches

What the records of clocks, schedulers and sessions say about each other. A session knows its
scheduler and the scheduler its latest session; generations of a clock ascend with the sessions that
got them; and whoever holds the current generation of a clock owns its scheduler.

What can happen to such a bench: something else changes, a generation is invalidated, a session that
owns its scheduler without being live is ended, a session is started, and a scheduler that has
stopped is reset. Each keeps the order.

* `Orderly` — the records agree;
* `Alike.orderly`, `Orderly.invalidate`, `Orderly.finish`, `Orderly.started`, `Orderly.reset` — what
  keeps the agreement.
-/

namespace LedSketch.Bench

variable {b b' : Bench} {s t i : Nat}

/-! ## Records -/

theorem get_sessions_modifySession (f : Session → Session) :
    (b.modifySession s f).sessions.get t =
      if s = t then f (b.sessions.get s) else b.sessions.get t :=
  Shelf.get_put _ _ _ _

theorem get_schedulers_modifyScheduler (f : Scheduler → Scheduler) (j : Nat) :
    (b.modifyScheduler i f).schedulers.get j =
      if i = j then f (b.schedulers.get i) else b.schedulers.get j :=
  Shelf.get_put _ _ _ _

theorem size_modifySession (h : s < b.sessions.size) (f : Session → Session) :
    (b.modifySession s f).sessions.size = b.sessions.size :=
  Shelf.size_put h _

theorem get_clocks_invalidate (c g d : Nat) :
    (b.invalidate c g).clocks.get d =
      if c = d then (b.clocks.get c).invalidate g else b.clocks.get d :=
  Shelf.get_put _ _ _ _

theorem lastIssued_invalidate (k : Clock) (g : Nat) :
    (k.invalidate g).lastIssued = k.lastIssued := by
  unfold Clock.invalidate
  split <;> rfl

theorem get_sessions_finish (state : RunState) (error : Option String) :
    (b.finish s state error).sessions.get t =
      if s = t then { b.sessions.get s with state, error, endedAt := some b.now }
      else b.sessions.get t :=
  get_sessions_modifySession _

theorem get_schedulers_finish (state : RunState) (error : Option String) (j : Nat) :
    (b.finish s state error).schedulers.get j =
      if (b.sessions.get s).scheduler = j then { b.schedulers.get j with state }
      else b.schedulers.get j := by
  have same : ((b.modifySession s fun x => { x with state, error, endedAt := some b.now }).sessions.get
      s).scheduler = (b.sessions.get s).scheduler := by
    rw [get_sessions_modifySession, if_pos rfl]
  rw [finish, get_schedulers_modifyScheduler, same]
  split
  · next h => subst h; rfl
  · rfl

/-- Whether the generation of a session is current. -/
def live (b : Bench) (s : Nat) : Bool :=
  b.isCurrent (b.sessions.get s).clock (b.sessions.get s).generation

theorem isLive_wiring : b.isLive (b.sessions.get s).wiring = b.live s := rfl

theorem owns_iff : b.owns s = true ↔
    (b.schedulers.get (b.sessions.get s).scheduler).session = some s ∧
      (b.schedulers.get (b.sessions.get s).scheduler).state = .running := by
  simp [owns]

theorem isCurrent_iff (c g : Nat) : b.isCurrent c g = true ↔ (b.clocks.get c).current = some g := by
  simp [isCurrent, Clock.isCurrent]

theorem isCurrent_invalidate (c g d h : Nat) :
    (b.invalidate c g).isCurrent d h = true ↔ b.isCurrent d h = true ∧ ¬ (c = d ∧ g = h) := by
  rw [isCurrent_iff, isCurrent_iff, get_clocks_invalidate, Clock.invalidate]
  grind

/-! ## Order -/

/-- The records of clocks, schedulers and sessions agree. -/
structure Orderly (b : Bench) : Prop where
  /-- The session of a scheduler exists, -/
  session_lt : ∀ i s, (b.schedulers.get i).session = some s → s < b.sessions.size
  /-- knows its scheduler, -/
  scheduler_eq : ∀ i s, (b.schedulers.get i).session = some s → (b.sessions.get s).scheduler = i
  /-- and writes to the same console. -/
  console_eq : ∀ i s, (b.schedulers.get i).session = some s →
    (b.schedulers.get i).console = (b.sessions.get s).console
  clock_eq : ∀ s, s < b.sessions.size →
    (b.sessions.get s).clock = (b.schedulers.get (b.sessions.get s).scheduler).clock
  running : ∀ i, (b.schedulers.get i).state = .running → ∃ s, (b.schedulers.get i).session = some s
  /-- The generation of a session has been issued by its clock, -/
  issued : ∀ s, s < b.sessions.size →
    (b.sessions.get s).generation ≤ (b.clocks.get (b.sessions.get s).clock).lastIssued
  /-- later ones for later sessions. -/
  ascending : ∀ s t, s < t → t < b.sessions.size → (b.sessions.get s).clock = (b.sessions.get t).clock →
    (b.sessions.get s).generation < (b.sessions.get t).generation
  /-- Whose generation is current owns its scheduler, -/
  owner : ∀ s, s < b.sessions.size → b.live s = true → b.owns s = true
  /-- and every current generation belongs to a session. -/
  holder : ∀ c g, (b.clocks.get c).current = some g →
    ∃ s, s < b.sessions.size ∧ (b.sessions.get s).clock = c ∧ (b.sessions.get s).generation = g

/-- A bench on which nothing has been started is orderly. -/
theorem Orderly.of_unused (size : b.sessions.size = 0)
    (idle : ∀ i, (b.schedulers.get i).state = .idle)
    (session : ∀ i, (b.schedulers.get i).session = none)
    (current : ∀ c, (b.clocks.get c).current = none) : Orderly b where
  session_lt i s h := by simp [session] at h
  scheduler_eq i s h := by simp [session] at h
  console_eq i s h := by simp [session] at h
  clock_eq s h := by omega
  running i h := by simp [idle] at h
  issued s h := by omega
  ascending s t _ h := by omega
  owner s h := by omega
  holder c g h := by simp [current] at h

/-- Two benches keep the same records but for the states of schedulers and sessions. -/
structure Alike (b b' : Bench) : Prop where
  clocks : b'.clocks = b.clocks
  size : b'.sessions.size = b.sessions.size
  scheduler : ∀ s, (b'.sessions.get s).scheduler = (b.sessions.get s).scheduler
  wiring : ∀ s, (b'.sessions.get s).wiring = (b.sessions.get s).wiring
  session : ∀ i, (b'.schedulers.get i).session = (b.schedulers.get i).session
  console : ∀ i, (b'.schedulers.get i).console = (b.schedulers.get i).console
  timekeeper : ∀ i, (b'.schedulers.get i).clock = (b.schedulers.get i).clock

theorem wiring_eq_iff {x y : Session} : x.wiring = y.wiring ↔
    x.strip = y.strip ∧ x.console = y.console ∧ x.clock = y.clock ∧ x.generation = y.generation := by
  simp [Session.wiring]

namespace Alike

theorem refl (b : Bench) : Alike b b :=
  ⟨rfl, rfl, fun _ => rfl, fun _ => rfl, fun _ => rfl, fun _ => rfl, fun _ => rfl⟩

/-- Benches are alike if a session is changed without changing what it is wired to. -/
theorem modifySession (hs : s < b.sessions.size) {f : Session → Session}
    (hw : ∀ x, (f x).wiring = x.wiring) (hx : ∀ x, (f x).scheduler = x.scheduler) :
    Alike b (b.modifySession s f) where
  clocks := rfl
  size := size_modifySession hs f
  scheduler t := by
    rw [get_sessions_modifySession]
    split
    · next hst => rw [hx, hst]
    · rfl
  wiring t := by
    rw [get_sessions_modifySession]
    split
    · next hst => rw [hw, hst]
    · rfl
  session _ := rfl
  console _ := rfl
  timekeeper _ := rfl

/-- Benches are alike if a scheduler changes only its state. -/
theorem modifyScheduler (state : RunState) :
    Alike b (b.modifyScheduler i fun c => { c with state }) where
  clocks := rfl
  size := rfl
  scheduler _ := rfl
  wiring _ := rfl
  session j := by
    rw [get_schedulers_modifyScheduler]
    split
    · next hij => rw [hij]
    · rfl
  console j := by
    rw [get_schedulers_modifyScheduler]
    split
    · next hij => rw [hij]
    · rfl
  timekeeper j := by
    rw [get_schedulers_modifyScheduler]
    split
    · next hij => rw [hij]
    · rfl

theorem trans {b'' : Bench} (h : Alike b b') (h' : Alike b' b'') : Alike b b'' where
  clocks := h'.clocks.trans h.clocks
  size := h'.size.trans h.size
  scheduler s := (h'.scheduler s).trans (h.scheduler s)
  wiring s := (h'.wiring s).trans (h.wiring s)
  session i := (h'.session i).trans (h.session i)
  console i := (h'.console i).trans (h.console i)
  timekeeper i := (h'.timekeeper i).trans (h.timekeeper i)

theorem finish (hs : s < b.sessions.size) (state : RunState) (error : Option String) :
    Alike b (b.finish s state error) :=
  (modifySession hs (f := fun x => { x with state, error, endedAt := some b.now }) (fun _ => rfl)
    fun _ => rfl).trans (modifyScheduler state)

variable (h : Alike b b')
include h

theorem live (s : Nat) : b'.live s = b.live s := by
  obtain ⟨-, -, hc, hg⟩ := wiring_eq_iff.1 (h.wiring s)
  simp only [Bench.live, isCurrent, h.clocks, hc, hg]

theorem owns_of_state
    (hs : (b'.schedulers.get (b.sessions.get s).scheduler).state =
      (b.schedulers.get (b.sessions.get s).scheduler).state) : b'.owns s = b.owns s := by
  simp only [Bench.owns, h.scheduler, h.session, hs]

/-- Order is kept if only schedulers without a live session come to rest. -/
theorem orderly (ho : Orderly b)
    (hs : ∀ i, (b'.schedulers.get i).state = (b.schedulers.get i).state ∨
      (b'.schedulers.get i).state ≠ .running ∧
        ∀ s, s < b.sessions.size → b.live s = true → (b.sessions.get s).scheduler ≠ i) :
    Orderly b' where
  session_lt i s hi := by
    rw [h.size]
    rw [h.session] at hi
    exact ho.session_lt i s hi
  scheduler_eq i s hi := by
    rw [h.scheduler]
    rw [h.session] at hi
    exact ho.scheduler_eq i s hi
  console_eq i s hi := by
    rw [h.session] at hi
    rw [h.console, (wiring_eq_iff.1 (h.wiring s)).2.1]
    exact ho.console_eq i s hi
  clock_eq s hlt := by
    rw [h.size] at hlt
    rw [(wiring_eq_iff.1 (h.wiring s)).2.2.1, h.scheduler, h.timekeeper]
    exact ho.clock_eq s hlt
  running i hi := by
    rw [h.session]
    rcases hs i with same | ⟨rests, -⟩
    · exact ho.running i (same ▸ hi)
    · exact absurd hi rests
  issued s hlt := by
    rw [h.size] at hlt
    obtain ⟨-, -, hc, hg⟩ := wiring_eq_iff.1 (h.wiring s)
    rw [hg, hc, h.clocks]
    exact ho.issued s hlt
  ascending s t hst ht hc := by
    obtain ⟨-, -, hcs, hgs⟩ := wiring_eq_iff.1 (h.wiring s)
    obtain ⟨-, -, hct, hgt⟩ := wiring_eq_iff.1 (h.wiring t)
    rw [h.size] at ht
    rw [hcs, hct] at hc
    rw [hgs, hgt]
    exact ho.ascending s t hst ht hc
  owner s hlt hl := by
    rw [h.size] at hlt
    rw [h.live] at hl
    rcases hs (b.sessions.get s).scheduler with same | ⟨-, away⟩
    · rw [h.owns_of_state same]
      exact ho.owner s hlt hl
    · exact absurd rfl (away s hlt hl)
  holder c g hg := by
    rw [h.clocks] at hg
    obtain ⟨s, hlt, hc, hg⟩ := ho.holder c g hg
    obtain ⟨-, -, hcs, hgs⟩ := wiring_eq_iff.1 (h.wiring s)
    exact ⟨s, by rw [h.size]; exact hlt, by rw [hcs]; exact hc, by rw [hgs]; exact hg⟩

end Alike

/-- A reset changes nothing, or the state of a scheduler that is not running. -/
theorem reset_cases (b : Bench) (i : Nat) : (b.reset i).2 = b ∨
    (b.schedulers.get i).state ≠ .running ∧
      (b.reset i).2 = b.modifyScheduler i fun c => { c with state := .idle } := by
  unfold reset
  split
  · next hi => exact .inr ⟨by rw [hi]; nofun, rfl⟩
  · next hi => exact .inr ⟨by rw [hi]; nofun, rfl⟩
  · exact .inl rfl
  · exact .inl rfl

namespace Orderly

variable (h : Orderly b)
include h

theorem lt_of_owns (ho : b.owns s = true) : s < b.sessions.size :=
  h.session_lt _ _ (owns_iff.1 ho).1

omit h in
/-- A session that owns its scheduler is the only one of that scheduler to do so. -/
theorem eq_of_owns (hs : b.owns s = true) (ht : b.owns t = true)
    (hst : (b.sessions.get s).scheduler = (b.sessions.get t).scheduler) : s = t := by
  have hs := (owns_iff.1 hs).1
  have ht := (owns_iff.1 ht).1
  rw [hst, ht] at hs
  exact (Option.some.inj hs).symm

/-! ### What keeps the order -/

theorem invalidate (c g : Nat) : Orderly (b.invalidate c g) where
  session_lt := h.session_lt
  scheduler_eq := h.scheduler_eq
  console_eq := h.console_eq
  clock_eq := h.clock_eq
  running := h.running
  issued s hs := by
    refine Nat.le_trans (h.issued s hs) (Nat.le_of_eq ?_)
    rw [get_clocks_invalidate]
    split
    · next hc => rw [lastIssued_invalidate, hc]; rfl
    · rfl
  ascending := h.ascending
  owner s hs hl := h.owner s hs ((isCurrent_invalidate _ _ _ _).1 hl).1
  holder d g' hg := by
    have current : b.isCurrent d g' = true :=
      ((isCurrent_invalidate c g d g').1 ((isCurrent_iff d g').2 hg)).1
    exact h.holder d g' ((isCurrent_iff d g').1 current)

theorem finish (ho : b.owns s = true) (hd : b.live s = false) {state : RunState}
    (hr : state ≠ .running) (error : Option String) : Orderly (b.finish s state error) := by
  refine (Alike.finish (h.lt_of_owns ho) state error).orderly h fun i => ?_
  rw [get_schedulers_finish]
  split
  · next hi =>
    refine .inr ⟨hr, fun t ht hl hti => ?_⟩
    -- a live session of the scheduler would be the one that is ended
    have : t = s := eq_of_owns (h.owner t ht hl) ho (hti.trans hi.symm)
    rw [this, hd] at hl
    cases hl
  · exact .inl rfl

omit h in
theorem owns_finish (ho : b.owns s = true) {state : RunState} (hr : state ≠ .running)
    (error : Option String) (t : Nat) :
    (b.finish s state error).owns t = if s = t then false else b.owns t := by
  have scheduler : ((b.finish s state error).sessions.get t).scheduler =
      (b.sessions.get t).scheduler := by
    rw [get_sessions_finish]
    split
    · next hst => rw [hst]
    · rfl
  simp only [owns, scheduler, get_schedulers_finish]
  by_cases hst : (b.sessions.get s).scheduler = (b.sessions.get t).scheduler
  · simp only [hst, if_true]
    split
    · simp [hr]
    · next hne =>
      -- the scheduler runs the other session
      have : b.owns t ≠ true := fun ht => hne (eq_of_owns ho ht hst)
      simp only [owns] at this
      simp [hr, this]
  · have hne : s ≠ t := fun h => hst (by rw [h])
    simp only [if_neg hst, if_neg hne]

theorem reset (i : Nat) : Orderly (b.reset i).2 := by
  rcases reset_cases b i with same | ⟨hi, reset⟩
  · rwa [same]
  · rw [reset]
    refine (Alike.modifyScheduler .idle).orderly h fun j => ?_
    rw [get_schedulers_modifyScheduler]
    split
    · next hij =>
      -- a scheduler that is not running has no live session
      refine .inr ⟨nofun, fun s hs hl hj => hi ?_⟩
      rw [hij, ← hj]
      exact (owns_iff.1 (h.owner s hs hl)).2
    · exact .inl rfl

end Orderly

/-! ## Starting -/

variable {source : String} {strip console : Nat} {settings : Settings}

/-- What a bench is like after a scheduler has started a session. -/
structure Started (b : Bench) (i : Nat) (source : String) (strip console : Nat) (b' : Bench) : Prop
    where
  rested : (b.schedulers.get i).state ≠ .running
  clocks : b'.clocks = b.clocks.put (b.schedulers.get i).clock
    (b.clocks.get (b.schedulers.get i).clock).issue.2
  sessions : ∃ config, b'.sessions = (b.sessions.add
    { scheduler := i
      clock := (b.schedulers.get i).clock
      generation := (b.clocks.get (b.schedulers.get i).clock).issue.1
      source, strip, console, config
      startedAt := b.now }).2
  schedulers : b'.schedulers = b.schedulers.modify i fun c =>
    { c with state := .running, session := some b.sessions.size, console }
  consoles : b'.consoles = b.consoles
  strips : b'.strips = b.strips

/-- Whether two benches agree on clocks, schedulers, sessions, consoles and strips. -/
structure Unmoved (b b' : Bench) : Prop where
  clocks : b'.clocks = b.clocks
  schedulers : b'.schedulers = b.schedulers
  sessions : b'.sessions = b.sessions
  consoles : b'.consoles = b.consoles
  strips : b'.strips = b.strips

theorem Unmoved.refl (b : Bench) : Unmoved b b := ⟨rfl, rfl, rfl, rfl, rfl⟩

/-- A start is refused, or it starts a session that is new. -/
theorem start_cases (b : Bench) (i : Nat) (source : String) (strip console : Nat)
    (settings : Settings) :
    ((∀ s, (b.start i source strip console settings).1 ≠ .ok (some s)) ∧
      Unmoved b (b.start i source strip console settings).2) ∨
    ((b.start i source strip console settings).1 = .ok (some b.sessions.size) ∧
      Started b i source strip console (b.start i source strip console settings).2) := by
  unfold start
  by_cases hr : (b.schedulers.get i).state = .running
  · simp only [hr, if_true]
    exact .inl ⟨by rintro _ ⟨⟩, ⟨rfl, rfl, rfl, rfl, rfl⟩⟩
  · simp only [hr, if_false]
    cases hc : settings.config with
    | error problem => exact .inl ⟨by rintro _ ⟨⟩, Unmoved.refl b⟩
    | ok config =>
      obtain ⟨maxRuntime, safetyDelay, pinCount, yields, cacheSize⟩ := config
      cases cacheSize <;> exact .inr ⟨rfl, hr, rfl, ⟨_, rfl⟩, rfl, rfl, rfl⟩

namespace Started

variable (h : Started b i source strip console b')
include h

theorem size : b'.sessions.size = b.sessions.size + 1 := by
  obtain ⟨config, hs⟩ := h.sessions
  rw [hs, Shelf.size_add]

theorem get_old (hs : s < b.sessions.size) : b'.sessions.get s = b.sessions.get s := by
  obtain ⟨config, h⟩ := h.sessions
  rw [h, Shelf.get_add_of_lt _ _ hs]

theorem get_new : ∃ config, b'.sessions.get b.sessions.size =
    { scheduler := i
      clock := (b.schedulers.get i).clock
      generation := (b.clocks.get (b.schedulers.get i).clock).lastIssued + 1
      source, strip, console, config
      startedAt := b.now } := by
  obtain ⟨config, h⟩ := h.sessions
  exact ⟨config, by rw [h, Shelf.get_add_self]; rfl⟩

theorem get_scheduler (j : Nat) : b'.schedulers.get j =
    if i = j then
      { b.schedulers.get i with state := .running, session := some b.sessions.size, console }
    else b.schedulers.get j := by
  rw [h.schedulers]
  exact Shelf.get_put _ _ _ _

theorem get_clock (c : Nat) : b'.clocks.get c =
    if (b.schedulers.get i).clock = c then (b.clocks.get (b.schedulers.get i).clock).issue.2
    else b.clocks.get c := by
  rw [h.clocks]
  exact Shelf.get_put _ _ _ _

/-- Of the old sessions, those keep living that have another clock. -/
theorem live_old (ho : Orderly b) (hs : s < b.sessions.size) : b'.live s = true ↔
    b.live s = true ∧ (b.schedulers.get i).clock ≠ (b.sessions.get s).clock := by
  simp only [live, isCurrent_iff, h.get_old hs, h.get_clock, Clock.issue]
  have := ho.issued s hs
  split
  · next hc =>
    simp only [hc, Option.some.injEq, not_true_eq_false, and_false, iff_false, ne_eq]
    omega
  · next hc => simp only [ne_eq, hc, not_false_eq_true, and_true]

/-- Old sessions own their schedulers as before: the one that starts was not running. -/
theorem owns_old (hs : s < b.sessions.size) : b'.owns s = b.owns s := by
  by_cases hi : (b.sessions.get s).scheduler = i
  · have rested : b.owns s = false := by
      rw [Bool.eq_false_iff]
      intro ho
      exact h.rested (hi ▸ (owns_iff.1 ho).2)
    rw [rested, Bool.eq_false_iff]
    intro ho
    have := (owns_iff.1 ho).1
    rw [h.get_old hs, h.get_scheduler, if_pos hi.symm] at this
    exact absurd (Option.some.inj this) (Nat.ne_of_gt hs)
  · simp only [owns, h.get_old hs, h.get_scheduler, if_neg (Ne.symm hi)]

theorem orderly (ho : Orderly b) : Orderly b' := by
  obtain ⟨config, new⟩ := h.get_new
  have size := h.size
  -- the session of a scheduler is the new one, or it is an old one of another scheduler
  have session (j s) (hj : (b'.schedulers.get j).session = some s) :
      (i = j ∧ s = b.sessions.size) ∨
        (i ≠ j ∧ s < b.sessions.size ∧ (b.schedulers.get j).session = some s) := by
    rw [h.get_scheduler] at hj
    split at hj
    · next hij => exact .inl ⟨hij, (Option.some.inj hj).symm⟩
    · next hij => exact .inr ⟨hij, ho.session_lt j s hj, hj⟩
  have old_or_new (s) (hs : s < b'.sessions.size) : s < b.sessions.size ∨ s = b.sessions.size := by
    omega
  constructor
  case session_lt =>
    intro j s hj
    rcases session j s hj with ⟨-, rfl⟩ | ⟨-, hs, -⟩ <;> omega
  case scheduler_eq =>
    intro j s hj
    rcases session j s hj with ⟨rfl, rfl⟩ | ⟨-, hs, hj⟩
    · rw [new]
    · rw [h.get_old hs, ho.scheduler_eq j s hj]
  case console_eq =>
    intro j s hj
    rcases session j s hj with ⟨rfl, rfl⟩ | ⟨hij, hs, hj⟩
    · rw [new, h.get_scheduler, if_pos rfl]
    · rw [h.get_old hs, h.get_scheduler, if_neg hij, ho.console_eq j s hj]
  case clock_eq =>
    intro s hs
    have same (j) : (b'.schedulers.get j).clock = (b.schedulers.get j).clock := by
      rw [h.get_scheduler]
      split
      · next hij => rw [hij]
      · rfl
    rw [same]
    rcases old_or_new s hs with hs | rfl
    · rw [h.get_old hs, ho.clock_eq s hs]
    · rw [new]
  case running =>
    intro j hj
    rw [h.get_scheduler] at hj ⊢
    split at hj
    · next hij => exact ⟨_, by rw [if_pos hij]⟩
    · next hij => rw [if_neg hij]; exact ho.running j hj
  case issued =>
    intro s hs
    rcases old_or_new s hs with hs | rfl
    · have := ho.issued s hs
      rw [h.get_old hs, h.get_clock]
      split
      · next hc =>
        rw [← hc] at this
        exact Nat.le_succ_of_le this
      · exact this
    · rw [new, h.get_clock, if_pos rfl]
      exact Nat.le_refl _
  case ascending =>
    intro s t hst ht hc
    have hs : s < b.sessions.size := by omega
    rcases old_or_new t ht with ht | rfl
    · rw [h.get_old hs, h.get_old ht] at hc ⊢
      exact ho.ascending s t hst ht hc
    · rw [h.get_old hs, new] at hc ⊢
      have := ho.issued s hs
      rw [hc] at this
      exact Nat.lt_succ_of_le this
  case owner =>
    intro s hs hl
    rcases old_or_new s hs with hs | rfl
    · obtain ⟨hl, -⟩ := (h.live_old ho hs).1 hl
      rw [h.owns_old hs]
      exact ho.owner s hs hl
    · rw [owns_iff, new, h.get_scheduler, if_pos rfl]
      exact ⟨rfl, rfl⟩
  case holder =>
    intro c g hg
    rw [h.get_clock] at hg
    split at hg
    · next hc =>
      exact ⟨b.sessions.size, by omega, by rw [new]; exact hc, by rw [new]; exact Option.some.inj hg⟩
    · obtain ⟨s, hs, hc, hg⟩ := ho.holder c g hg
      exact ⟨s, by omega, by rw [h.get_old hs]; exact hc, by rw [h.get_old hs]; exact hg⟩

end Started

end LedSketch.Bench
