import LedSketch.Proofs.Session.Turns

/-!
# Workshops

A workshop is a bench together with where the driver of each session rests. What happens in it
happens in any order: schedulers are started, stopped and reset, any session that rests may take its
turn, be it because its rest is over or because it is cancelled, and time passes.

* `Workshop.move`, `Workshop.run` — what happens;
* `Workshop.transcript` — what is written for whom meanwhile;
* `Workshop.sound_run` — a transcript stays faithful, whatever happens.
-/

namespace LedSketch

open Bench

/-- A bench, and for every session that has been started where it rests or how it has ended. -/
structure Workshop where
  bench : Bench
  tasks : Nat → Option (Drive ⊕ Ending) := fun _ => none

/-- What can happen in a workshop. -/
inductive Move where
  | start (scheduler : Nat) (source : String) (strip console : Nat) (settings : Settings)
  | stop (scheduler : Nat)
  | reset (scheduler : Nat)
  /-- A session that rests goes on. -/
  | turn (session : Nat) (wake : Wake)
  /-- Time passes. -/
  | pass (now : Float)

/-- Where a session is behind its turn. -/
def Turn.task : Turn → Drive ⊕ Ending
  | .rests _ d => .inl d
  | .ended e => .inr e

theorem Drive.Sound.mono {live live' : Prop} {d : Drive} (h : d.Sound live)
    (hl : live' → live) : d.Sound live' := by
  cases d with
  | fresh => trivial
  | opening k => exact fun hl' => h (hl hl')
  | midway stage loop k => exact fun hl' => h (hl hl')

namespace Workshop

/-- What a workshop is like after a move. A session that does not rest takes no turn. -/
def move (w : Workshop) : Move → Workshop
  | .start i source strip console settings =>
    match w.bench.start i source strip console settings with
    | (.ok (some s), bench) => ⟨bench, Function.update w.tasks s (some (.inl .fresh))⟩
    | (_, bench) => { w with bench }
  | .stop i => { w with bench := (w.bench.stop i).2 }
  | .reset i => { w with bench := (w.bench.reset i).2 }
  | .turn s wake =>
    match w.tasks s with
    | some (.inl d) =>
      let (turn, bench) := d.resume s wake w.bench
      ⟨bench, Function.update w.tasks s (some turn.task)⟩
    | _ => w
  | .pass now => { w with bench := { w.bench with now } }

/-- What a move adds to the transcript. -/
def told (w : Workshop) : Move → List Entry
  | .stop i => w.bench.stopEntries i
  | .turn s wake =>
    match w.tasks s with
    | some (.inl d) => d.told s wake w.bench
    | _ => []
  | .start .. | .reset _ | .pass _ => []

/-- What a workshop is like after some moves. -/
def run (w : Workshop) (moves : List Move) : Workshop := moves.foldl move w

/-- What is told of some moves. -/
def transcript (w : Workshop) : List Move → List Entry
  | [] => []
  | m :: moves => w.told m ++ (w.move m).transcript moves

theorem transcript_append (w : Workshop) (moves moves' : List Move) :
    w.transcript (moves ++ moves') = w.transcript moves ++ (w.run moves).transcript moves' := by
  induction moves generalizing w with
  | nil => rfl
  | cons m moves ih =>
    rw [List.cons_append, transcript, transcript, ih, List.append_assoc]
    rfl

/-- Whether nothing has been started yet. -/
structure Unused (w : Workshop) : Prop where
  sessions : w.bench.sessions.size = 0
  idle : ∀ i, (w.bench.schedulers.get i).state = .idle
  session : ∀ i, (w.bench.schedulers.get i).session = none
  current : ∀ c, (w.bench.clocks.get c).current = none
  tasks : ∀ s, w.tasks s = none

/-- A transcript is faithful, every session that rests is where its last line says, and a driver
that has returned has left its session over. -/
structure Sound (before : Shelf Console) (log : List Entry) (w : Workshop) : Prop where
  faithful : ∃ p, Faithful before log w.bench p ∧
    ∀ s d, w.tasks s = some (.inl d) → d.Placed (w.bench.sessions.get s).iterations (p s)
  started : ∀ s, (w.tasks s).isSome → s < w.bench.sessions.size
  sound : ∀ s d, w.tasks s = some (.inl d) → d.Sound (w.bench.live s = true)
  gone : ∀ s, w.tasks s = some (.inr .finished) → w.bench.owns s = false

variable {w : Workshop} {before : Shelf Console} {log : List Entry}

theorem Unused.sound (h : w.Unused) : w.Sound w.bench.consoles [] where
  faithful := ⟨fun _ => .opening,
    .nil (.of_unused h.sessions h.idle h.session h.current) h.sessions,
    fun s d hd => by simp [h.tasks] at hd⟩
  started s hs := by simp [h.tasks] at hs
  sound s d hd := by simp [h.tasks] at hd
  gone s hs := by simp [h.tasks] at hs

/-! ## What keeps a transcript faithful -/

/-- A move that starts nothing and lets nobody take a turn. -/
theorem Sound.aside {log' : List Entry} {b : Bench} (h : w.Sound before log)
    (onward : Onward w.bench b)
    (hf : ∀ p, Faithful before log w.bench p → Faithful before log' b p) :
    ({ w with bench := b } : Workshop).Sound before log' := by
  obtain ⟨p, faithful, placed⟩ := h.faithful
  refine ⟨⟨p, hf p faithful, fun s d hd => ?_⟩, fun s hs => ?_, fun s d hd => ?_, fun s hs => ?_⟩
  · rw [onward.iterations]
    exact placed s d hd
  · exact Nat.lt_of_lt_of_le (h.started s hs) onward.size_le
  · exact (h.sound s d hd).mono fun hl => onward.live hl
  · exact onward.gone (h.gone s hs)

/-- A session is started, which rests before its first turn. -/
theorem Sound.launch {i strip console : Nat} {source : String} {b : Bench}
    (h : w.Sound before log) (hb : Started w.bench i source strip console b) :
    (⟨b, Function.update w.tasks w.bench.sessions.size (some (.inl .fresh))⟩ : Workshop).Sound
      before log := by
  obtain ⟨p, faithful, placed⟩ := h.faithful
  obtain ⟨config, new⟩ := hb.get_new
  have old (s d) (hs : s ≠ w.bench.sessions.size)
      (hd : Function.update w.tasks w.bench.sessions.size (some (.inl .fresh)) s = some d) :
      w.tasks s = some d ∧ s < w.bench.sessions.size := by
    rw [Function.update_of_ne hs] at hd
    exact ⟨hd, h.started s (by rw [hd]; rfl)⟩
  have fresh {d} (hd : Function.update w.tasks w.bench.sessions.size (some (.inl .fresh))
      w.bench.sessions.size = some d) : d = .inl .fresh := by
    rw [Function.update_self] at hd
    exact (Option.some.inj hd).symm
  refine ⟨⟨_, faithful.started hb, fun s d hd => ?_⟩, fun s hs => ?_, fun s d hd => ?_,
    fun s hd => ?_⟩
  · by_cases hs : s = w.bench.sessions.size
    · subst hs
      cases fresh hd
      rw [Function.update_self, new]
      exact ⟨rfl, rfl⟩
    · obtain ⟨hd, hlt⟩ := old s _ hs hd
      rw [Function.update_of_ne hs, hb.get_old hlt]
      exact placed s d hd
  · rw [hb.size]
    by_cases hs' : s = w.bench.sessions.size
    · omega
    · obtain ⟨d, hd⟩ := Option.isSome_iff_exists.1 hs
      exact Nat.lt_succ_of_lt (old s d hs' hd).2
  · by_cases hs : s = w.bench.sessions.size
    · subst hs
      cases fresh hd
      trivial
    · obtain ⟨hd, hlt⟩ := old s _ hs hd
      exact (h.sound s d hd).mono fun hl => ((hb.live_old faithful.orderly hlt).1 hl).1
  · by_cases hs : s = w.bench.sessions.size
    · subst hs
      cases fresh hd
    · obtain ⟨hd, hlt⟩ := old s _ hs hd
      exact (hb.owns_old hlt).trans (h.gone s hd)

theorem Sound.start (h : w.Sound before log) (i : Nat) (source : String) (strip console : Nat)
    (settings : Settings) :
    (w.move (.start i source strip console settings)).Sound before log := by
  rw [move]
  have cases := start_cases w.bench i source strip console settings
  generalize w.bench.start i source strip console settings = r at cases ⊢
  obtain ⟨answer, b⟩ := r
  rcases cases with ⟨refused, unmoved⟩ | ⟨rfl, started⟩
  · have same : ({ w with bench := b } : Workshop).Sound before log :=
      h.aside (.of_eq unmoved.sessions unmoved.clocks unmoved.schedulers) fun p hf =>
        hf.quiet (.of_eq unmoved.clocks unmoved.schedulers unmoved.sessions unmoved.consoles)
    match answer, refused with
    | .ok (some s), refused => exact absurd rfl (refused s)
    | .ok none, _ => exact same
    | .error _, _ => exact same
  · exact h.launch started

/-- A session takes its turn, which concerns the others only in that they may be stopped. -/
theorem Sound.turned {s : Nat} {r : Turn × Bench} {log' : List Entry} (h : w.Sound before log)
    (hs : s < w.bench.sessions.size) (aside : Aside s w.bench r.2)
    (gone' : r.1 = .ended .finished → r.2.owns s = false)
    (ht : ∀ p, Faithful before log w.bench p →
      (∀ d, w.tasks s = some (.inl d) → d.Placed (w.bench.sessions.get s).iterations (p s)) →
      Turned before log' p s r) :
    (⟨r.2, Function.update w.tasks s (some r.1.task)⟩ : Workshop).Sound before log' := by
  obtain ⟨p, faithful, placed⟩ := h.faithful
  obtain ⟨⟨q, faithful', placed'⟩, sound'⟩ := ht p faithful (placed s)
  have other {t} (hts : t ≠ s) : Function.update w.tasks s (some r.1.task) t = w.tasks t :=
    Function.update_of_ne hts _ _
  have rests {d} (hd : Function.update w.tasks s (some r.1.task) s = some (.inl d)) :
      ∃ nap, r.1 = .rests nap d := by
    rw [Function.update_self] at hd
    cases hr : r.1 with
    | rests nap d' =>
      rw [hr] at hd
      exact ⟨nap, by rw [Sum.inl.inj (Option.some.inj hd)]⟩
    | ended e =>
      rw [hr] at hd
      cases hd
  refine ⟨⟨_, faithful', fun t d hd => ?_⟩, fun t hd => ?_, fun t d hd => ?_, fun t hd => ?_⟩
  · by_cases hts : t = s
    · subst hts
      obtain ⟨nap, hr⟩ := rests hd
      rw [Function.update_self]
      exact placed' nap d hr
    · rw [Function.update_of_ne hts, aside.iterations t hts]
      exact placed t d ((other hts).symm.trans hd)
  · refine Nat.lt_of_lt_of_le ?_ aside.size_le
    by_cases hts : t = s
    · rw [hts]
      exact hs
    · exact h.started t (other hts ▸ hd)
  · by_cases hts : t = s
    · subst hts
      obtain ⟨nap, hr⟩ := rests hd
      exact sound' nap d hr
    · exact (h.sound t d ((other hts).symm.trans hd)).mono fun hl => aside.live hl
  · by_cases hts : t = s
    · subst hts
      dsimp only at hd
      rw [Function.update_self] at hd
      cases hr : r.1 with
      | rests nap d =>
        rw [hr] at hd
        cases hd
      | ended e =>
        rw [hr] at hd
        cases hd
        exact gone' hr
    · exact aside.gone (h.gone t ((other hts).symm.trans hd))

theorem Sound.turn (h : w.Sound before log) (s : Nat) (wake : Wake) :
    (w.move (.turn s wake)).Sound before (log ++ w.told (.turn s wake)) := by
  rw [move, told]
  match hd : w.tasks s with
  | none | some (.inr _) => simpa using h
  | some (.inl d) =>
    have hs : s < w.bench.sessions.size := h.started s (by rw [hd]; rfl)
    exact h.turned hs (aside_resume s d wake w.bench) owns_of_finished fun p faithful placed =>
      faithful.resume hs (placed d hd) (h.sound s d hd) wake

theorem Sound.move (h : w.Sound before log) (m : Move) :
    (w.move m).Sound before (log ++ w.told m) := by
  cases m with
  | start i source strip console settings =>
    rw [told, List.append_nil]
    exact h.start i source strip console settings
  | stop i => exact h.aside (onward_stop _ i) fun p hf => hf.stop i
  | reset i =>
    rw [told, List.append_nil]
    exact h.aside (onward_reset _ i) fun p hf => hf.reset i
  | turn s wake => exact h.turn s wake
  | pass now =>
    rw [told, List.append_nil]
    exact h.aside (.of_eq rfl rfl rfl) fun p hf => hf.quiet (.of_eq rfl rfl rfl rfl)

/-- **Whatever happens, the transcript stays faithful.** -/
theorem Sound.run (h : w.Sound before log) (moves : List Move) :
    (w.run moves).Sound before (log ++ w.transcript moves) := by
  induction moves generalizing w log with
  | nil => rwa [transcript, List.append_nil]
  | cons m moves ih =>
    rw [transcript, ← List.append_assoc]
    exact ih (h.move m)

end Workshop
end LedSketch
