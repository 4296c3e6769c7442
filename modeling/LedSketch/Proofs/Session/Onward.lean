import LedSketch.Proofs.Session.Standing

/-!
# What a turn cannot do

Within a turn of a session no generation becomes current, no session is wired anew, and rounds are
counted only where one is completed. Only the sketch itself gives commands to the strips.

* `writeWithin_preserves` — what is kept by appending lines and by halting sessions is kept by
  writing;
* `Onward`, `onward_perform`, `onward_conclude` — no step of a turn does any of this;
* `Aside`, `aside_resume` — a whole turn counts only rounds of its own session;
* `strips_write`, `strips_conclude` — writing lines and ending a session leave the strips alone.
-/

namespace LedSketch.Bench

variable {b b' : Bench}

/-- What a write does: it appends lines, repeats them, and halts sessions. -/
theorem writeWithin_preserves {P : Bench → Prop}
    (append : ∀ b c l, P b → P (b.append c l))
    (terminal : ∀ b t, P b → P { b with terminal := t })
    (halt : ∀ b i s, (b.schedulers.get i).state = .running →
      (b.schedulers.get i).session = some s → P b →
      P ((b.invalidate (b.schedulers.get i).clock (b.sessions.get s).generation).finish s .stopped
        none))
    (depth : Nat) (b : Bench) (c : Nat) (severity : Severity) (text : String) (h : P b) :
    P (b.writeWithin depth c severity text) := by
  induction depth generalizing b c severity text with
  | zero =>
    have appended := append b c ⟨severity, text⟩ h
    rw [writeWithin]
    split
    · exact appended
    · exact terminal _ _ appended
    · exact appended
  | succ depth ih =>
    have appended := append b c ⟨severity, text⟩ h
    rw [writeWithin]
    split
    · exact appended
    · exact terminal _ _ appended
    · simp only
      split
      · rw [stopWithin]
        split
        · next hr hs => exact terminal _ _ (ih _ _ _ _ (halt _ _ _ hr hs appended))
        · exact appended
      · exact appended

/-- The clock of a scheduler. -/
def clockOf (b : Bench) (i : Nat) : Clock := b.clocks.get (b.schedulers.get i).clock

/-- Whether no other scheduler with the same clock has started a session; moreover schedulers and
their sessions know each other. -/
structure Sole (b : Bench) (i : Nat) : Prop where
  alone : ∀ j s, (b.schedulers.get j).session = some s →
    (b.schedulers.get j).clock = (b.schedulers.get i).clock → j = i
  scheduler : ∀ j s, (b.schedulers.get j).session = some s → (b.sessions.get s).scheduler = j
  clock : ∀ j s, (b.schedulers.get j).session = some s →
    (b.sessions.get s).clock = (b.schedulers.get j).clock

/-- Nothing is wired anew, nothing is issued or becomes current, and nobody takes a scheduler. A
scheduler that has its clock alone and is still running still holds it. -/
structure Forth (b b' : Bench) : Prop where
  size_le : b.sessions.size ≤ b'.sessions.size
  wiring : ∀ s, (b'.sessions.get s).wiring = (b.sessions.get s).wiring
  scheduler : ∀ s, (b'.sessions.get s).scheduler = (b.sessions.get s).scheduler
  session : ∀ i, (b'.schedulers.get i).session = (b.schedulers.get i).session
  timekeeper : ∀ i, (b'.schedulers.get i).clock = (b.schedulers.get i).clock
  console : ∀ i, (b'.schedulers.get i).console = (b.schedulers.get i).console
  issued : ∀ c, (b'.clocks.get c).lastIssued = (b.clocks.get c).lastIssued
  current : ∀ c g, b'.isCurrent c g = true → b.isCurrent c g = true
  owns : ∀ s, b'.owns s = true → b.owns s = true
  holds : ∀ i, b.Sole i → (b'.schedulers.get i).state = .running →
    (b.schedulers.get i).state = .running ∧ (b'.clockOf i).current = (b.clockOf i).current

namespace Forth

theorem refl (b : Bench) : Forth b b :=
  ⟨Nat.le_refl _, fun _ => rfl, fun _ => rfl, fun _ => rfl, fun _ => rfl, fun _ => rfl,
    fun _ => rfl, fun _ _ h => h, fun _ h => h, fun _ _ hr => ⟨hr, rfl⟩⟩

theorem sole (h : Forth b b') {i : Nat} (hi : b.Sole i) : b'.Sole i where
  alone j s hj hc := by
    rw [h.session] at hj
    rw [h.timekeeper, h.timekeeper] at hc
    exact hi.alone j s hj hc
  scheduler j s hj := by
    rw [h.session] at hj
    rw [h.scheduler]
    exact hi.scheduler j s hj
  clock j s hj := by
    rw [h.session] at hj
    rw [(wiring_eq_iff.1 (h.wiring s)).2.2.1, h.timekeeper]
    exact hi.clock j s hj

theorem trans {b'' : Bench} (h : Forth b b') (h' : Forth b' b'') : Forth b b'' where
  size_le := Nat.le_trans h.size_le h'.size_le
  wiring s := (h'.wiring s).trans (h.wiring s)
  scheduler s := (h'.scheduler s).trans (h.scheduler s)
  session i := (h'.session i).trans (h.session i)
  timekeeper i := (h'.timekeeper i).trans (h.timekeeper i)
  console i := (h'.console i).trans (h.console i)
  issued c := (h'.issued c).trans (h.issued c)
  current c g hc := h.current c g (h'.current c g hc)
  owns s ho := h.owns s (h'.owns s ho)
  holds i hi hr := by
    obtain ⟨hr, hc⟩ := h'.holds i (h.sole hi) hr
    obtain ⟨hr, hc'⟩ := h.holds i hi hr
    exact ⟨hr, hc.trans hc'⟩

theorem modifySession (b : Bench) (s : Nat) {f : Session → Session}
    (hw : ∀ x, (f x).wiring = x.wiring) (hx : ∀ x, (f x).scheduler = x.scheduler) :
    Forth b (b.modifySession s f) := by
  have scheduler (t : Nat) :
      ((b.modifySession s f).sessions.get t).scheduler = (b.sessions.get t).scheduler := by
    rw [get_sessions_modifySession]
    split
    · next h => rw [hx, h]
    · rfl
  refine ⟨Shelf.size_le_put _ _ _, fun t => ?_, scheduler, fun _ => rfl, fun _ => rfl,
    fun _ => rfl, fun _ => rfl, fun _ _ h => h, fun t h => ?_, fun _ _ hr => ⟨hr, rfl⟩⟩
  · rw [get_sessions_modifySession]
    split
    · next h => rw [hw, h]
    · rfl
  · rw [owns_iff, scheduler] at h
    exact owns_iff.2 h

variable {s : Nat} (h : Forth b b')
include h

theorem live (hl : b'.live s = true) : b.live s = true := by
  obtain ⟨-, -, hc, hg⟩ := wiring_eq_iff.1 (h.wiring s)
  rw [Bench.live, hc, hg] at hl
  exact h.current _ _ hl

/-- A session that is over stays over. -/
theorem gone (ho : b.owns s = false) : b'.owns s = false := by
  rw [Bool.eq_false_iff] at ho ⊢
  exact fun h' => ho (h.owns s h')

end Forth

/-- Moreover no round is counted. -/
structure Onward (b b' : Bench) : Prop extends Forth b b' where
  iterations : ∀ s, (b'.sessions.get s).iterations = (b.sessions.get s).iterations

/-- Moreover no round is counted but those of a session. -/
structure Aside (s : Nat) (b b' : Bench) : Prop extends Forth b b' where
  iterations : ∀ t, t ≠ s → (b'.sessions.get t).iterations = (b.sessions.get t).iterations

theorem Onward.aside (h : Onward b b') (s : Nat) : Aside s b b' :=
  ⟨h.toForth, fun t _ => h.iterations t⟩

theorem Aside.trans {s : Nat} {b'' : Bench} (h : Aside s b b') (h' : Aside s b' b'') :
    Aside s b b'' :=
  ⟨h.toForth.trans h'.toForth, fun t ht => (h'.iterations t ht).trans (h.iterations t ht)⟩

namespace Onward

theorem refl (b : Bench) : Onward b b := ⟨.refl b, fun _ => rfl⟩

theorem trans {b'' : Bench} (h : Onward b b') (h' : Onward b' b'') : Onward b b'' :=
  ⟨h.toForth.trans h'.toForth, fun s => (h'.iterations s).trans (h.iterations s)⟩

/-- Benches with the same sessions, clocks and schedulers. -/
theorem of_eq (hs : b'.sessions = b.sessions) (hc : b'.clocks = b.clocks)
    (hi : b'.schedulers = b.schedulers) : Onward b b' where
  size_le := Nat.le_of_eq (by rw [hs])
  wiring _ := by rw [hs]
  scheduler _ := by rw [hs]
  session _ := by rw [hi]
  timekeeper _ := by rw [hi]
  console _ := by rw [hi]
  iterations _ := by rw [hs]
  issued _ := by rw [hc]
  current c g h := by rwa [isCurrent_iff, hc, ← isCurrent_iff] at h
  owns s h := by rwa [owns_iff, hs, hi, ← owns_iff] at h
  holds i _ hr := by
    rw [hi] at hr
    rw [clockOf, clockOf, hc, hi]
    exact ⟨hr, rfl⟩

theorem modifySession (b : Bench) (s : Nat) {f : Session → Session}
    (hw : ∀ x, (f x).wiring = x.wiring) (hi : ∀ x, (f x).iterations = x.iterations)
    (hx : ∀ x, (f x).scheduler = x.scheduler) : Onward b (b.modifySession s f) where
  toForth := .modifySession b s hw hx
  iterations t := by
    rw [get_sessions_modifySession]
    split
    · next h => rw [hi, h]
    · rfl

theorem rest (b : Bench) (i : Nat) {state : RunState} (h : state ≠ .running) :
    Onward b (b.modifyScheduler i fun c => { c with state }) where
  size_le := Nat.le_refl _
  wiring _ := rfl
  scheduler _ := rfl
  session := (Alike.modifyScheduler state).session
  timekeeper := (Alike.modifyScheduler state).timekeeper
  console := (Alike.modifyScheduler state).console
  iterations _ := rfl
  issued _ := rfl
  current _ _ h := h
  owns t ho := by
    rw [owns_iff, get_schedulers_modifyScheduler] at ho
    split at ho
    · exact absurd ho.2 h
    · exact owns_iff.2 ho
  holds j _ hr := by
    rw [clockOf, (Alike.modifyScheduler state).timekeeper]
    rw [get_schedulers_modifyScheduler] at hr
    split at hr
    · exact absurd hr h
    · exact ⟨hr, rfl⟩

theorem finish (b : Bench) (s : Nat) (o : Outcome) : Onward b (b.finish s o.state o.error) :=
  (modifySession b s
    (f := fun x => { x with state := o.state, error := o.error, endedAt := some b.now })
    (fun _ => rfl) (fun _ => rfl) fun _ => rfl).trans (rest _ _ o.state_ne_running)

/-- The session of a scheduler is ended, and with it its generation. -/
theorem dismiss (b : Bench) {j s c : Nat} (hs : (b.schedulers.get j).session = some s)
    (hc : c = (b.schedulers.get j).clock ∨ c = (b.sessions.get s).clock) (g : Nat) (o : Outcome) :
    Onward b ((b.invalidate c g).finish s o.state o.error) := by
  have finished := Onward.finish (b.invalidate c g) s o
  refine ⟨⟨finished.size_le, finished.wiring, finished.scheduler, finished.session,
    finished.timekeeper, finished.console, fun d => ?_, fun d h hl => ?_, finished.owns, fun i hi hr => ?_⟩,
    finished.iterations⟩
  · rw [finished.issued, get_clocks_invalidate]
    split
    · next h => rw [lastIssued_invalidate, h]
    · rfl
  · exact ((isCurrent_invalidate _ _ _ _).1 (finished.current d h hl)).1
  · have clock : c = (b.schedulers.get j).clock := hc.elim id fun h => h.trans (hi.clock j s hs)
    rw [get_schedulers_finish] at hr
    split at hr
    · exact absurd hr o.state_ne_running
    · next hne =>
      -- the clock is not that of the scheduler, which would be the one that is ended
      have other : c ≠ (b.schedulers.get i).clock := fun h => hne <| by
        rw [← hi.alone j s hs (clock ▸ h)]
        exact hi.scheduler j s hs
      refine ⟨hr, ?_⟩
      have same : ((b.invalidate c g).finish s o.state o.error).clockOf i = b.clockOf i := by
        rw [clockOf, finished.timekeeper]
        exact (get_clocks_invalidate _ _ _).trans (if_neg other)
      rw [same]

end Onward

/-! ## Steps of a turn -/

theorem onward_writeWithin (depth : Nat) (b : Bench) (c : Nat) (severity : Severity)
    (text : String) : Onward b (b.writeWithin depth c severity text) :=
  writeWithin_preserves (P := Onward b)
    (fun _ _ _ h => h.trans (.of_eq rfl rfl rfl)) (fun _ _ h => h.trans (.of_eq rfl rfl rfl))
    (fun b _ _ _ hs h => h.trans (.dismiss b hs (.inl rfl) _ .stopped)) depth b c severity text
    (.refl b)

theorem onward_write (b : Bench) (c : Nat) (severity : Severity) (text : String) :
    Onward b (b.write c severity text) :=
  onward_writeWithin _ _ _ _ _

theorem strips_write (b : Bench) (c : Nat) (severity : Severity) (text : String) :
    (b.write c severity text).strips = b.strips :=
  writeWithin_preserves (P := fun b' => b'.strips = b.strips) (fun _ _ _ h => h)
    (fun _ _ h => h) (fun _ _ _ _ _ h => h) _ b c severity text rfl

theorem onward_stop (b : Bench) (i : Nat) : Onward b (b.stop i).2 := by
  unfold stop
  rw [stopWithin]
  split
  · next hs =>
    exact ((Onward.dismiss b hs (.inl rfl) _ .stopped).trans (onward_writeWithin _ _ _ _ _)).trans
      (.of_eq rfl rfl rfl)
  · exact .refl b

theorem onward_reset (b : Bench) (i : Nat) : Onward b (b.reset i).2 := by
  rcases reset_cases b i with same | ⟨-, reset⟩
  · rw [same]
    exact .refl b
  · rw [reset]
    exact .rest b i nofun

theorem onward_perform (w : Wiring) (b : Bench) (r : Request) : Onward b (b.perform w r).2 := by
  cases r with
  | isLive | now | read _ => exact .refl b
  | draw | chance => exact .of_eq rfl rfl rfl
  | command c =>
    simp only [perform]
    split
    · split
      · exact .of_eq rfl rfl rfl
      · exact .refl b
    · exact .refl b
  | print text =>
    simp only [perform]
    split
    · exact onward_write _ _ _ _
    · exact .refl b

theorem onward_inform (b : Bench) (s : Nat) (text : String) : Onward b (b.inform s text) := by
  unfold inform
  dsimp only
  split
  · exact onward_write _ _ _ _
  · exact .refl b

theorem onward_stopOwned (b : Bench) (s : Nat) : Onward b (b.stopOwned s) := by
  unfold stopOwned
  split
  · exact (Onward.finish _ _ .stopped).trans (onward_write _ _ _ _)
  · exact .refl b

theorem onward_note (b : Bench) (parts : List String) : Onward b (b.note parts) := .of_eq rfl rfl rfl

theorem onward_close (b : Bench) (s : Nat) : Onward b (b.close s) := by
  unfold close
  dsimp only
  refine Onward.trans ?_ (onward_note _ _)
  split
  · exact .refl b
  · exact .modifySession _ _ (fun _ => rfl) (fun _ => rfl) fun _ => rfl

theorem onward_unwound (b : Bench) (s : Nat) : Onward b (b.unwound s).2 :=
  ((onward_note b _).trans (onward_stopOwned _ s)).trans (onward_close _ s)

theorem onward_fail (b : Bench) (s : Nat) (st : Store) (f : Fault) : Onward b (b.fail s st f).2 := by
  unfold fail
  dsimp only
  split
  · next ho =>
    split
    · exact .refl b
    · next text _ =>
      exact ((Onward.dismiss b (owns_iff.1 ho).1 (.inr rfl) _ (.failed text)).trans
        (onward_write _ _ _ _)).trans (onward_close _ s)
  · exact (onward_note b _).trans (onward_close _ s)

theorem onward_interrupted (b : Bench) (s : Nat) : Onward b (b.interrupted s).2 := by
  unfold interrupted
  dsimp only
  split
  · next ho =>
    have owned : (b.invalidate (b.sessions.get s).clock (b.sessions.get s).generation).owns s =
        true := ho
    rw [stopOwned, if_pos owned]
    exact (Onward.dismiss b (owns_iff.1 ho).1 (.inr rfl) _ .stopped).trans (onward_write _ _ _ _)
  · exact onward_stopOwned _ s

theorem onward_conclude (b : Bench) (s : Nat) (st : Store) (i : Interrupt) :
    Onward b (b.conclude s st i).2 := by
  unfold conclude
  split
  · exact onward_unwound b s
  · exact onward_interrupted b s
  all_goals exact onward_fail b s st _

/-! ## Looking a program up -/

theorem Unmoved.trans {b'' : Bench} (h : Unmoved b b') (h' : Unmoved b' b'') : Unmoved b b'' :=
  ⟨h'.clocks.trans h.clocks, h'.schedulers.trans h.schedulers, h'.sessions.trans h.sessions,
    h'.consoles.trans h.consoles, h'.strips.trans h.strips⟩

theorem unmoved_notes (notes : List (List String)) (b : Bench) : Unmoved b (notes.foldl note b) := by
  induction notes generalizing b with
  | nil => exact .refl b
  | cons parts notes ih => exact (⟨rfl, rfl, rfl, rfl, rfl⟩ : Unmoved b (b.note parts)).trans (ih _)

/-- Looking a program up changes nothing but the cache and the terminal. -/
theorem unmoved_lookUpProgram (b : Bench) (source : String) :
    Unmoved b (b.lookUpProgram source).2 := by
  have noted (cache : Cache Compiled) (parts : List String) :
      Unmoved b (note { b with cache } parts) := ⟨rfl, rfl, rfl, rfl, rfl⟩
  unfold lookUpProgram
  dsimp only
  split
  · exact noted _ _
  · split
    · exact noted _ _
    · exact (noted _ _).trans (unmoved_notes _ _)
  · exact (noted _ _).trans (unmoved_notes _ _)

/-! ## Whole turns -/

theorem aside_counted (b : Bench) (s : Nat) :
    Aside s b (b.modifySession s fun x => { x with iterations := x.iterations + 1 }) where
  toForth := .modifySession b s (fun _ => rfl) fun _ => rfl
  iterations t ht := by rw [get_sessions_modifySession, if_neg (Ne.symm ht)]

theorem onward_advance {α : Type} (w : Wiring) (act : Act α) (b : Bench) :
    Onward b (b.advance w act).2 := by
  induction act generalizing b with
  | done | rest => exact .refl b
  | ask r k ih => exact (onward_perform w b r).trans (ih _ _)

theorem aside_proceed (s : Nat) (loop : EntryPoint) (fuel : Nat) (stage : Stage)
    (act : Act (Except Interrupt Unit × Memory)) (b : Bench) :
    Aside s b (proceed s loop fuel stage act b).2 := by
  induction fuel generalizing stage act b with
  | zero => exact (Onward.refl b).aside s
  | succ fuel ih =>
    rw [proceed]
    have advanced := onward_advance (b.sessions.get s).wiring act b
    generalize b.advance (b.sessions.get s).wiring act = r at advanced ⊢
    refine (advanced.aside s).trans ?_
    match r with
    | (.resting nap k, b') => exact (Onward.refl b').aside s
    | (.done (.error i, m), b') => exact (onward_conclude b' s m.store i).aside s
    | (.done (.ok _, m), b') =>
      cases stage with
      | setup => exact ((onward_inform b' s loopLine).aside s).trans (ih _ _ _)
      | gap => exact ih _ _ _
      | loop =>
        refine (aside_counted b' s).trans ?_
        dsimp only
        split
        · exact (onward_unwound _ s).aside s
        · split
          · exact (onward_fail _ s _ _).aside s
          · split
            · exact ih _ _ _
            · exact (Onward.refl _).aside s

theorem aside_openProgram (s : Nat) (act : Act (Except Interrupt EntryPoints × Memory))
    (b : Bench) : Aside s b (openProgram s act b).2 := by
  unfold openProgram
  dsimp only
  have advanced := onward_advance (b.sessions.get s).wiring act b
  generalize b.advance (b.sessions.get s).wiring act = r at advanced ⊢
  refine (advanced.aside s).trans ?_
  match r with
  | (.resting nap k, b') => exact (Onward.refl b').aside s
  | (.done (.error i, m), b') => exact (onward_conclude b' s m.store i).aside s
  | (.done (.ok entry, m), b') =>
    exact ((onward_inform b' s setupLine).aside s).trans (aside_proceed _ _ _ _ _ _)

theorem onward_introduced (b : Bench) (s : Nat) : Onward b (b.introduced s) :=
  (onward_note b _).trans (.modifySession _ _ (fun _ => rfl) (fun _ => rfl) fun _ => rfl)

theorem aside_enter (b : Bench) (s : Nat) : Aside s b (b.enter s).2 := by
  rw [enter_eq]
  have unmoved := unmoved_lookUpProgram (b.introduced s)
    (Dialect.toHostForm (b.sessions.get s).source)
  generalize (b.introduced s).lookUpProgram _ = r at unmoved ⊢
  have looked : Onward b r.2 :=
    (onward_introduced b s).trans (.of_eq unmoved.sessions unmoved.clocks unmoved.schedulers)
  refine (looked.aside s).trans ?_
  obtain ⟨f | program, b'⟩ := r
  · exact (onward_fail b' s {} f).aside s
  · have cleared : Onward b'
        { b' with strips := b'.strips.modify (b.sessions.get s).strip Strip.reset } :=
      .of_eq rfl rfl rfl
    exact (cleared.aside s).trans (aside_openProgram s _ _)

theorem aside_resume (s : Nat) (d : Drive) (wake : Wake) (b : Bench) :
    Aside s b (d.resume s wake b).2 := by
  cases d with
  | fresh =>
    cases wake with
    | rested => exact aside_enter b s
    | cancelled => exact (Onward.refl b).aside s
  | opening k => exact aside_openProgram s _ b
  | midway stage loop k => exact aside_proceed s loop _ stage _ b

/-! ## Strips -/

theorem strips_inform (b : Bench) (s : Nat) (text : String) :
    (b.inform s text).strips = b.strips := by
  unfold inform
  dsimp only
  split
  · exact strips_write _ _ _ _
  · rfl

theorem strips_stopOwned (b : Bench) (s : Nat) : (b.stopOwned s).strips = b.strips := by
  unfold stopOwned
  split
  · exact strips_write _ _ _ _
  · rfl

theorem strips_close (b : Bench) (s : Nat) : (b.close s).strips = b.strips := by
  unfold close
  cases (b.sessions.get s).endedAt <;> rfl

theorem strips_fail (b : Bench) (s : Nat) (st : Store) (f : Fault) :
    (b.fail s st f).2.strips = b.strips := by
  unfold fail
  dsimp only
  split
  · split
    · rfl
    · exact (strips_close _ s).trans (strips_write _ _ _ _)
  · exact strips_close _ s

theorem strips_conclude (b : Bench) (s : Nat) (st : Store) (i : Interrupt) :
    (b.conclude s st i).2.strips = b.strips := by
  unfold conclude
  split
  · exact (strips_close _ s).trans (strips_stopOwned _ s)
  · unfold interrupted
    dsimp only
    split <;> exact strips_stopOwned _ s
  all_goals exact strips_fail b s st _

end LedSketch.Bench
