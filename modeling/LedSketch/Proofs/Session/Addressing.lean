import LedSketch.Proofs.Session.Onward

/-!
# Whom entries are for

What is written in a turn of a session is written for that session, and to its console. A line may
stop schedulers that listen for it; then the last lines of their sessions are written too, each to
the console of its own session, and nothing else.

* `Entry.Halts`, `Entry.Addressed` — an entry is such a last line, or one of the session itself;
* `halts_stopEntries` — a stop writes last lines only;
* `addressed_told` — all entries of a turn are addressed in this way.
-/

namespace LedSketch

/-- An entry is the last line of its session, which is stopped. -/
def Entry.Halts (b : Bench) (e : Entry) : Prop :=
  e.event = .wrote (b.sessions.get e.session).console .stopped

/-- An entry is the last line of a session that is stopped, or one of the session `s`, on whose
console it is then. -/
def Entry.Addressed (b : Bench) (s : Nat) (e : Entry) : Prop :=
  e.Halts b ∨ e.session = s ∧ ∀ c r, e.event = .wrote c r → c = (b.sessions.get s).console

namespace Bench

variable {b₀ b : Bench} {s : Nat}

/-- Whether every scheduler writes to the console of its session. -/
def Paired (b : Bench) : Prop :=
  ∀ i s, (b.schedulers.get i).session = some s →
    (b.schedulers.get i).console = (b.sessions.get s).console

/-- The console of a session remains what it is, whatever happens in a turn. -/
theorem Forth.console_eq (h : Forth b₀ b) (s : Nat) :
    (b.sessions.get s).console = (b₀.sessions.get s).console :=
  (wiring_eq_iff.1 (h.wiring s)).2.1

theorem Forth.addressed (h : Forth b₀ b) {c : Nat} (hc : c = (b.sessions.get s).console)
    (r : Remark) : Entry.Addressed b₀ s ⟨s, .wrote c r⟩ := by
  refine .inr ⟨rfl, ?_⟩
  rintro _ _ ⟨⟩
  exact hc.trans (h.console_eq s)

/-! ## Lines -/

/-- Every entry for a line that stops schedulers in turn is the last line of a session that one of
them is running; what appending lines and halting sessions keep holds of the bench by then. -/
theorem mem_haltedBy {P : Bench → Prop} (append : ∀ b c l, P b → P (b.append c l))
    (halt : ∀ b i s, (b.schedulers.get i).session = some s → P b →
      P ((b.invalidate (b.schedulers.get i).clock (b.sessions.get s).generation).finish s .stopped
        none))
    {depth : Nat} {b : Bench} {c : Nat} {l : ConsoleLine} {e : Entry} (h : P b)
    (he : e ∈ b.haltedBy depth c l) :
    ∃ b' i s, P b' ∧ (b'.schedulers.get i).session = some s ∧
      e = ⟨s, .wrote (b'.schedulers.get i).console .stopped⟩ := by
  induction depth generalizing b c l with
  | zero => cases he
  | succ depth ih =>
    rw [haltedBy_succ] at he
    have appended := append b c l h
    split at he
    · split at he
      · rw [stopEntriesWithin] at he
        split at he
        · next t _ ht =>
          rcases List.mem_cons.1 he with rfl | he
          · exact ⟨_, _, t, appended, ht, rfl⟩
          · exact ih (halt _ _ _ ht appended) he
        · cases he
      · cases he
    · cases he
    · cases he

theorem stopped_haltedBy {depth : Nat} {c : Nat} {l : ConsoleLine} :
    ∀ e ∈ b.haltedBy depth c l, ∃ d, e.event = .wrote d .stopped := by
  intro e he
  obtain ⟨b', i, t, -, -, rfl⟩ :=
    mem_haltedBy (P := fun _ => True) (fun _ _ _ _ => trivial) (fun _ _ _ _ _ => trivial) trivial he
  exact ⟨_, rfl⟩

variable (hp : b₀.Paired)
include hp

theorem halts_haltedBy {depth : Nat} (hf : Forth b₀ b) (c : Nat) (l : ConsoleLine) :
    ∀ e ∈ b.haltedBy depth c l, e.Halts b₀ := by
  intro e he
  have appended (b c l) : Onward b (append b c l) := .of_eq rfl rfl rfl
  obtain ⟨b', i, t, forth, ht, rfl⟩ := mem_haltedBy (P := Forth b₀)
    (fun b c l h => h.trans (appended b c l).toForth)
    (fun b _ _ ht h => h.trans (Onward.dismiss b ht (.inl rfl) _ .stopped).toForth) hf he
  rw [Entry.Halts, forth.console i, hp i t ((forth.session i).symm.trans ht)]

theorem halts_stopEntries (i : Nat) : ∀ e ∈ b₀.stopEntries i, e.Halts b₀ := by
  rw [stopEntries, stopEntriesWithin]
  split
  · next t _ ht =>
    have dismissed := Onward.dismiss b₀ ht (.inl rfl) (b₀.sessions.get t).generation .stopped
    intro e he
    rcases List.mem_cons.1 he with rfl | he
    · rw [Entry.Halts, hp i t ht]
    · exact halts_haltedBy hp dismissed.toForth _ _ e he
  · rintro _ ⟨⟩

theorem addressed_entries (hf : Forth b₀ b) {c : Nat} (hc : c = (b₀.sessions.get s).console)
    (r : Remark) : ∀ e ∈ b.entries s c r, e.Addressed b₀ s := by
  intro e he
  rcases List.mem_cons.1 he with rfl | he
  · exact hf.addressed (hc.trans (hf.console_eq s).symm) r
  · exact .inl (halts_haltedBy hp hf _ _ e he)

/-! ## Ends -/

theorem addressed_stopOwnedEntries (hf : Forth b₀ b) :
    ∀ e ∈ b.stopOwnedEntries s, e.Addressed b₀ s := by
  unfold stopOwnedEntries
  split
  · exact addressed_entries hp (hf.trans (Onward.finish b s .stopped).toForth) (hf.console_eq s) _
  · exact nofun

theorem addressed_failEntries (hf : Forth b₀ b) (st : Store) (f : Fault) :
    ∀ e ∈ b.failEntries s st f, e.Addressed b₀ s := by
  unfold failEntries
  dsimp only
  split
  · next ho =>
    split
    · exact nofun
    · next text _ =>
      have dismissed := Onward.dismiss b (owns_iff.1 ho).1 (.inr rfl)
        (b.sessions.get s).generation (.failed text)
      exact addressed_entries hp (hf.trans dismissed.toForth) (hf.console_eq s) _
  · exact nofun

theorem addressed_interruptedEntries (hf : Forth b₀ b) :
    ∀ e ∈ b.interruptedEntries s, e.Addressed b₀ s := by
  unfold interruptedEntries
  dsimp only
  split
  · next ho =>
    have owned : (b.invalidate (b.sessions.get s).clock (b.sessions.get s).generation).owns s =
        true := ho
    have dismissed := Onward.dismiss b (owns_iff.1 ho).1 (.inr rfl)
      (b.sessions.get s).generation .stopped
    rw [stopOwnedEntries, if_pos owned]
    exact addressed_entries hp (hf.trans dismissed.toForth) (hf.console_eq s) _
  · exact addressed_stopOwnedEntries hp hf

theorem addressed_unwoundEntries (hf : Forth b₀ b) :
    ∀ e ∈ b.unwoundEntries s, e.Addressed b₀ s :=
  addressed_stopOwnedEntries hp (hf.trans (onward_note b _).toForth)

theorem addressed_concludeEntries (hf : Forth b₀ b) (st : Store) (i : Interrupt) :
    ∀ e ∈ b.concludeEntries s st i, e.Addressed b₀ s := by
  unfold concludeEntries
  split
  · exact addressed_unwoundEntries hp hf
  · exact addressed_interruptedEntries hp hf
  all_goals exact addressed_failEntries hp hf st _

/-! ## Turns -/

theorem addressed_advanceEntries {α : Type} (phase : Phase) (act : Act α) (hf : Forth b₀ b) :
    ∀ e ∈ b.advanceEntries s phase (b₀.sessions.get s).wiring act, e.Addressed b₀ s := by
  induction act generalizing b with
  | done | rest => exact nofun
  | ask r k ih =>
    intro e he
    rcases List.mem_append.1 he with he | he
    · cases r with
      | print text =>
        simp only [performEntries] at he
        split at he
        · exact addressed_entries hp hf rfl _ e he
        · cases he
      | isLive | now | draw | chance | read | command => cases he
    · exact ih _ (hf.trans (onward_perform _ b r).toForth) e he

theorem addressed_informEntries (hf : Forth b₀ b) (r : Remark) :
    ∀ e ∈ b.informEntries s r, e.Addressed b₀ s := by
  unfold informEntries
  dsimp only
  split
  · exact addressed_entries hp hf (hf.console_eq s) r
  · exact nofun

theorem addressed_proceedEntries (loop : EntryPoint) (fuel : Nat) (stage : Stage)
    (act : Act (Except Interrupt Unit × Memory)) (hf : Forth b₀ b) :
    ∀ e ∈ b.proceedEntries s loop fuel stage act, e.Addressed b₀ s := by
  induction fuel generalizing stage act b with
  | zero => exact nofun
  | succ fuel ih =>
    rw [proceedEntries]
    intro e he
    rcases List.mem_append.1 he with he | he
    · rw [hf.wiring] at he
      exact addressed_advanceEntries hp _ act hf e he
    · revert he
      have advanced := hf.trans (onward_advance (b.sessions.get s).wiring act b).toForth
      generalize b.advance (b.sessions.get s).wiring act = r at advanced ⊢
      match r, advanced with
      | (.resting nap k, b'), _ => exact nofun
      | (.done (.error i, m), b'), advanced =>
        exact addressed_concludeEntries hp advanced m.store i e
      | (.done (.ok _, m), b'), advanced =>
        cases stage with
        | setup =>
          intro he
          rcases List.mem_append.1 he with he | he
          · exact addressed_informEntries hp advanced .loop e he
          · exact ih _ _ (advanced.trans (onward_inform b' s loopLine).toForth) e he
        | gap => exact ih _ _ advanced e
        | loop =>
          have counted := advanced.trans (aside_counted b' s).toForth
          intro he
          rcases List.mem_cons.1 he with rfl | he
          · exact .inr ⟨rfl, nofun⟩
          · revert he
            split
            · exact addressed_unwoundEntries hp counted e
            · split
              · exact addressed_failEntries hp counted _ _ e
              · split
                · exact ih _ _ counted e
                · exact nofun

theorem addressed_openEntries (act : Act (Except Interrupt EntryPoints × Memory))
    (hf : Forth b₀ b) : ∀ e ∈ b.openEntries s act, e.Addressed b₀ s := by
  unfold openEntries
  dsimp only
  intro e he
  rcases List.mem_append.1 he with he | he
  · rw [hf.wiring] at he
    exact addressed_advanceEntries hp _ act hf e he
  · revert he
    have advanced := hf.trans (onward_advance (b.sessions.get s).wiring act b).toForth
    generalize b.advance (b.sessions.get s).wiring act = r at advanced ⊢
    match r, advanced with
    | (.resting nap k, b'), _ => exact nofun
    | (.done (.error i, m), b'), advanced => exact addressed_concludeEntries hp advanced m.store i e
    | (.done (.ok entry, m), b'), advanced =>
      intro he
      rcases List.mem_append.1 he with he | he
      · exact addressed_informEntries hp advanced .setup e he
      · exact addressed_proceedEntries hp _ _ _ _
          (advanced.trans (onward_inform b' s setupLine).toForth) e he

theorem addressed_enterEntries (s : Nat) : ∀ e ∈ b₀.enterEntries s, e.Addressed b₀ s := by
  unfold enterEntries
  dsimp only
  have unmoved := unmoved_lookUpProgram (b₀.introduced s)
    (Dialect.toHostForm (b₀.sessions.get s).source)
  generalize (b₀.introduced s).lookUpProgram _ = r at unmoved ⊢
  have looked : Forth b₀ r.2 := ((onward_introduced b₀ s).trans
    (.of_eq unmoved.sessions unmoved.clocks unmoved.schedulers)).toForth
  match r, looked with
  | (.error f, b'), looked => exact addressed_failEntries hp looked {} f
  | (.ok program, b'), looked =>
    have cleared : Onward b'
        { b' with strips := b'.strips.modify (b₀.sessions.get s).strip Strip.reset } :=
      .of_eq rfl rfl rfl
    exact addressed_openEntries hp _ (looked.trans cleared.toForth)

/-- All entries of a turn are for its session, but for the last lines of sessions that are
stopped. -/
theorem addressed_told (s : Nat) (d : Drive) (wake : Wake) :
    ∀ e ∈ d.told s wake b₀, e.Addressed b₀ s := by
  cases d with
  | fresh =>
    cases wake with
    | rested => exact addressed_enterEntries hp s
    | cancelled => exact nofun
  | opening k => exact addressed_openEntries hp _ (.refl b₀)
  | midway stage loop k => exact addressed_proceedEntries hp loop _ stage _ (.refl b₀)

end Bench
end LedSketch
