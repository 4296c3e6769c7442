import LedSketch.Proofs.Session.Onward

/-!
# How a turn ends a session

However a turn ends its session, the session does not own its scheduler any more. There is one
exception: an error arises, and its report cannot be written.

* `Settled` — a turn that ends its session leaves it over, unless the report has failed;
* `settled_conclude`, `ends_conclude` — the ways to end early;
* `settled_resume` — a whole turn, unless the session is cancelled before its first one;
* `owns_of_finished` — a driver that returns has left its session over.
-/

namespace LedSketch

/-- Whether a turn ends its session. -/
def Turn.Ends (t : Turn) : Prop := ∃ e, t = .ended e

namespace Bench

variable {b : Bench} {s : Nat}

/-! ## Sessions that are over -/

theorem owns_over (ho : b.owns s = true) (o : Outcome) :
    (b.finish s o.state o.error).owns s = false := by
  rw [Orderly.owns_finish ho o.state_ne_running, if_pos rfl]

theorem owns_stopOwned (b : Bench) (s : Nat) : (b.stopOwned s).owns s = false := by
  unfold stopOwned
  split
  · next ho => exact (onward_write _ _ _ _).gone (owns_over ho .stopped)
  · next ho => exact Bool.eq_false_iff.2 ho

/-! ## Ends -/

/-- A session that has been ended owns its scheduler only if the report of its error has failed. -/
def Settled (s : Nat) (r : Turn × Bench) : Prop :=
  ∀ e, r.1 = .ended e → (r.2.owns s = true ↔ ∃ m, e = .failed m)

theorem Settled.rests {nap : Nap} {d : Drive} : Settled s (.rests nap d, b) := nofun

theorem Settled.of_gone {e : Ending} (ho : b.owns s = false) (he : ∀ m, e ≠ .failed m) :
    Settled s (.ended e, b) := by
  rintro _ ⟨⟩
  rw [ho]
  exact ⟨nofun, fun ⟨m, hm⟩ => absurd hm (he m)⟩

theorem settled_unwound (b : Bench) (s : Nat) : Settled s (b.unwound s) :=
  .of_gone ((onward_close _ s).gone (owns_stopOwned _ s)) nofun

theorem settled_fail (b : Bench) (s : Nat) (st : Store) (f : Fault) : Settled s (b.fail s st f) := by
  unfold fail
  dsimp only
  by_cases ho : b.owns s = true
  · rw [if_pos ho]
    split
    · next m _ =>
      rintro _ ⟨⟩
      exact ⟨fun _ => ⟨m, rfl⟩, fun _ => ho⟩
    · next text _ =>
      have gone := owns_over
        (b := b.invalidate (b.sessions.get s).clock (b.sessions.get s).generation) ho (.failed text)
      exact .of_gone ((onward_close _ s).gone ((onward_write _ _ _ _).gone gone)) nofun
  · rw [if_neg ho]
    have gone : b.owns s = false := Bool.eq_false_iff.2 ho
    exact .of_gone ((onward_close _ s).gone gone) nofun

theorem settled_interrupted (b : Bench) (s : Nat) : Settled s (b.interrupted s) :=
  .of_gone (owns_stopOwned _ s) nofun

theorem settled_conclude (b : Bench) (s : Nat) (st : Store) (i : Interrupt) :
    Settled s (b.conclude s st i) := by
  unfold conclude
  split
  · exact settled_unwound b s
  · exact settled_interrupted b s
  all_goals exact settled_fail b s st _

theorem ends_fail (b : Bench) (s : Nat) (st : Store) (f : Fault) : (b.fail s st f).1.Ends := by
  unfold fail
  dsimp only
  split
  · split <;> exact ⟨_, rfl⟩
  · exact ⟨_, rfl⟩

theorem ends_conclude (b : Bench) (s : Nat) (st : Store) (i : Interrupt) :
    (b.conclude s st i).1.Ends := by
  unfold conclude
  split
  · exact ⟨_, rfl⟩
  · exact ⟨_, rfl⟩
  all_goals exact ends_fail b s st _

/-! ## Whole turns -/

theorem settled_proceed (s : Nat) (loop : EntryPoint) (fuel : Nat) (stage : Stage)
    (act : Act (Except Interrupt Unit × Memory)) (b : Bench) :
    Settled s (proceed s loop fuel stage act b) := by
  induction fuel generalizing stage act b with
  | zero => exact .rests
  | succ fuel ih =>
    rw [proceed]
    obtain ⟨⟨i | ⟨⟩, m⟩ | ⟨nap, k⟩, b'⟩ := b.advance (b.sessions.get s).wiring act
    · exact settled_conclude b' s m.store i
    · cases stage with
      | setup | gap => exact ih _ _ _
      | loop =>
        dsimp only
        split
        · exact settled_unwound _ s
        · split
          · exact settled_fail _ s _ _
          · split
            · exact ih _ _ _
            · exact .rests
    · exact .rests

theorem settled_openProgram (s : Nat) (act : Act (Except Interrupt EntryPoints × Memory))
    (b : Bench) : Settled s (openProgram s act b) := by
  unfold openProgram
  dsimp only
  match b.advance (b.sessions.get s).wiring act with
  | (.resting nap k, b') => exact .rests
  | (.done (.error i, m), b') => exact settled_conclude b' s m.store i
  | (.done (.ok entry, m), b') => exact settled_proceed _ _ _ _ _ _

theorem settled_enter (b : Bench) (s : Nat) : Settled s (b.enter s) := by
  unfold enter
  dsimp only
  split
  · exact settled_fail _ s _ _
  · exact settled_openProgram s _ _

/-- A turn that ends its session settles it, unless the session is cancelled before its first turn. -/
theorem settled_resume {d : Drive} {wake : Wake} (h : ¬ (d = .fresh ∧ wake = .cancelled)) (b : Bench) :
    Settled s (d.resume s wake b) := by
  cases d with
  | fresh =>
    cases wake with
    | rested => exact settled_enter b s
    | cancelled => exact absurd ⟨rfl, rfl⟩ h
  | opening k => exact settled_openProgram s _ b
  | midway stage loop k => exact settled_proceed s loop _ stage _ b

/-- The driver of a session returns only when the session is over. -/
theorem owns_of_finished {d : Drive} {wake : Wake} (h : (d.resume s wake b).1 = .ended .finished) :
    (d.resume s wake b).2.owns s = false := by
  have early : ¬ (d = .fresh ∧ wake = .cancelled) := by
    rintro ⟨rfl, rfl⟩
    cases h
  rw [Bool.eq_false_iff]
  exact fun ho => nomatch (settled_resume early b _ h).1 ho

end Bench
end LedSketch
