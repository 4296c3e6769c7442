import LedSketch.Proofs.Running.Bare
import LedSketch.Proofs.Running.Scoping
import LedSketch.Proofs.Running.Upholding

/-!
# What reported errors tell

A run and its bare counterpart ask the same questions and rest at the same moments. As long as they
get the same replies they are in the same state; and if the bare one stops with an error, the other
one goes on to report it, with the calls that the bare one has stopped in.

* `Act.Alike`: two computations that cannot be told apart from outside.
* `Eval.Reports`: how the ends of a run and of a bare run belong together.
* `Eval.Tracks`: an evaluation that reports what another one stops with.
-/

namespace LedSketch

/-! ## Computations that run alike -/

namespace Act

variable {α β γ δ : Type} {R : α → β → Prop} {S : γ → δ → Prop}

/-- **Two computations run alike** if they ask and rest alike, and end with related results
whenever they get the same replies. -/
inductive Alike (R : α → β → Prop) : Act α → Act β → Prop
  | done {a : α} {b : β} (h : R a b) : Alike R (.done a) (.done b)
  | ask (r : Request) {k : r.Reply → Act α} {l : r.Reply → Act β}
    (h : ∀ reply, Alike R (k reply) (l reply)) : Alike R (.ask r k) (.ask r l)
  | rest (nap : Nap) {k : Wake → Act α} {l : Wake → Act β} (h : ∀ wake, Alike R (k wake) (l wake)) :
    Alike R (.rest nap k) (.rest nap l)

theorem Alike.bind {x : Act α} {y : Act β} {f : α → Act γ} {g : β → Act δ} (h : Alike R x y)
    (hfg : ∀ a b, R a b → Alike S (f a) (g b)) : Alike S (x.bind f) (y.bind g) := by
  induction h with
  | done h => exact hfg _ _ h
  | ask r _ ih => exact .ask r ih
  | rest nap _ ih => exact .rest nap ih

theorem Alike.mono {R' : α → β → Prop} {x : Act α} {y : Act β} (h : Alike R x y)
    (hR : ∀ a b, R a b → R' a b) : Alike R' x y := by
  rw [← bind_done x, ← bind_done y]
  exact h.bind fun a b hab => .done (hR a b hab)

/-- What all runs of one of them end with can be added. -/
theorem Alike.and_always {P : α → Prop} {x : Act α} {y : Act β} (h : Alike R x y)
    (hx : x.Always P) : Alike (fun a b => R a b ∧ P a) x y := by
  induction h with
  | done h => exact .done ⟨h, hx⟩
  | ask r _ ih => exact .ask r fun reply => ih reply (hx.2 reply trivial)
  | rest nap _ ih => exact .rest nap fun wake => ih wake (hx.2 wake)

theorem alike_self {P : α → Prop} {x : Act α} (h : x.Always P) : Alike (fun a b => a = b ∧ P a) x x := by
  induction x with
  | done a => exact .done ⟨rfl, h⟩
  | ask r k ih => exact .ask r fun reply => ih reply (h.2 reply trivial)
  | rest nap k ih => exact .rest nap fun wake => ih wake (h.2 wake)

end Act

/-! ## Reports -/

/-- The complaint that an error is reported as. -/
def Interrupt.ReportedAs (c : Complaint) : Interrupt → Prop
  | sketch e => c = e.complaint
  | mishap m => (m = .tooDeep ∧ c = .stackExceeded) ∨ c = .mishapInStatement m ∨
    ∃ name, c = .mishapInCall name m
  | _ => False

/-- An early end that says nothing yet of the calls that were active. -/
def Interrupt.Unreported : Interrupt → Prop
  | sketch e => e.stack = none
  | _ => True

/-- An early end that is no error. -/
def Interrupt.Quiet : Interrupt → Prop
  | sketch _ | mishap _ => False
  | _ => True

theorem Interrupt.Quiet.unreported {i : Interrupt} (h : i.Quiet) : i.Unreported := by
  cases i with
  | sketch e => exact h.elim
  | _ => trivial

namespace Eval

open Interrupt (Unreported Quiet)

variable {α β : Type} {L L' : Interrupt → Prop} {m : Memory}

/-- **How the ends of a run and of a bare run belong together** that start from the memory `m`.
The active calls are again what they were, and both have the same store. Either both end alike, and
`L` says how they may end early; or the one reports the error that the other has stopped with, and
lists the calls that it has stopped in, the outermost first. -/
structure Reports (L : Interrupt → Prop) (m : Memory) (r s : Except Interrupt α × Memory) : Prop where
  calls : r.2.calls = m.calls
  store : s.2.store = r.2.store
  ends : (s.1 = r.1 ∧ s.2.calls = m.calls ∧ ∀ i, r.1 = .error i → L i) ∨
    ∃ e i, r.1 = .error (.sketch e) ∧ s.1 = .error i ∧ i.ReportedAs e.complaint ∧
      e.stack = some s.2.calls.reverse

/-- An evaluation reports what a bare one stops with, from the memory `m`. -/
def TracksAt (L : Interrupt → Prop) (x y : Eval α) (m : Memory) : Prop :=
  Act.Alike (Reports L m) (x.runFrom m) (y.runFrom m)

/-- **An evaluation reports what a bare one stops with.** -/
def Tracks (L : Interrupt → Prop) (x y : Eval α) : Prop := ∀ m, TracksAt L x y m

theorem Reports.mono {r s : Except Interrupt α × Memory} (h : Reports L m r s)
    (hL : ∀ i, L i → L' i) : Reports L' m r s where
  calls := h.calls
  store := h.store
  ends := h.ends.imp_left fun ⟨hs, hc, hi⟩ => ⟨hs, hc, fun i hr => hL i (hi i hr)⟩

theorem Tracks.mono {x y : Eval α} (h : Tracks L x y) (hL : ∀ i, L i → L' i) : Tracks L' x y :=
  fun m => (h m).mono fun _ _ hr => hr.mono hL

/-- Ending alike in the same memory. -/
theorem Reports.same {r : Except Interrupt α × Memory} (hc : r.2.calls = m.calls)
    (hL : ∀ i, r.1 = .error i → L i) : Reports L m r r :=
  ⟨hc, rfl, Or.inl ⟨rfl, hc, hL⟩⟩

/-- Where both have the same active calls, they have the same memory. -/
theorem Reports.memory_eq {r s : Except Interrupt α × Memory} (h : Reports L m r s)
    (hc : s.2.calls = m.calls) : s.2 = r.2 := by
  change Memory.mk s.2.store s.2.calls = Memory.mk r.2.store r.2.calls
  rw [h.store, h.calls, hc]

/-- Behind results that are no early ends both memories are the same. -/
theorem Reports.eq_of_ok {a : α} {m' : Memory} {s : Except Interrupt α × Memory}
    (h : Reports L m (.ok a, m') s) : s = (.ok a, m') := by
  obtain ⟨hs, hc, -⟩ | ⟨_, _, hr, -⟩ := h.ends
  · exact Prod.ext hs (h.memory_eq hc)
  · cases hr

theorem tracks_self {x : Eval α} (h : ∀ cs, Upholds (fun m => m.calls = cs) L x) : Tracks L x x :=
  fun m => (Act.alike_self (h m.calls m rfl)).mono fun _ _ ⟨heq, hc, hL⟩ => heq ▸ .same hc hL

theorem tracks_pure (a : α) : Tracks L (pure a) (pure a) := tracks_self fun _ => upholds_pure a

theorem tracks_throw {i : Interrupt} (h : L i) : Tracks L (throw i : Eval α) (throw i) :=
  tracks_self fun _ => upholds_throw h

theorem TracksAt.bind {x y : Eval α} {f g : α → Eval β} (h : TracksAt L x y m)
    (hfg : ∀ a, Tracks L (f a) (g a)) : TracksAt L (x >>= f) (y >>= g) m := by
  rw [TracksAt, runFrom_bind, runFrom_bind]
  refine Act.Alike.bind h ?_
  rintro ⟨i | a, m'⟩ s hr
  · -- an early end is handed on by both
    obtain ⟨s₁, m''⟩ := s
    obtain ⟨hs, hc, hL⟩ | ⟨e, j, hi, hs, hj, hstack⟩ := hr.ends
    · obtain rfl : s₁ = _ := hs
      exact .done ⟨hr.calls, hr.store, Or.inl ⟨rfl, hc, fun k hk => hL k (by cases hk; rfl)⟩⟩
    · obtain rfl : s₁ = _ := hs
      cases hi
      exact .done ⟨hr.calls, hr.store, Or.inr ⟨e, j, rfl, rfl, hj, hstack⟩⟩
  · rw [hr.eq_of_ok]
    exact (hfg a m').mono fun _ _ hr' =>
      ⟨hr'.calls.trans hr.calls, hr'.store, hr.calls ▸ hr'.ends⟩

theorem Tracks.bind {x y : Eval α} {f g : α → Eval β} (h : Tracks L x y)
    (hfg : ∀ a, Tracks L (f a) (g a)) : Tracks L (x >>= f) (y >>= g) :=
  fun m => (h m).bind hfg

/-! ### Constructs that catch -/

/-- Whoever reports errors tracks what a bare evaluation stops with. -/
theorem TracksAt.reporting {x y : Eval α} {h : Interrupt → Eval α} {loc : Option Loc}
    (hx : TracksAt Unreported x y m) (sketch : ∀ e, h (.sketch e) = throwAt loc e)
    (mishap : ∀ mi, ∃ c, h (.mishap mi) = throwAt loc { complaint := c } ∧
      (Interrupt.mishap mi).ReportedAs c)
    (quiet : ∀ i, i.Quiet → h i = throw i) : TracksAt Quiet (tryCatch x h) y m := by
  rw [TracksAt, runFrom_tryCatch, ← Act.bind_done (y.runFrom m)]
  refine Act.Alike.bind hx ?_
  rintro ⟨i | a, m'⟩ ⟨s₁, m''⟩ hr
  · obtain ⟨hs, hc, hL⟩ | ⟨e, j, hi, hs, hj, hstack⟩ := hr.ends
    · -- the stack of the first report is that of the active calls, which are still the same
      obtain rfl : s₁ = _ := hs
      have reported {e : SketchError} (he : e.stack = none) (hi : i.ReportedAs e.complaint) :
          Act.Alike (Reports Quiet m) ((throwAt loc e : Eval α).runFrom m')
            (.done (.error i, m'')) :=
        .done ⟨hr.calls, hr.store, Or.inr ⟨_, i, rfl, rfl, hi, by
          rw [SketchError.locate, he]
          exact congrArg (some ∘ List.reverse) (hr.calls.trans hc.symm)⟩⟩
      have passed (hi : i.Quiet) :
          Act.Alike (Reports Quiet m) ((h i).runFrom m') (.done (.error i, m'')) := by
        rw [quiet i hi]
        refine .done ⟨hr.calls, hr.store, Or.inl ⟨rfl, hc, ?_⟩⟩
        rintro _ ⟨⟩
        exact hi
      cases i with
      | sketch e =>
        dsimp only
        rw [sketch]
        exact reported (hL _ rfl) rfl
      | mishap mi =>
        obtain ⟨c, hcatch, hreported⟩ := mishap mi
        dsimp only
        rw [hcatch]
        exact reported rfl hreported
      | unwind | cancelled | breakLoop | continueLoop | returned v | spent =>
        exact passed trivial
    · -- an error that has been reported is not changed any more
      obtain rfl : s₁ = _ := hs
      cases hi
      dsimp only
      rw [sketch]
      exact .done ⟨hr.calls, hr.store, Or.inr ⟨_, j, rfl, rfl, hj,
        SketchError.locate_stack hstack loc _⟩⟩
  · rw [hr.eq_of_ok]
    exact .done (.same hr.calls not_early)

theorem TracksAt.inStatement {x y : Eval α} (h : TracksAt Unreported x y m) (loc : Option Loc) :
    TracksAt Quiet (inStatement loc x) y m := by
  refine h.reporting (fun _ => rfl) (fun mi => ?_) fun i hi => ?_
  · cases mi with
    | tooDeep => exact ⟨_, rfl, Or.inl ⟨rfl, rfl⟩⟩
    | _ => exact ⟨_, rfl, Or.inr (Or.inl rfl)⟩
  · cases i <;> first | rfl | exact hi.elim

theorem TracksAt.inCall {x y : Eval α} (h : TracksAt Unreported x y m) (name : String)
    (loc : Option Loc) : TracksAt Quiet (inCall name loc x) y m := by
  refine h.reporting (fun _ => rfl) (fun mi => ⟨_, rfl, Or.inr (Or.inr ⟨name, rfl⟩)⟩) fun i hi => ?_
  cases i <;> first | rfl | exact hi.elim

theorem runFrom_entering (f : Frame) (x : Eval α) (m : Memory) :
    (entering f x).runFrom m = (x.runFrom { m with calls := f :: m.calls }).bind fun
      | (.error (.sketch e), m) => .done (.error (.sketch e), m)
      | (.error (.mishap mi), m) => .done (.error (.mishap mi), m)
      | (r, m) => .done (r, { m with calls := m.calls.drop 1 }) := by
  change Act.bind (x.runFrom _) _ = Act.bind (x.runFrom _) _
  congr 1
  funext ⟨r, m⟩
  rcases r with i | a
  · cases i <;> rfl
  · rfl

/-- Both take a call away that ends without an error. If it fails with one, it has been reported,
and only the bare run goes on to show it. -/
theorem TracksAt.withFrame {x y : Eval α} {f : Frame}
    (h : TracksAt Quiet x y { m with calls := f :: m.calls }) :
    TracksAt Quiet (withFrame f x) (entering f y) m := by
  rw [TracksAt, runFrom_withFrame, runFrom_entering]
  refine Act.Alike.bind h ?_
  rintro ⟨r, m'⟩ ⟨s, m''⟩ hr
  have hcalls : m'.calls.drop 1 = m.calls := congrArg (List.drop 1) hr.calls
  obtain ⟨hs, hc, hL⟩ | ⟨e, i, hi, hs, hj, hstack⟩ := hr.ends
  · obtain rfl : s = r := hs
    have popped : Reports Quiet m (s, { m' with calls := m'.calls.drop 1 })
        (s, { m'' with calls := m''.calls.drop 1 }) :=
      ⟨hcalls, hr.store, Or.inl ⟨rfl, congrArg (List.drop 1) hc, hL⟩⟩
    rcases s with i | a
    · have hi := hL i rfl
      cases i with
      | sketch | mishap => exact hi.elim
      | unwind | cancelled | breakLoop | continueLoop | returned | spent => exact .done popped
    · exact .done popped
  · obtain rfl : s = _ := hs
    obtain rfl : r = _ := hi
    have shown : Reports Quiet m (.error (.sketch e), { m' with calls := m'.calls.drop 1 })
        ((.error i, m'') : Except Interrupt α × Memory) :=
      ⟨hcalls, hr.store, Or.inr ⟨e, i, rfl, rfl, hj, hstack⟩⟩
    cases i with
    | sketch | mishap => exact .done shown
    | unwind | cancelled | breakLoop | continueLoop | returned | spent => exact hj.elim

/-- What hands on all errors hands on the reports. -/
theorem TracksAt.catching {x y : Eval α} {h : Interrupt → Eval α} (hx : TracksAt L x y m)
    (sketch : ∀ e, h (.sketch e) = throw (.sketch e))
    (mishap : ∀ mi, h (.mishap mi) = throw (.mishap mi))
    (caught : ∀ i, L i → Tracks L (h i) (h i)) : TracksAt L (tryCatch x h) (tryCatch y h) m := by
  rw [TracksAt, runFrom_tryCatch, runFrom_tryCatch]
  refine Act.Alike.bind hx ?_
  rintro ⟨i | a, m'⟩ ⟨s, m''⟩ hr
  · obtain ⟨hs, hc, hL⟩ | ⟨e, j, hi, hs, hj, hstack⟩ := hr.ends
    · obtain rfl : s = _ := hs
      obtain rfl : m'' = m' := hr.memory_eq hc
      exact (caught i (hL i rfl) m'').mono fun _ _ hr' =>
        ⟨hr'.calls.trans hc, hr'.store, hc ▸ hr'.ends⟩
    · obtain rfl : s = _ := hs
      cases hi
      have handed : Reports L m ((.error (.sketch e), m') : Except Interrupt α × Memory)
          (.error j, m'') :=
        ⟨hr.calls, hr.store, Or.inr ⟨e, j, rfl, rfl, hj, hstack⟩⟩
      dsimp only
      cases j with
      | sketch e' =>
        rw [sketch, sketch]
        exact .done handed
      | mishap mi =>
        rw [sketch, mishap]
        exact .done handed
      | unwind | cancelled | breakLoop | continueLoop | returned | spent => exact hj.elim
  · rw [hr.eq_of_ok]
    exact .done (.same hr.calls not_early)

theorem TracksAt.loopBody {x y : Eval Unit} (h : TracksAt L x y m) :
    TracksAt L (loopBody x) (loopBody y) m := by
  refine (h.bind fun _ => tracks_pure true).catching (fun _ => rfl) (fun _ => rfl) fun i hi => ?_
  cases i with
  | breakLoop => exact tracks_pure false
  | continueLoop => exact tracks_pure true
  | sketch | mishap | unwind | cancelled | returned | spent => exact tracks_throw hi

theorem TracksAt.returning {x y : Eval Unit} (h : TracksAt L x y m) :
    TracksAt L (returning x) (returning y) m := by
  refine (h.bind fun _ => tracks_pure Value.null).catching (fun _ => rfl) (fun _ => rfl)
    fun i hi => ?_
  cases i with
  | returned v => exact tracks_pure v
  | sketch | mishap | unwind | cancelled | breakLoop | continueLoop | spent => exact tracks_throw hi

end Eval
end LedSketch
