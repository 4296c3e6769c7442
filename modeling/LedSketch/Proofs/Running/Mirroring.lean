import LedSketch.Proofs.Running.Tracking
import LedSketch.Proofs.Store.Likeness

/-!
# Evaluations that mirror each other

Two evaluations mirror each other if, from memories that hold the same, they ask and rest alike and
end alike, in memories that hold the same again. What only looks at the memory through names, values
and texts mirrors itself: the whole library does.

* `Memory.Like`, `Eval.Mirrors`: holding the same, and mirroring.
* `Eval.Mirrors.bind` and its companions: mirroring through what puts evaluations together.
* `Running.mirrors_callHost`: the library mirrors itself.
-/

namespace LedSketch

/-- **Memories that hold the same**: the same calls are active, and the stores hold the same. -/
structure Memory.Like (m m' : Memory) : Prop where
  store : m.store.Like m'.store
  calls : m.calls = m'.calls

theorem Memory.Like.refl (m : Memory) : m.Like m := ⟨.refl _, rfl⟩

namespace Eval

variable {α β : Type} {x y : Eval α} {m m' : Memory}

/-- Ending alike, in memories that hold the same. -/
def SameEnd (r r' : Except Interrupt α × Memory) : Prop := r.1 = r'.1 ∧ r.2.Like r'.2

/-- Two evaluations mirror each other from two memories. -/
def MirrorsAt (m m' : Memory) (x y : Eval α) : Prop :=
  Act.Alike SameEnd (x.runFrom m) (y.runFrom m')

/-- **Two evaluations mirror each other**, from all memories that hold the same. -/
def Mirrors (x y : Eval α) : Prop := ∀ m m', m.Like m' → MirrorsAt m m' x y

theorem mirrors_pure (a : α) : Mirrors (pure a : Eval α) (pure a) :=
  fun _ _ h => .done ⟨rfl, h⟩

theorem mirrors_throw (i : Interrupt) : Mirrors (throw i : Eval α) (throw i) :=
  fun _ _ h => .done ⟨rfl, h⟩

theorem MirrorsAt.bind {f g : α → Eval β} (h : MirrorsAt m m' x y)
    (hfg : ∀ a, Mirrors (f a) (g a)) : MirrorsAt m m' (x >>= f) (y >>= g) := by
  rw [MirrorsAt, runFrom_bind, runFrom_bind]
  refine Act.Alike.bind h ?_
  rintro ⟨i | a, n⟩ ⟨_, n'⟩ ⟨rfl, hn⟩
  · exact .done ⟨rfl, hn⟩
  · exact hfg a n n' hn

theorem Mirrors.bind {f g : α → Eval β} (h : Mirrors x y) (hfg : ∀ a, Mirrors (f a) (g a)) :
    Mirrors (x >>= f) (y >>= g) :=
  fun m m' hm => (h m m' hm).bind hfg

theorem MirrorsAt.tryCatch {h k : Interrupt → Eval α} (hx : MirrorsAt m m' x y)
    (hh : ∀ i, Mirrors (h i) (k i)) : MirrorsAt m m' (tryCatch x h) (tryCatch y k) := by
  rw [MirrorsAt, runFrom_tryCatch, runFrom_tryCatch]
  refine Act.Alike.bind hx ?_
  rintro ⟨i | a, n⟩ ⟨_, n'⟩ ⟨rfl, hn⟩
  · exact hh i n n' hn
  · exact .done ⟨rfl, hn⟩

theorem MirrorsAt.withFrame {f : Frame}
    (h : MirrorsAt { m with calls := f :: m.calls } { m' with calls := f :: m'.calls } x y) :
    MirrorsAt m m' (withFrame f x) (withFrame f y) := by
  rw [MirrorsAt, runFrom_withFrame, runFrom_withFrame]
  refine Act.Alike.bind h ?_
  rintro ⟨r, n⟩ ⟨_, n'⟩ ⟨rfl, hn⟩
  exact .done ⟨rfl, hn.store, congrArg (List.drop 1) hn.calls⟩

theorem Mirrors.withFrame (h : Mirrors x y) (f : Frame) :
    Mirrors (withFrame f x) (withFrame f y) :=
  fun _ _ hm => .withFrame (h _ _ ⟨hm.store, congrArg (f :: ·) hm.calls⟩)

theorem mirrors_ask (r : Request) : Mirrors (ask r) (ask r) :=
  fun _ _ h => .ask r fun _ => .done ⟨rfl, h⟩

theorem mirrors_rest (nap : Nap) : Mirrors (rest nap) (rest nap) := by
  refine fun _ _ h => .rest nap ?_
  rintro (_ | _)
  · exact .done ⟨rfl, h⟩
  · exact .done ⟨rfl, h⟩

theorem mirrors_mapM {γ : Type} {f : γ → Eval β} (hf : ∀ a, Mirrors (f a) (f a)) (as : List γ) :
    Mirrors (as.mapM f) (as.mapM f) := by
  induction as with
  | nil => exact mirrors_pure _
  | cons a as ih =>
    rw [List.mapM_cons]
    exact (hf a).bind fun _ => ih.bind fun _ => mirrors_pure _

/-! ## The memory -/

theorem mirrors_get_bind {f g : Memory → Eval α}
    (h : ∀ m m', m.Like m' → Mirrors (f m) (g m')) : Mirrors (get >>= f) (get >>= g) := by
  intro m m' hm
  rw [MirrorsAt, runFrom_bind, runFrom_bind]
  exact h m m' hm m m' hm

theorem mirrors_store_bind {f g : Store → Eval α}
    (h : ∀ st st', st.Like st' → Mirrors (f st) (g st')) : Mirrors (store >>= f) (store >>= g) := by
  intro m m' hm
  rw [MirrorsAt, runFrom_bind, runFrom_bind]
  exact h m.store m'.store hm.store m m' hm

theorem mirrors_setStore {st st' : Store} (h : st.Like st') :
    Mirrors (setStore st) (setStore st') :=
  fun _ _ hm => .done ⟨rfl, h, hm.calls⟩

/-- A change of the store that both make, or both refuse. -/
theorem mirrors_change {r : Store → Except Complaint Store}
    (hr : ∀ st st', st.Like st' → Store.Agree (r st) (r st')) (h : Mirrors x y) :
    Mirrors (do
      setStore (← ofComplaint (r (← store)))
      x) (do
      setStore (← ofComplaint (r (← store)))
      y) := by
  refine mirrors_store_bind fun st st' hst => ?_
  have hagree := hr st st' hst
  generalize r st = s at hagree ⊢
  generalize r st' = s' at hagree ⊢
  cases hagree with
  | error c => exact fun _ _ hm => .done ⟨rfl, hm⟩
  | ok hst => exact (mirrors_setStore hst).bind fun _ => h

theorem mirrors_freshToken : Mirrors freshToken freshToken := by
  refine mirrors_store_bind fun st st' h => ?_
  change Mirrors (setStore st.freshToken.2 >>= fun _ => pure st.freshToken.1)
    (setStore st'.freshToken.2 >>= fun _ => pure st'.freshToken.1)
  rw [h.freshToken.1]
  exact (mirrors_setStore h.freshToken.2).bind fun _ => mirrors_pure _

theorem mirrors_newList (vs : List Value) : Mirrors (newList vs) (newList vs) := by
  refine mirrors_store_bind fun st st' h => ?_
  change Mirrors (setStore (st.newList vs).2 >>= fun _ => pure (Value.list (st.newList vs).1))
    (setStore (st'.newList vs).2 >>= fun _ => pure (Value.list (st'.newList vs).1))
  rw [(h.newList vs).1]
  exact (mirrors_setStore (h.newList vs).2).bind fun _ => mirrors_pure _

/-- Both make their scope at the same place, and nothing is constant in it yet. -/
theorem mirrors_newScope_bind {f g : ScopeRef → Eval α} (parent : ScopeRef)
    (h : ∀ ref m m', m.Like m' → m.store.Open ref → MirrorsAt m m' (f ref) (g ref)) :
    Mirrors (newScope parent >>= f) (newScope parent >>= g) := by
  intro m m' hm
  rw [MirrorsAt, runFrom_bind, runFrom_bind]
  change MirrorsAt _ _ (f m.store.scopes.size) (g m'.store.scopes.size)
  rw [← hm.store.size]
  exact h _ _ _ ⟨hm.store.newScope (some parent), hm.calls⟩ (Store.open_newScope _ _)

/-! ## Errors -/

theorem mirrors_complain (c : Complaint) : Mirrors (complain c : Eval α) (complain c) :=
  mirrors_throw _

theorem mirrors_ofMishap (r : Except Mishap α) : Mirrors (ofMishap r) (ofMishap r) := by
  cases r with
  | ok a => exact mirrors_pure a
  | error m => exact mirrors_throw _

theorem mirrors_ofComplaint (r : Except Complaint α) : Mirrors (ofComplaint r) (ofComplaint r) := by
  cases r with
  | ok a => exact mirrors_pure a
  | error c => exact mirrors_complain c

theorem mirrors_ofFault (r : Except Fault α) : Mirrors (ofFault r) (ofFault r) := by
  rcases r with (_ | _) | a
  · exact mirrors_throw _
  · exact mirrors_throw _
  · exact mirrors_pure a

theorem mirrors_display (v : Value) : Mirrors (display v) (display v) := by
  refine mirrors_store_bind fun st st' h => ?_
  rw [h.display]
  exact mirrors_ofMishap _

theorem mirrors_throwAt (loc : Option Loc) (e : SketchError) :
    Mirrors (throwAt loc e : Eval α) (throwAt loc e) := by
  refine mirrors_get_bind fun m m' hm => ?_
  rw [hm.calls]
  exact mirrors_throw _

theorem Mirrors.inStatement (h : Mirrors x y) (loc : Option Loc) :
    Mirrors (inStatement loc x) (inStatement loc y) := by
  refine fun m m' hm => (h m m' hm).tryCatch fun i => ?_
  split
  · exact mirrors_throwAt loc _
  · exact mirrors_throwAt loc _
  · exact mirrors_throwAt loc _
  · exact mirrors_throw _

theorem Mirrors.inCall (h : Mirrors x y) (name : String) (loc : Option Loc) :
    Mirrors (inCall name loc x) (inCall name loc y) := by
  refine fun m m' hm => (h m m' hm).tryCatch fun i => ?_
  split
  · exact mirrors_throwAt loc _
  · exact mirrors_throwAt loc _
  · exact mirrors_throw _

theorem Mirrors.loopBody {x y : Eval Unit} (h : Mirrors x y) :
    Mirrors (loopBody x) (loopBody y) := by
  refine fun m m' hm => ((h m m' hm).bind fun _ => mirrors_pure true).tryCatch fun i => ?_
  split
  · exact mirrors_pure false
  · exact mirrors_pure true
  · exact mirrors_throw _

theorem MirrorsAt.returning {x y : Eval Unit} (h : MirrorsAt m m' x y) :
    MirrorsAt m m' (returning x) (returning y) := by
  refine (h.bind fun _ => mirrors_pure Value.null).tryCatch fun i => ?_
  split
  · exact mirrors_pure _
  · exact mirrors_throw _

end Eval

/-! ## The library -/

namespace Running

open Eval

/-! ### Members -/

theorem mirrors_memberGet (object : Value) (name : String) :
    Mirrors (Members.get object name) (Members.get object name) := by
  have fresh (f : Nat → Value) : Mirrors (do return f (← freshToken)) (do return f (← freshToken)) :=
    mirrors_freshToken.bind fun _ => mirrors_pure _
  unfold Members.get
  split
  · exact mirrors_complain _
  · exact mirrors_pure _
  · split
    · refine mirrors_store_bind fun st st' h => ?_
      rw [h.items]
      exact mirrors_pure _
    · split
      · exact fresh _
      · exact mirrors_pure _
  · split
    · exact mirrors_pure _
    · split
      · exact fresh _
      · exact mirrors_pure _
  · split
    · split
      · exact fresh _
      · exact mirrors_pure _
    · exact mirrors_pure _

theorem mirrors_element (container key : Value) :
    Mirrors (Members.element container key) (Members.element container key) := by
  unfold Members.element
  split
  · refine mirrors_store_bind fun st st' h => ?_
    rw [h.items]
    exact mirrors_pure _
  · exact mirrors_pure _
  · exact (mirrors_display _).bind fun _ => mirrors_pure _
  · exact (mirrors_display _).bind fun _ => mirrors_complain _
  · exact mirrors_pure _

theorem mirrors_writeAt (ref : ListRef) (i : Nat) (v : Value) :
    Mirrors (Members.writeAt ref i v) (Members.writeAt ref i v) := by
  refine mirrors_store_bind fun st st' h => ?_
  rw [h.items]
  split
  · exact mirrors_throw _
  · exact mirrors_setStore (h.setItems _ _)

theorem mirrors_storeAt (ref : ListRef) (key v : Value) :
    Mirrors (Members.storeAt ref key v) (Members.storeAt ref key v) := by
  unfold Members.storeAt
  refine (mirrors_ofMishap _).bind fun i => ?_
  split
  · exact (mirrors_ofMishap _).bind fun _ =>
      (mirrors_complain _).bind fun _ => mirrors_writeAt _ _ _
  · exact mirrors_writeAt _ _ _

theorem mirrors_callList (ref : ListRef) (m : ListMember) (args : List Value) :
    Mirrors (Members.callList ref m args) (Members.callList ref m args) := by
  refine (mirrors_ofMishap _).bind fun _ => mirrors_store_bind fun st st' h => ?_
  dsimp only
  rw [h.items]
  have hplace : Members.placeOf? st = Members.placeOf? st' := by
    funext items item
    simp only [Members.placeOf?, h.strictEquals]
  cases m with
  | push => exact (mirrors_setStore (h.setItems _ _)).bind fun _ => mirrors_pure _
  | pop => exact (mirrors_setStore (h.setItems _ _)).bind fun _ => mirrors_pure _
  | includes | indexOf =>
    dsimp only
    rw [hplace]
    exact mirrors_pure _
  | join =>
    dsimp only
    split
    · refine (mirrors_mapM (fun v => ?_) _).bind fun _ => mirrors_pure _
      split
      · exact mirrors_pure _
      · exact mirrors_display _
    · exact mirrors_throw _

theorem mirrors_callText (s : String) (m : TextMember) (args : List Value) :
    Mirrors (Members.callText s m args) (Members.callText s m args) := by
  refine (mirrors_ofMishap _).bind fun _ => ?_
  have part : Mirrors (do return (← display (args.headD .null)).toList)
      (do return (← display (args.headD .null)).toList) :=
    (mirrors_display _).bind fun _ => mirrors_pure _
  cases m with
  | toUpperCase | toLowerCase => exact mirrors_pure _
  | includes | indexOf => exact part.bind fun _ => mirrors_pure _
  | charAt => exact (mirrors_ofMishap _).bind fun _ => mirrors_pure _

theorem mirrors_callToFixed (n : Number) (args : List Value) :
    Mirrors (Members.callToFixed n args) (Members.callToFixed n args) :=
  (mirrors_ofMishap _).bind fun _ => (mirrors_ofMishap _).bind fun _ =>
    (mirrors_ofMishap _).bind fun _ => mirrors_pure _

theorem mirrors_callMath (f : MathFunction) (args : List Value) :
    Mirrors (Members.callMath f args) (Members.callMath f args) := by
  refine (mirrors_ofMishap _).bind fun _ => ?_
  split
  · exact mirrors_freshToken.bind fun _ => mirrors_pure _
  · split
    · exact (mirrors_ask _).bind fun _ => mirrors_pure _
    · exact mirrors_pure _

/-! ### Board functions -/

theorem complaint_like {st st' : Store} (h : st.Like st') (r : Strip.Refusal) :
    r.complaint st = r.complaint st' := by
  cases r <;> simp only [Strip.Refusal.complaint, h.plain, h.shown]

/-- A refusal of the board is reported in the same words. -/
theorem mirrors_refuse {α : Type} (r : Strip.Refusal) :
    Mirrors (do complain (← ofMishap (r.complaint (← store))) : Eval α)
      (do complain (← ofMishap (r.complaint (← store)))) := by
  refine mirrors_store_bind fun st st' h => ?_
  rw [complaint_like h]
  exact (mirrors_ofMishap _).bind fun _ => mirrors_complain _

theorem mirrors_granted (reply : Except Denial Unit) :
    Mirrors (granted reply) (granted reply) := by
  match reply with
  | .ok () => exact mirrors_pure _
  | .error .dead => exact mirrors_throw _
  | .error (.refused r) => exact mirrors_refuse r

theorem mirrors_checkLive : Mirrors checkLive checkLive := by
  refine (mirrors_ask _).bind fun live => ?_
  split
  · exact mirrors_pure _
  · exact mirrors_throw _

open BoardFunctions

theorem mirrors_command (c : Strip.Command) : Mirrors (command c) (command c) :=
  (mirrors_ask _).bind fun _ => (mirrors_granted _).bind fun _ => mirrors_pure _

theorem mirrors_level (pin : Value) : Mirrors (level pin) (level pin) := by
  refine (mirrors_ask _).bind fun reply => ?_
  split
  · exact mirrors_pure _
  · exact mirrors_refuse _

theorem mirrors_waiting (b : Binding) (fuel : Nat) (s : Wait.State Float) :
    Mirrors (waiting b fuel s) (waiting b fuel s) := by
  induction fuel generalizing s with
  | zero => exact mirrors_throw _
  | succ fuel ih =>
    rw [waiting]
    refine (mirrors_ask _).bind fun _ => (mirrors_ask _).bind fun _ => ?_
    split
    · exact mirrors_throw _
    · exact mirrors_pure _
    · exact (mirrors_rest _).bind fun _ => ih _
    · exact (mirrors_rest _).bind fun _ => ih _

theorem mirrors_drawn (width offset : Number) :
    Mirrors (drawn width offset) (drawn width offset) := by
  refine (mirrors_ask _).bind fun _ => (mirrors_ofMishap _).bind fun x => ?_
  split
  · exact mirrors_pure _
  · split
    · exact mirrors_pure _
    · exact (mirrors_ofMishap _).bind fun _ => mirrors_pure _

theorem mirrors_random (low high : Value) : Mirrors (random low high) (random low high) := by
  unfold BoardFunctions.random
  split
  · refine (mirrors_ofMishap _).bind fun _ => ?_
    split
    · exact (mirrors_complain _).bind fun _ => mirrors_drawn _ _
    · exact mirrors_drawn _ _
  · -- both bounds are looked at before the number is drawn
    have between (lo hi : Number) : Mirrors (do drawn (← ofMishap (hi.sub lo)) lo)
        (do drawn (← ofMishap (hi.sub lo)) lo) :=
      (mirrors_ofMishap _).bind fun _ => mirrors_drawn _ _
    have above (lo hi : Number) : Mirrors (do
        if !(← finite hi) || hi.le lo then complain .randomNeedsRange
        drawn (← ofMishap (hi.sub lo)) lo) (do
        if !(← finite hi) || hi.le lo then complain .randomNeedsRange
        drawn (← ofMishap (hi.sub lo)) lo) := by
      refine (mirrors_ofMishap _).bind fun _ => ?_
      split
      · exact (mirrors_complain _).bind fun _ => between _ _
      · exact between _ _
    refine (mirrors_ofMishap _).bind fun _ => ?_
    split
    · exact (mirrors_complain _).bind fun _ => above _ _
    · exact above _ _

theorem mirrors_callBoard (b : Binding) (fuel : Nat) (f : BoardFunction) (args : List Value) :
    Mirrors (BoardFunctions.call b fuel f args) (BoardFunctions.call b fuel f args) := by
  refine (mirrors_ofMishap _).bind fun _ => ?_
  cases f with
  | pinMode | digitalWrite | analogWrite | toggle | setAll | shiftLeft | shiftRight =>
    exact mirrors_command _
  | digitalRead | analogRead => exact (mirrors_level _).bind fun _ => mirrors_pure _
  | delay =>
    exact ((mirrors_ofMishap _).bind fun _ => mirrors_waiting _ _ _).bind fun _ => mirrors_pure _
  | millis => exact (mirrors_ask _).bind fun _ => (mirrors_ofMishap _).bind fun _ => mirrors_pure _
  | random => exact mirrors_random _ _
  | constrain => exact mirrors_pure _
  | map =>
    have mapped (x inMin inMax outMin outMax : Number) : Mirrors
        (do return .num (← ofMishap (mapRange x inMin inMax outMin outMax)) : Eval Value)
        (do return .num (← ofMishap (mapRange x inMin inMax outMin outMax))) :=
      (mirrors_ofMishap _).bind fun _ => mirrors_pure _
    dsimp only
    split
    · exact (mirrors_complain _).bind fun _ => mapped _ _ _ _ _
    · exact mapped _ _ _ _ _
  | print =>
    exact mirrors_checkLive.bind fun _ => (mirrors_mapM mirrors_display _).bind fun _ =>
      (mirrors_ask _).bind fun _ => (mirrors_granted _).bind fun _ => mirrors_pure _

/-- **The library mirrors itself**, also where what is called is written in another way that is
shown alike. -/
theorem mirrors_callHost (b : Binding) (fuel : Nat) {callee callee' : Node}
    (h : callee.Rearranged callee') (f : Value) (args : List Value) :
    Mirrors (callHost b fuel callee f args) (callHost b fuel callee' f args) := by
  unfold callHost
  split
  · exact mirrors_callBoard _ _ _ _
  · exact mirrors_callMath _ _
  · exact mirrors_callList _ _ _
  · exact mirrors_callText _ _ _
  · exact mirrors_callToFixed _ _
  · have shown : Mirrors (refusedCallee callee f) (refusedCallee callee' f) := by
      cases h <;> first | exact mirrors_pure _ | exact mirrors_display f
    exact shown.bind fun _ => mirrors_complain _

end Running
end LedSketch
