import LedSketch.Proofs.Number.Quotients
import LedSketch.Proofs.Running.Heedful

/-!
# What a wait does

A wait is woken at arbitrary moments, by a clock that may show anything, and its session may have
been stopped at any of them. Whatever happens, it never sleeps longer than a tick or than what
remains, it unwinds at the first moment at which it is not wanted any more, and it returns only when
its time is up.

* `Wait.trace`: what a wait does at the moments at which it looks.
* `Wait.Fair`: what it may do at one of them; `Wait.Abided` is about all of them.
* `Wait.abided_trace`: over exact numbers every wait abides.
* `BoardFunctions.Plays`: an evaluation does what a trace says, woken on one bench after another.
* `BoardFunctions.seconds?_eq`: the seconds that a sketch waits for are the double nearest to the
  exact ones.
* `BoardFunctions.abided_delay`: `delay` is such a wait, for every value that it is given.
-/

namespace LedSketch

namespace Wait

/-! ## Traces -/

/-- What a wait sees when it looks: whether it is still wanted, and the time. -/
structure Look (τ : Type) where
  live : Bool
  now : τ

/-- The state that a step leaves a wait in, if it goes on. -/
def Step.next? {τ : Type} : Step τ → Option (State τ)
  | .unwound | .over => none
  | .yield next | .sleep _ next => some next

/-- A moment's rest. -/
def Step.Yields {τ : Type} : Step τ → Prop
  | .yield _ => True
  | .unwound | .over | .sleep .. => False

section

variable {τ : Type} [Add τ] [Sub τ] [LE τ] [DecidableLE τ] [Min τ] [OfNat τ 0]

/-- What a wait does at the moments at which it is entered and woken, until it comes to an end. -/
def trace (tick : τ) (yields : Bool) : State τ → List (Look τ) → List (Look τ × Step τ)
  | _, [] => []
  | s, l :: ls =>
    (l, step tick yields s l.live l.now) ::
      match (step tick yields s l.live l.now).next? with
      | none => []
      | some next => trace tick yields next ls

end

/-! ## One moment of exact time -/

/-- **What a wait may do at a moment**, entered at `entry` with a positive duration if it has one:
it unwinds exactly if it is not wanted any more; it is over no earlier than its duration after its
entry; it sleeps for a positive time, at most a tick and at most what remains; without a duration it
does not sleep but may rest for a moment. -/
inductive Fair {τ : Type} [Add τ] [Sub τ] [LE τ] [LT τ] [OfNat τ 0] (tick entry : τ)
    (duration : Option τ) (l : Look τ) : Step τ → Prop
  | unwound (dead : l.live = false) : Fair tick entry duration l .unwound
  | over (live : l.live = true) (due : ∀ secs, duration = some secs → entry + secs ≤ l.now) :
    Fair tick entry duration l .over
  | yield {next} (live : l.live = true) (without : duration = none) :
    Fair tick entry duration l (.yield next)
  | sleep {d next secs} (live : l.live = true) (lasting : duration = some secs) (pos : 0 < d)
    (short : d ≤ tick) (within : d ≤ entry + secs - l.now) :
    Fair tick entry duration l (.sleep d next)

/-- Where a wait may stand behind its first moment. -/
inductive Behind {τ : Type} [Add τ] (entry : τ) (duration : Option τ) : State τ → Prop
  | rested (without : duration = none) : Behind entry duration .rested
  | until {secs} (lasting : duration = some secs) : Behind entry duration (.until (entry + secs))

section

variable {τ : Type} [AddCommGroup τ] [LinearOrder τ] [IsOrderedAddMonoid τ]
  {tick entry : τ} {duration : Option τ} {yields : Bool} {s : State τ} {l : Look τ}

theorem fair_await (htick : 0 < tick) (live : l.live = true) {secs : τ}
    (h : duration = some secs) :
    Fair tick entry duration l (await tick (entry + secs) l.now) ∧
    (∀ next, (await tick (entry + secs) l.now).next? = some next → Behind entry duration next) ∧
    ¬ (await tick (entry + secs) l.now).Yields := by
  unfold await next?
  split_ifs with hle
  · refine ⟨.over live fun secs' h' => ?_, nofun, id⟩
    obtain rfl : secs = secs' := Option.some.inj (h.symm.trans h')
    exact sub_nonpos.mp hle
  · refine ⟨?_, fun next hnext => ?_, id⟩
    · exact .sleep live h (lt_min htick (not_le.mp hle)) (min_le_left _ _) (min_le_right _ _)
    · cases hnext
      exact .until h

/-- **The first step is fair**, and leads to where the wait may stand. -/
theorem fair_enter (htick : 0 < tick) :
    Fair tick l.now duration l (step tick yields (.entering duration) l.live l.now) ∧
    ∀ next, (step tick yields (.entering duration) l.live l.now).next? = some next →
      Behind l.now duration next := by
  unfold step
  split
  next live =>
    cases duration with
    | none =>
      cases yields with
      | false => exact ⟨.over live nofun, nofun⟩
      | true =>
        refine ⟨.yield live rfl, fun next h => ?_⟩
        cases h
        exact .rested rfl
    | some secs =>
      obtain ⟨fair, behind, -⟩ := fair_await htick live rfl
      exact ⟨fair, behind⟩
  next dead => exact ⟨.unwound (Bool.eq_false_of_not_eq_true dead), nofun⟩

/-- **Every later step is fair**, leads to where the wait may stand, and rests for no moment. -/
theorem fair_step (htick : 0 < tick) (h : Behind entry duration s) (yields : Bool)
    (l : Look τ) : Fair tick entry duration l (step tick yields s l.live l.now) ∧
    (∀ next, (step tick yields s l.live l.now).next? = some next → Behind entry duration next) ∧
    ¬ (step tick yields s l.live l.now).Yields := by
  unfold step
  split
  next live =>
    cases h with
    | rested without =>
      refine ⟨.over live fun secs lasting => ?_, nofun, id⟩
      rw [without] at lasting
      cases lasting
    | «until» lasting => exact fair_await htick live lasting
  next dead => exact ⟨.unwound (Bool.eq_false_of_not_eq_true dead), nofun, id⟩

/-! ## Whole waits -/

/-- **A wait abides**: it looks at the moments at which it is woken and does what it may at each of
them; from the second one on it rests for no moment; it stops at an end, and only there. -/
structure Abided (tick : τ) (duration : Option τ) (ls : List (Look τ))
    (t : List (Look τ × Step τ)) : Prop where
  woken : t.map Prod.fst <+: ls
  fair : ∀ first, ls.head? = some first → ∀ p ∈ t, Fair tick first.now duration p.1 p.2
  yields : ∀ p ∈ t.tail, ¬ p.2.Yields
  goesOn : t.map Prod.fst = ls ∨ ∃ p, t.getLast? = some p ∧ p.2.next? = none
  ends : ∀ front p back, t = front ++ p :: back → p.2.next? = none → back = []

/-- Behind its first moment a wait does what it may, and rests for no moment. -/
theorem fair_trace (htick : 0 < tick) (h : Behind entry duration s) (ls : List (Look τ)) :
    ∀ p ∈ trace tick yields s ls, Fair tick entry duration p.1 p.2 ∧ ¬ p.2.Yields := by
  induction ls generalizing s with
  | nil => nofun
  | cons l ls ih =>
    obtain ⟨fair, behind, calm⟩ := fair_step htick h yields l
    intro p hp
    rw [trace] at hp
    obtain rfl | hp := List.mem_cons.mp hp
    · exact ⟨fair, calm⟩
    · cases hnext : (step tick yields s l.live l.now).next? with
      | none =>
        rw [hnext] at hp
        cases hp
      | some next =>
        rw [hnext] at hp
        exact ih (behind next hnext) p hp

omit [IsOrderedAddMonoid τ] in
theorem woken_trace (tick : τ) (yields : Bool) (s : State τ) (ls : List (Look τ)) :
    (trace tick yields s ls).map Prod.fst <+: ls ∧
    ((trace tick yields s ls).map Prod.fst = ls ∨
      ∃ p, (trace tick yields s ls).getLast? = some p ∧ p.2.next? = none) := by
  induction ls generalizing s with
  | nil => exact ⟨List.prefix_refl _, .inl rfl⟩
  | cons l ls ih =>
    rw [trace, List.map_cons]
    cases hnext : (step tick yields s l.live l.now).next? with
    | none => exact ⟨List.prefix_append [l] ls, .inr ⟨_, rfl, hnext⟩⟩
    | some next =>
      obtain ⟨woken, goesOn⟩ := ih next
      refine ⟨List.cons_prefix_cons.mpr ⟨rfl, woken⟩, goesOn.imp (congrArg (l :: ·)) ?_⟩
      rintro ⟨p, hp, hend⟩
      refine ⟨p, ?_, hend⟩
      rw [List.getLast?_cons, hp]
      rfl

omit [IsOrderedAddMonoid τ] in
theorem ends_trace (s : State τ) (ls : List (Look τ)) (front : List (Look τ × Step τ))
    {p : Look τ × Step τ} {back : List (Look τ × Step τ)}
    (h : trace tick yields s ls = front ++ p :: back) (hend : p.2.next? = none) : back = [] := by
  induction ls generalizing s front with
  | nil => simp [trace] at h
  | cons l ls ih =>
    rw [trace] at h
    cases front with
    | nil =>
      obtain ⟨rfl, hback⟩ := List.cons.inj h
      rw [hend] at hback
      exact hback.symm
    | cons q front =>
      have hrest := (List.cons.inj h).2
      cases hnext : (step tick yields s l.live l.now).next? with
      | none =>
        rw [hnext] at hrest
        simp at hrest
      | some next =>
        rw [hnext] at hrest
        exact ih next front hrest

theorem fair_tail (htick : 0 < tick) (l : Look τ) (ls : List (Look τ)) :
    ∀ p ∈ (trace tick yields (.entering duration) (l :: ls)).tail,
      Fair tick l.now duration p.1 p.2 ∧ ¬ p.2.Yields := by
  intro p hp
  rw [trace, List.tail_cons] at hp
  cases hnext : (step tick yields (.entering duration) l.live l.now).next? with
  | none =>
    rw [hnext] at hp
    cases hp
  | some next =>
    rw [hnext] at hp
    exact fair_trace htick ((fair_enter htick).2 next hnext) ls p hp

/-- **Every wait abides**, at whatever moments it is woken and whenever it ceases to be wanted. -/
theorem abided_trace (htick : 0 < tick) (duration : Option τ) (yields : Bool)
    (ls : List (Look τ)) : Abided tick duration ls (trace tick yields (.entering duration) ls) := by
  obtain ⟨woken, goesOn⟩ := woken_trace tick yields (.entering duration) ls
  refine ⟨woken, fun first hfirst p hp => ?_, fun p hp => ?_, goesOn,
    fun front p back h => ends_trace _ ls front h⟩
  · cases ls with
    | nil => cases hp
    | cons l ls =>
      cases hfirst
      obtain rfl | hp := List.mem_cons.mp hp
      · exact (fair_enter htick).1
      · exact (fair_tail htick first ls p hp).1
  · cases ls with
    | nil => cases hp
    | cons l ls => exact (fair_tail htick l ls p hp).2

end

end Wait

namespace BoardFunctions

open Eval Binary64

/-! ## Running waits -/

/-- What a wait sees of a bench. -/
def look (w : Wiring) (b : Bench) : Wait.Look Float := ⟨b.isLive w, b.now⟩

/-- **An evaluation does what the trace of a wait says**, started on the first of some benches and
woken on the others in turn, and changes neither them nor the memory on its way. -/
inductive Plays (w : Wiring) (m : Memory) : Act (Except Interrupt Unit × Memory) → List Bench →
    List (Wait.Look Float × Wait.Step Float) → Prop
  | asleep {act} : Plays w m act [] []
  | unwound {act b bs} (h : b.advance w act = (.done (.error .unwind, m), b)) :
    Plays w m act (b :: bs) [(look w b, .unwound)]
  | over {act b bs} (h : b.advance w act = (.done (.ok (), m), b)) :
    Plays w m act (b :: bs) [(look w b, .over)]
  | yield {act b bs k next t} (h : b.advance w act = (.resting .moment k, b))
    (rest : Plays w m (k .rested) bs t) : Plays w m act (b :: bs) ((look w b, .yield next) :: t)
  | sleep {act b bs k d next t} (h : b.advance w act = (.resting (.seconds d) k, b))
    (rest : Plays w m (k .rested) bs t) : Plays w m act (b :: bs) ((look w b, .sleep d next) :: t)

/-- The bench answers both questions of a wait at once, and they do not change it. -/
theorem advance_asked (w : Wiring) (m : Memory) (b : Bench) (f : Bool → Float → Eval Unit) :
    b.advance w ((do
      let live : Bool ← ask .isLive
      let now : Float ← ask .now
      f live now).runFrom m) = b.advance w ((f (look w b).live (look w b).now).runFrom m) := rfl

/-- A running wait does what its trace says, if it is not cut off. -/
theorem plays_waiting (w : Wiring) (m : Memory) (bd : Binding) {fuel : Nat} (s : Wait.State Float)
    (bs : List Bench) (hfuel : bs.length ≤ fuel) :
    Plays w m ((waiting bd fuel s).runFrom m) bs
      (Wait.trace tick bd.yieldsOnZeroDelay s (bs.map (look w))) := by
  induction bs generalizing fuel s with
  | nil => exact .asleep
  | cons b bs ih =>
    obtain ⟨fuel, rfl⟩ : ∃ n, fuel = n + 1 := ⟨fuel - 1, by simp at hfuel; omega⟩
    have hrest := fun next => @ih fuel next (Nat.le_of_succ_le_succ hfuel)
    rw [List.map_cons, Wait.trace, waiting]
    cases hstep : Wait.step tick bd.yieldsOnZeroDelay s (look w b).live (look w b).now with
    | unwound =>
      apply Plays.unwound
      rw [advance_asked, hstep]
      rfl
    | «over» =>
      apply Plays.over
      rw [advance_asked, hstep]
      rfl
    | yield next =>
      apply Plays.yield
      · rw [advance_asked, hstep]
        rfl
      · exact hrest next
    | sleep d next =>
      apply Plays.sleep
      · rw [advance_asked, hstep]
        rfl
      · exact hrest next

/-! ## Durations -/

/-- The seconds of a finite positive duration in milliseconds. -/
def exactSeconds? (ms : Number) : Option ℚ := (ms.fraction?.filter (0 < ·)).map (· / 1000)

theorem exactSeconds?_eq_some {ms : Number} {q : ℚ} (h : ms.fraction? = some q) (hpos : 0 < q) :
    exactSeconds? ms = some (q / 1000) := by
  rw [exactSeconds?, h, Option.filter_some_pos (by simpa using hpos)]
  rfl

theorem exactSeconds?_eq_none {ms : Number} (h : ¬ ∃ q, ms.fraction? = some q ∧ 0 < q) :
    exactSeconds? ms = none := by
  rw [exactSeconds?, Option.map_eq_none_iff, Option.filter_eq_none_iff]
  exact fun q hq hpos => h ⟨q, hq, of_decide_eq_true hpos⟩

theorem quotient_int_thousand {k : Nat} {x : Float} (h : ofInt? k = some x) (hpos : 0 < k) :
    ∃ y, Number.quotient (.int k) (.int 1000) = .ok y ∧ IsNearest (k / 1000) y := by
  obtain ⟨y, hy⟩ := Option.isSome_iff_exists.mp
    (isSome_ofRatio?_of_whole (Option.isSome_of_eq_some h) false (show 2 ≤ Nat.log2 1000 by decide))
  refine ⟨y, ?_, by simpa using isNearest_ofRatio? hpos.ne' (by decide) hy⟩
  have hsign : ((decide ((k : Int) < 0)) != (decide ((1000 : Int) < 0))) = false := by
    simp
  have hthousand : (1000 : Int).natAbs = 1000 := rfl
  rw [Number.quotient, Number.intQuotient, if_neg (by decide), hsign, hthousand]
  rw [hy]

theorem quotient_float_thousand {x : Float} {d : Exact} (hx : decode? x = some d)
    (hpos : 0 < d.value) :
    ∃ y, Number.quotient (.float x) (.int 1000) = .ok y ∧ IsNearest (d.value / 1000) y := by
  obtain ⟨y, hy, hzero, hdecode⟩ : ∃ y, ofInt? 1000 = some y ∧ (y == 0.0) = false ∧
      decode? y = some ⟨false, 1000 * 2 ^ 43, -43⟩ :=
    ⟨_, rfl, by decide +kernel, by decide +kernel⟩
  have hthousand : Exact.value ⟨false, 1000 * 2 ^ 43, -43⟩ = 1000 := by
    rw [Exact.value]
    norm_num
  have htop := (bounds_of_decode? hx).2.2
  have hlt : d.value / 1000 < 2 ^ 1023 := by
    rw [div_lt_iff₀ (by norm_num)]
    calc d.value ≤ |d.value| := le_abs_self _
      _ < 2 ^ (53 + d.exponent) := abs_value_lt hx
      _ ≤ 2 ^ ((1023 + 1 : ℕ) : ℤ) := zpow_le_zpow_right₀ one_le_two (by omega)
      _ = 2 ^ 1023 * 2 := by rw [zpow_natCast, pow_succ]
      _ < 2 ^ 1023 * 1000 := by gcongr; norm_num
  have hnearest := isNearest_div hx hdecode hpos (by rw [hthousand]; norm_num)
  rw [hthousand] at hnearest
  refine ⟨x / y, ?_, hnearest hlt⟩
  simp only [Number.quotient, Number.toFloat, hy, hzero, bind, Except.bind]
  rfl

/-- **A positive duration is turned from milliseconds into the nearest double of seconds.** -/
theorem quotient_thousand {ms : Number} {x : Float} {q : ℚ} (h : ms.toFloat = .ok x)
    (hq : ms.fraction? = some q) (hpos : 0 < q) :
    ∃ y, ms.quotient (.int 1000) = .ok y ∧ IsNearest (q / 1000) y := by
  cases ms with
  | int n =>
    obtain rfl : (n : ℚ) = q := Option.some.inj hq
    have hn : 0 < n := by exact_mod_cast hpos
    obtain ⟨k, rfl⟩ := Int.eq_ofNat_of_zero_le hn.le
    rw [Int.cast_natCast]
    cases hk : ofInt? k with
    | some y => exact quotient_int_thousand hk (by omega)
    | none =>
      simp only [Number.toFloat, hk] at h
      cases h
  | float x =>
    obtain ⟨d, hd, rfl⟩ := Option.map_eq_some_iff.mp hq
    exact quotient_float_thousand hd hpos

/-- **A sketch waits for the nearest double of the exact seconds** if its duration is finite and
positive, and for no time otherwise. -/
theorem seconds?_eq {ms : Number} {x : Float} (h : ms.toFloat = .ok x) :
    ∃ secs, seconds? ms = .ok secs ∧ Option.Rel IsNearest (exactSeconds? ms) secs := by
  have hfinite : ms.isFinite = .ok x.isFinite := by
    rw [Number.isFinite, h]
    rfl
  have hpositive := Number.isPositive_iff hfinite
  rw [seconds?, hfinite]
  by_cases hwaits : ∃ q, ms.fraction? = some q ∧ 0 < q
  · obtain ⟨q, hq, hpos⟩ := hwaits
    obtain ⟨y, hy, hnearest⟩ := quotient_thousand h hq hpos
    obtain ⟨hf, hn, hz⟩ := hpositive.mpr ⟨q, hq, hpos⟩
    refine ⟨some y, ?_, ?_⟩
    · simp only [hf, hn, hz, hy, bind, Except.bind]
      rfl
    · rw [exactSeconds?_eq_some hq hpos]
      exact .some hnearest
  · refine ⟨none, ?_, ?_⟩
    · have : (!x.isFinite || ms.isNegative || ms.isZero) = true := by
        by_contra h
        exact hwaits (hpositive.mp (by simpa [and_assoc] using h))
      simp only [bind, Except.bind, this]
      rfl
    · rw [exactSeconds?_eq_none hwaits]
      exact .none

/-- A tick is the nearest double to sixteen thousandths of a second. -/
theorem isNearest_tick : IsNearest (16 / 1000) tick := by
  have h : ofRatio? false 16 1000 = some tick := by
    rfl
  exact_mod_cast isNearest_ofRatio? (by decide) (by decide) h

/-- **`delay` abides by its duration**, whatever value it is given, if that is not beyond the range
of doubles. Over exact numbers its wait abides, whether or not it rests without a duration, whatever
the clock shows and whenever its session is stopped. A sketch that calls it does what the same
machine does over doubles, with the doubles that are nearest to the exact tick and to the exact
seconds of the duration, and without any seconds exactly if the exact wait has none. -/
theorem abided_delay (v : Value) {x : Float} (h : v.toNumber.toFloat = .ok x) :
    (∀ (yields : Bool) (ls : List (Wait.Look ℚ)),
      Wait.Abided (16 / 1000) (exactSeconds? v.toNumber) ls
        (Wait.trace (16 / 1000) yields (.entering (exactSeconds? v.toNumber)) ls)) ∧
    IsNearest (16 / 1000) tick ∧
    ∃ secs : Option Float, seconds? v.toNumber = .ok secs ∧
      Option.Rel IsNearest (exactSeconds? v.toNumber) secs ∧
      ∀ (bd : Binding) (fuel : Nat) (w : Wiring) (m : Memory) (bs : List Bench), bs.length ≤ fuel →
        Plays w m ((delay bd fuel v.toNumber).runFrom m) bs
          (Wait.trace tick bd.yieldsOnZeroDelay (.entering secs) (bs.map (look w))) := by
  refine ⟨fun yields ls => Wait.abided_trace (by norm_num) _ yields ls, isNearest_tick, ?_⟩
  obtain ⟨secs, hsecs, hnearest⟩ := seconds?_eq h
  refine ⟨secs, hsecs, hnearest, fun bd fuel w m bs hfuel => ?_⟩
  have hrun : (delay bd fuel v.toNumber).runFrom m =
      (waiting bd fuel (.entering secs)).runFrom m := by
    rw [delay, hsecs]
    rfl
  rw [hrun]
  exact plays_waiting w m bd _ bs hfuel

/-- Twenty milliseconds, woken in time once and late once: a whole tick is slept, then what remains,
and then the wait is over. A sketch that waits for them sleeps as long, up to the nearest doubles,
and is unwound if its session is stopped behind the second rest. -/
theorem abided_delay_twenty :
    (∃ x, (Value.int 20).toNumber.toFloat = .ok x) ∧
    Wait.Abided (16 / 1000) (some (20 / 1000)) [⟨true, 7⟩, ⟨true, 7 + 16 / 1000⟩, ⟨true, 8⟩]
      [(⟨true, 7⟩, .sleep (16 / 1000) (.until (7 + 20 / 1000))),
        (⟨true, 7 + 16 / 1000⟩, .sleep (4 / 1000) (.until (7 + 20 / 1000))),
        (⟨true, (8 : ℚ)⟩, .over)] ∧
    IsNearest (16 / 1000) 0.016 ∧ IsNearest (20 / 1000) 0.02 ∧
    Plays ⟨0, 0, some (0, 1)⟩ {} ((delay {} 3 (Value.int 20).toNumber).runFrom {})
      [{ now := 7.0, clocks := Shelf.put {} 0 ⟨1, some 1⟩ },
        { now := 7.0 + 0.016, clocks := Shelf.put {} 0 ⟨1, some 1⟩ },
        { now := 8.0, clocks := Shelf.put {} 0 ⟨1, none⟩ }]
      [(⟨true, 7.0⟩, .sleep 0.016 (.until (7.0 + 0.02))),
        (⟨true, 7.0 + 0.016⟩, .sleep (7.0 + 0.02 - (7.0 + 0.016)) (.until (7.0 + 0.02))),
        (⟨false, 8.0⟩, .unwound)] := by
  obtain ⟨x, hx⟩ : ∃ x, (Value.int 20).toNumber.toFloat = .ok x := ⟨_, rfl⟩
  obtain ⟨habided, htick, secs, hsecs, hnearest, hplays⟩ := abided_delay (.int 20) hx
  have hexact : exactSeconds? (Value.int 20).toNumber = some (20 / 1000) := by
    simp [exactSeconds?, Number.fraction?, Value.toNumber]
  obtain rfl : secs = some 0.02 := by
    have : seconds? (Value.int 20).toNumber = .ok (some 0.02) := rfl
    exact Except.ok.inj (hsecs.symm.trans this)
  rw [hexact] at habided hnearest
  refine ⟨⟨x, hx⟩, ?_, htick, ?_, ?_⟩
  · convert habided true [⟨true, 7⟩, ⟨true, 7 + 16 / 1000⟩, ⟨true, 8⟩] using 1
    norm_num [Wait.trace, Wait.step, Wait.await, Wait.next?, Wait.Step.next?]
  · cases hnearest with
    | some h => exact h
  · exact hplays {} 3 ⟨0, 0, some (0, 1)⟩ {} _ (by decide)

end BoardFunctions
end LedSketch
