import LedSketch.Board.Strip

/-!
# What a running sketch asks for

A sketch computes by itself and reaches the outside in two ways: it asks the board for something and
goes on at once with the reply, or it rests for a while. An `Act` is a computation of this shape, as
a tree whose leaves are its results.

Requests that change the board are denied to a sketch that is not live any more.

So a sketch suspends only where it waits, as section 5 of the specification has it
(`SPEC_FULL.md:234-238`).

* `Act.bind_assoc` and its companions — acts form a monad.
-/

namespace LedSketch

/-- Why the board does not do what it is asked for. -/
inductive Denial where
  /-- The sketch has been stopped or replaced. -/
  | dead
  | refused (r : Strip.Refusal)
deriving DecidableEq

/-- What a sketch asks the board for. -/
inductive Request where
  | isLive
  | now
  /-- A number drawn from the board's generator, in the half-open unit interval. -/
  | draw
  /-- A number drawn from the generator of the mathematical library. -/
  | chance
  | read (pin : Value)
  | command (c : Strip.Command)
  | print (text : String)

/-- What the board replies. -/
def Request.Reply : Request → Type
  | isLive => Bool
  | now | draw | chance => Float
  | read _ => Except Strip.Refusal Nat
  | command _ | print _ => Except Denial Unit

/-- How long a sketch rests. -/
inductive Nap where
  /-- Until everybody else who is ready has had a turn. -/
  | moment
  | seconds (d : Float)
deriving DecidableEq

/-- Why a rest ends. -/
inductive Wake where
  | rested
  | cancelled
deriving DecidableEq, Repr

/-- A computation that asks and rests. -/
inductive Act (α : Type) where
  | done (a : α)
  | ask (r : Request) (k : r.Reply → Act α)
  | rest (nap : Nap) (k : Wake → Act α)

namespace Act

variable {α β γ : Type}

instance [Inhabited α] : Inhabited (Act α) := ⟨done default⟩

/-- Goes on with the result. -/
def bind (x : Act α) (f : α → Act β) : Act β :=
  match x with
  | done a => f a
  | ask r k => .ask r fun reply => (k reply).bind f
  | rest nap k => .rest nap fun wake => (k wake).bind f

instance : Monad Act where
  pure := done
  bind := bind

theorem done_bind (a : α) (f : α → Act β) : (done a).bind f = f a := rfl

theorem bind_done (x : Act α) : x.bind done = x := by
  induction x with
  | done a => rfl
  | ask r k ih => simp only [bind, ih]
  | rest nap k ih => simp only [bind, ih]

theorem bind_assoc (x : Act α) (f : α → Act β) (g : β → Act γ) :
    (x.bind f).bind g = x.bind fun a => (f a).bind g := by
  induction x with
  | done a => rfl
  | ask r k ih => simp only [bind, ih]
  | rest nap k ih => simp only [bind, ih]

instance : LawfulMonad Act :=
  LawfulMonad.mk' Act bind_done done_bind bind_assoc

end Act
end LedSketch
