import LedSketch.Store.Basic

/-!
# The cache of programs

A cache remembers what was made from a source, the least recently found one first, and forgets from
the front whenever it holds more than its bound allows. Failures are not remembered. A maker may
also make nothing; that is remembered as an entry, but does not count as found.

This is the program cache of section 4.4 of the specification (`SPEC_FULL.md:188-200`): `lookUp` is
its `get_or_compile`, and `resize` sets the bound of section 12 (`SPEC_FULL.md:314-316`).

* `lookUp_of_found` — a hit calls no maker and moves the entry to the end;
* `length_evict` — a bound is kept.
-/

namespace LedSketch

/-- What was made from which source, and how often it was found. -/
structure Cache (α : Type) where
  bound : Option Nat := none
  entries : List (String × Option α) := []
  hits : Nat := 0
  misses : Nat := 0

namespace Cache

variable {α ε : Type}

instance : Inhabited (Cache α) := ⟨{}⟩

/-- Whether a bound is allowed: there is none, or it is positive. -/
def allowed (bound : Option Int) : Bool := bound.all (1 ≤ ·)

/-- The words that refuse a bound. -/
def refusedBound : String := "max_entries must be a positive integer or None"

/-- The sources of all entries. -/
def keys (c : Cache α) : List String := c.entries.map (·.1)

/-- What is found under a source. -/
def found? (c : Cache α) (key : String) : Option α := (c.entries.lookup key).join

/-- Whether there is an entry for a source. -/
def holds (c : Cache α) (key : String) : Bool := c.keys.contains key

/-- The entries that fit the bound: the last ones. -/
def fitting (bound : Option Nat) (entries : List (String × Option α)) : List (String × Option α) :=
  match bound with
  | none => entries
  | some n => entries.drop (entries.length - n)

/-- Forgets the entries that do not fit any more. -/
def evict (c : Cache α) : Cache α := { c with entries := fitting c.bound c.entries }

theorem length_evict {c : Cache α} {n : Nat} (h : c.bound = some n) :
    c.evict.entries.length ≤ n := by
  simp only [evict, fitting, h, List.length_drop]
  omega

/-- The entries with the one for a source moved to the end. -/
def refreshed (key : String) (entries : List (String × Option α)) : List (String × Option α) :=
  entries.filter (·.1 ≠ key) ++ entries.filter (·.1 = key)

/-- Finds what was made from a source, or makes it and remembers it. -/
def lookUp (c : Cache α) (key : String) (make : Unit → Except ε (Option α)) :
    Except ε (Option α) × Cache α :=
  match c.found? key with
  | some a => (.ok (some a), { c with hits := c.hits + 1, entries := refreshed key c.entries })
  | none =>
    let c := { c with misses := c.misses + 1 }
    match make () with
    | .error e => (.error e, c)
    | .ok a => (.ok a, evict { c with entries := putPair key a c.entries })

theorem lookUp_of_found {c : Cache α} {key : String} {a : α} (h : c.found? key = some a)
    (make : Unit → Except ε (Option α)) :
    c.lookUp key make =
      (.ok (some a), { c with hits := c.hits + 1, entries := refreshed key c.entries }) := by
  simp [lookUp, h]

/-- Sets another bound. -/
def resize (c : Cache α) (bound : Option Nat) : Cache α := evict { c with bound }

/-- Forgets everything, also the counts. -/
def clear (c : Cache α) : Cache α := { c with entries := [], hits := 0, misses := 0 }

end Cache
end LedSketch
