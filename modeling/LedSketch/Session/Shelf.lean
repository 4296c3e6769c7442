/-!
# Shelves

A shelf holds things under numbers. Under every number there is something: what was put there, else
the default of its type.

* `get_put_self`, `get_put_of_ne` — what was put is there, and nothing else changes;
* `get_add_self`, `get_add_of_lt` — the same for what was added.
-/

namespace LedSketch

/-- Things under numbers, from zero on. -/
structure Shelf (α : Type) where
  items : List α := []

namespace Shelf

variable {α : Type}

instance : Inhabited (Shelf α) := ⟨{}⟩

/-- The number of places in use. -/
def size (s : Shelf α) : Nat := s.items.length

/-- What is under a number. -/
def get [Inhabited α] (s : Shelf α) (i : Nat) : α := s.items.getD i default

/-- A list with one place replaced; missing places are filled with the default. -/
def putAt [Inhabited α] : List α → Nat → α → List α
  | [], 0, a => [a]
  | [], i + 1, a => default :: putAt [] i a
  | _ :: as, 0, a => a :: as
  | b :: as, i + 1, a => b :: putAt as i a

/-- Puts something under a number. -/
def put [Inhabited α] (s : Shelf α) (i : Nat) (a : α) : Shelf α := ⟨putAt s.items i a⟩

/-- Changes what is under a number. -/
def modify [Inhabited α] (s : Shelf α) (i : Nat) (f : α → α) : Shelf α := s.put i (f (s.get i))

/-- Puts something under the next number. -/
def add (s : Shelf α) (a : α) : Nat × Shelf α := (s.items.length, ⟨s.items ++ [a]⟩)

variable [Inhabited α]

theorem getD_putAt (as : List α) (i j : Nat) (a : α) :
    (putAt as i a).getD j default = if i = j then a else as.getD j default := by
  fun_induction putAt as i a generalizing j <;> cases j <;> simp_all

theorem get_put_self (s : Shelf α) (i : Nat) (a : α) : (s.put i a).get i = a := by
  simp only [get, put, getD_putAt, if_pos]

theorem get_put_of_ne (s : Shelf α) {i j : Nat} (h : i ≠ j) (a : α) :
    (s.put i a).get j = s.get j := by
  simp only [get, put, getD_putAt, if_neg h]

theorem get_put (s : Shelf α) (i j : Nat) (a : α) :
    (s.put i a).get j = if i = j then a else s.get j := by
  simp only [get, put, getD_putAt]

theorem length_putAt {as : List α} {i : Nat} (h : i < as.length) (a : α) :
    (putAt as i a).length = as.length := by
  fun_induction putAt as i a <;> simp_all

theorem length_le_putAt (as : List α) (i : Nat) (a : α) : as.length ≤ (putAt as i a).length := by
  fun_induction putAt as i a <;> simp_all

theorem size_le_put (s : Shelf α) (i : Nat) (a : α) : s.size ≤ (s.put i a).size :=
  length_le_putAt _ _ _

theorem size_put {s : Shelf α} {i : Nat} (h : i < s.size) (a : α) : (s.put i a).size = s.size :=
  length_putAt h a

omit [Inhabited α] in
theorem size_add (s : Shelf α) (a : α) : (s.add a).2.size = s.size + 1 := by
  simp [add, size]

theorem get_add_self (s : Shelf α) (a : α) : (s.add a).2.get s.size = a := by
  simp [add, size, get]

theorem get_add_of_lt (s : Shelf α) (a : α) {i : Nat} (h : i < s.size) :
    (s.add a).2.get i = s.get i := by
  simp only [add, get, List.getD_eq_getElem?_getD, List.getElem?_append_left h]

theorem get_modify_self (s : Shelf α) (i : Nat) (f : α → α) :
    (s.modify i f).get i = f (s.get i) := get_put_self s i _

theorem get_modify_of_ne (s : Shelf α) {i j : Nat} (h : i ≠ j) (f : α → α) :
    (s.modify i f).get j = s.get j := get_put_of_ne s h _

end Shelf
end LedSketch
