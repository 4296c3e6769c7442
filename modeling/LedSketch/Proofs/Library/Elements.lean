import LedSketch.Proofs.Running.Upholding

/-!
# Elements of lists

A key names a place of a list in two ways: a write drops the fraction of the key, and a read asks
that there is none. A write that succeeds changes the one place, fills the gap in front of it with
nulls, and leaves all else as it was; a write that fails changes nothing at all. What was written is
read back by every key without a fraction, and by no other key.

* `Members.WrittenAt`: what a list is like behind a write.
* `Members.storeAt_element`: a write by a key, and the read by the same key right behind it.
-/

namespace LedSketch

namespace Binary64

/-- A double without a fraction is its own integer part. -/
theorem Exact.truncate_of_toInt? {d : Exact} {n : Int} (h : d.toInt? = some n) :
    d.truncate = n := by
  unfold Exact.toInt? at h
  unfold Exact.truncate
  dsimp only at h ⊢
  split at h
  · injection h
  · cases h

end Binary64

namespace Store

variable {st : Store} {ref : ListRef}

theorem items_setItems (h : ref < st.lists.size) (items : List Value) :
    (st.setItems ref items).items ref = items := by
  simp [Store.items, setItems, h]

end Store

namespace Members

open Eval

variable {key v : Value} {m : Memory} {ref : ListRef} {i : Int}

/-- A place that is read by a key is the one that is written by it. -/
theorem truncate_of_position? (h : position? key = some i) : key.toNumber.truncate = .ok i := by
  unfold position? at h
  cases hn : key.toNumber with
  | int n =>
    rw [hn] at h
    exact congrArg _ (Option.some.inj h)
  | float x =>
    rw [hn] at h
    obtain ⟨d, hd, hi⟩ := Option.bind_eq_some_iff.mp h
    simp only [Number.truncate, hd, Binary64.Exact.truncate_of_toInt? hi]

/-- **Behind a write** of `v` at the place `i`, a list that was `old` is `new`. -/
structure WrittenAt (old new : List Value) (i : Nat) (v : Value) : Prop where
  length : new.length = max old.length (i + 1)
  here : new[i]? = some v
  kept : ∀ j < old.length, j ≠ i → new[j]? = old[j]?
  gap : ∀ j, old.length ≤ j → j < i → new[j]? = some .null

theorem writtenAt_written (items : List Value) (i : Nat) (v : Value) :
    WrittenAt items (written items i v) i v where
  length := length_written items i v
  here := getElem?_written_self items i v
  kept j hj hne := by
    rw [written, List.getElem?_set_ne (Ne.symm hne), List.getElem?_append_left hj]
  gap j hj hi := by
    rw [written, List.getElem?_set_ne (by omega), List.getElem?_append_right hj,
      List.getElem?_replicate, if_pos (by omega)]

/-- What a key reads from a list. -/
theorem runFrom_element (m : Memory) (ref : ListRef) (key : Value) :
    (element (.list ref) key).runFrom m =
      .done (.ok (((position? key).bind (elementAt (m.store.items ref))).getD .null), m) := rfl

/-- The memory behind a write. -/
def overwrite (m : Memory) (ref : ListRef) (items : List Value) : Memory :=
  { m with store := m.store.setItems ref items }

/-- A write at a place fails and changes nothing, or changes the one list. -/
theorem runFrom_writeAt (m : Memory) (ref : ListRef) (i : Nat) (v : Value) :
    (∃ e, (writeAt ref i v).runFrom m = .done (.error e, m)) ∨
    (writeAt ref i v).runFrom m =
      .done (.ok (), overwrite m ref (written (m.store.items ref) i v)) := by
  have run : (writeAt ref i v).runFrom m = Eval.runFrom (if gapLimit ≤ i + 1 -
      (m.store.items ref).length then throw (.mishap .gapTooLong)
      else setStore (m.store.setItems ref (written (m.store.items ref) i v))) m := rfl
  rw [run]
  split
  · exact .inl ⟨_, rfl⟩
  · exact .inr rfl

/-- A write by a key fails and changes nothing, or writes at the integer part of the key. -/
theorem runFrom_storeAt (m : Memory) (ref : ListRef) (key v : Value) :
    (∃ e, (storeAt ref key v).runFrom m = .done (.error e, m)) ∨
    ∃ i : Nat, key.toNumber.truncate = .ok (i : Int) ∧ (storeAt ref key v).runFrom m =
      .done (.ok (), overwrite m ref (written (m.store.items ref) i v)) := by
  cases hk : key.toNumber.truncate with
  | error e =>
    refine .inl ⟨.mishap e, ?_⟩
    rw [storeAt, runFrom_bind, hk]
    rfl
  | ok n =>
    have run : (storeAt ref key v).runFrom m = Eval.runFrom (if n < 0 then do
        let _ ← ofMishap (Number.intText n)
        complain (.badArrayIndex n)
        writeAt ref n.toNat v
      else writeAt ref n.toNat v) m := by
      rw [storeAt, runFrom_bind, hk]
      rfl
    rw [run]
    split
    · left
      cases Number.intText n <;> exact ⟨_, rfl⟩
    · next hn =>
      refine (runFrom_writeAt m ref n.toNat v).imp_right fun hrun => ⟨n.toNat, ?_, hrun⟩
      rw [Int.toNat_of_nonneg (by omega)]

/-- **A write by a key** either fails and changes nothing, or changes the one list as it should; and
right behind it the key reads what was written if it has no fraction, and null if it has one. -/
theorem storeAt_element (m : Memory) {ref : ListRef} (key v : Value)
    (h : ref < m.store.lists.size) :
    (∃ e, (storeAt ref key v).runFrom m = .done (.error e, m)) ∨
    ∃ (i : Nat) (new : List Value), key.toNumber.truncate = .ok (i : Int) ∧
      (storeAt ref key v).runFrom m = .done (.ok (), overwrite m ref new) ∧
      (overwrite m ref new).store.items ref = new ∧ WrittenAt (m.store.items ref) new i v ∧
      (element (.list ref) key).runFrom (overwrite m ref new) =
        .done (.ok (if (position? key).isSome then v else .null), overwrite m ref new) := by
  obtain hfail | ⟨i, hi, hrun⟩ := runFrom_storeAt m ref key v
  · exact .inl hfail
  have items : (overwrite m ref (written (m.store.items ref) i v)).store.items ref =
      written (m.store.items ref) i v := Store.items_setItems h _
  have there := writtenAt_written (m.store.items ref) i v
  refine .inr ⟨i, _, hi, hrun, items, there, ?_⟩
  rw [runFrom_element, items]
  cases hp : position? key with
  | none => rfl
  | some n =>
    obtain rfl : n = i := by
      have := truncate_of_position? hp
      rw [hi] at this
      exact (Except.ok.inj this).symm
    simp [elementAt, there.here]

/-- A memory with a list of one number. -/
def single : Memory := { store := { lists := #[[.int 7]] } }

theorem storeAt_element_gap : 0 < single.store.lists.size ∧
    ∃ new, (storeAt 0 (.int 3) (.int 9)).runFrom single = .done (.ok (), overwrite single 0 new) ∧
      WrittenAt [.int 7] new 3 (.int 9) ∧
      (element (.list 0) (.int 3)).runFrom (overwrite single 0 new) =
        .done (.ok (.int 9), overwrite single 0 new) := by
  have hsize : 0 < single.store.lists.size := by decide
  obtain ⟨e, he⟩ | ⟨i, new, hi, hrun, -, there, read⟩ :=
    storeAt_element single (.int 3) (.int 9) hsize
  · have : (storeAt 0 (.int 3) (.int 9)).runFrom single =
        .done (.ok (), overwrite single 0 [.int 7, .null, .null, .int 9]) := rfl
    rw [this] at he
    cases he
  · obtain rfl : i = 3 := by
      injection hi with hi
      omega
    exact ⟨hsize, new, hrun, there, read⟩

end Members
end LedSketch
