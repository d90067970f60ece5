import Ar7Qemu.Lib.RingIndex
import Mathlib.Algebra.Order.Ring.Nat
import Mathlib.Data.List.Range
import Mathlib.Logic.Function.Basic

/-! A queue in a ring of `n` slots, with the slot of the next element to take, the slot of the next
one to put and their number. Neither operation looks at whether the ring is full. -/

namespace Ar7Qemu.Lib

structure RingFifo (α : Type*) where
  data : ℕ → α
  head : ℕ
  tail : ℕ
  count : ℕ

namespace RingFifo

variable {α : Type*} (n : ℕ)

/-- The slot after `i`. -/
def next (i : ℕ) : ℕ := if i + 1 = n then 0 else i + 1

def put (f : RingFifo α) (x : α) : RingFifo α :=
  { f with data := Function.update f.data f.head x, head := next n f.head, count := f.count + 1 }

def drop (f : RingFifo α) : RingFifo α := { f with tail := next n f.tail, count := f.count - 1 }

/-- The elements in the order in which they are taken. -/
def contents (f : RingFifo α) : List α := (List.range f.count).map fun i => f.data ((f.tail + i) % n)

/-- The next slot to fill is the one behind the last element. -/
structure Valid (f : RingFifo α) : Prop where
  tail_lt : f.tail < n
  count_le : f.count ≤ n
  head_eq : f.head = (f.tail + f.count) % n

variable {n} {f : RingFifo α}

@[simp] theorem length_contents : (f.contents n).length = f.count := by
  simp [contents]

theorem contents_eq_nil : f.contents n = [] ↔ f.count = 0 := by
  rw [← List.length_eq_zero_iff, length_contents]

theorem next_mod {i : ℕ} (hn : 0 < n) : next n (i % n) = (i + 1) % n := by
  have hlt := Nat.mod_lt i hn
  unfold next
  rw [← Nat.mod_add_mod]
  by_cases h : i % n + 1 = n
  · rw [if_pos h, h, Nat.mod_self]
  · rw [if_neg h]
    exact (Nat.mod_eq_of_lt (by omega)).symm

theorem Valid.put (h : f.Valid n) (hcount : f.count < n) (x : α) : (f.put n x).Valid n := by
  refine ⟨h.tail_lt, hcount, ?_⟩
  show next n f.head = (f.tail + (f.count + 1)) % n
  rw [h.head_eq, next_mod (by omega), Nat.add_assoc]

theorem Valid.drop (h : f.Valid n) (hcount : f.count ≠ 0) : (f.drop n).Valid n := by
  have hlt := h.tail_lt
  have hle := h.count_le
  have htail : next n f.tail = (f.tail + 1) % n := by
    rw [← next_mod (by omega), Nat.mod_eq_of_lt hlt]
  refine ⟨?_, by show f.count - 1 ≤ n; omega, ?_⟩
  · show next n f.tail < n
    rw [htail]
    exact Nat.mod_lt _ (by omega)
  · show f.head = (next n f.tail + (f.count - 1)) % n
    rw [h.head_eq, htail, Nat.mod_add_mod]
    congr 1
    omega

/-- A ring that is not full takes an element behind the others. -/
theorem contents_put (h : f.Valid n) (hcount : f.count < n) (x : α) :
    (f.put n x).contents n = f.contents n ++ [x] := by
  unfold contents RingFifo.put
  dsimp only
  rw [List.range_succ, List.map_append, List.map_singleton, ← h.head_eq, Function.update_self]
  congr 1
  apply List.map_congr_left
  intro i hi
  have hlt := List.mem_range.1 hi
  apply Function.update_of_ne
  rw [h.head_eq]
  intro heq
  exact RingIndex.mod_ne_mod (by omega) (by omega) heq

/-- The first element and the others. -/
theorem contents_drop (h : f.Valid n) (hcount : f.count ≠ 0) :
    f.contents n = f.data f.tail :: (f.drop n).contents n := by
  obtain ⟨k, hk⟩ := Nat.exists_eq_succ_of_ne_zero hcount
  have hlt := h.tail_lt
  unfold contents RingFifo.drop
  dsimp only
  rw [hk, List.range_succ_eq_map, List.map_cons, List.map_map, Nat.add_zero, Nat.mod_eq_of_lt hlt]
  congr 1
  apply List.map_congr_left
  intro i _
  have htail : next n f.tail = (f.tail + 1) % n := by
    rw [← next_mod (by omega), Nat.mod_eq_of_lt hlt]
  show f.data ((f.tail + (i + 1)) % n) = f.data ((next n f.tail + i) % n)
  rw [htail, Nat.mod_add_mod, Nat.add_assoc, Nat.add_comm 1 i]

end RingFifo

end Ar7Qemu.Lib
