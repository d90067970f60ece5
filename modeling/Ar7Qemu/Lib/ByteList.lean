import Ar7Qemu.Lib.ByteStore
import Mathlib.Logic.Function.Basic

/-! The first bytes of a store as a list, and what copying and setting bytes does to it. -/

namespace Ar7Qemu.Lib.Bytes

/-- The first `n` bytes. -/
def taken (b : Bytes) (n : ℕ) : List UInt8 := (List.range n).map b

@[simp] theorem length_taken (b : Bytes) (n : ℕ) : (taken b n).length = n := by
  rw [taken, List.length_map, List.length_range]

theorem taken_succ (b : Bytes) (n : ℕ) : taken b (n + 1) = taken b n ++ [b n] := by
  rw [taken, List.range_succ, List.map_append]
  rfl

theorem taken_congr {b c : Bytes} {n : ℕ} (h : ∀ i < n, b i = c i) : taken b n = taken c n :=
  List.map_congr_left fun i hi => h i (List.mem_range.1 hi)

/-- A byte that is set behind the first bytes leaves them. -/
theorem taken_update (b : Bytes) {n k : ℕ} (h : n ≤ k) (v : UInt8) : taken (Function.update b k v) n = taken b n :=
  taken_congr fun _ hi => Function.update_of_ne (by omega) v b

theorem taken_update_succ (b : Bytes) (n : ℕ) (v : UInt8) : taken (Function.update b n v) (n + 1) = taken b n ++ [v] := by
  rw [taken_succ, taken_update b (Nat.le_refl n), Function.update_self]

/-- What is copied behind the first bytes stands behind them. -/
theorem taken_write {b : Bytes} {got src : List UInt8} (h : taken b got.length = got) :
    taken (b.write got.length src.length fun i => src.getD i 0) (got.length + src.length) = got ++ src := by
  apply List.ext_getElem
  · rw [length_taken, List.length_append]
  · intro i hi _
    rw [length_taken] at hi
    simp only [taken, List.getElem_map, List.getElem_range]
    rcases Nat.lt_or_ge i got.length with hlt | hge
    · rw [write_apply_of_lt hlt, List.getElem_append_left hlt]
      conv_rhs => rw [List.getElem_of_eq h.symm hlt]
      simp [taken]
    · obtain ⟨k, rfl⟩ := Nat.exists_eq_add_of_le hge
      have hk : k < src.length := by omega
      rw [write_apply_of_mem hk, List.getElem_append_right hge]
      simp [hk]

end Ar7Qemu.Lib.Bytes
