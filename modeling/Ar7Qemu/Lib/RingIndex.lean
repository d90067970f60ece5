import Mathlib.Data.BitVec
import Mathlib.Data.Nat.ModEq
import Mathlib.Tactic.Common

/-! Rings with free-running indices: the entry that a list has at place `j` is in slot `j`
modulo the size of the ring, as long as no more than that many entries are in use. -/

namespace Ar7Qemu.Lib.RingIndex

variable {α : Type*} {ring : ℕ → α} {n : ℕ} {l : List α} {lo : ℕ}

/-- The ring has the entries of a list from one place on. -/
def Holds (ring : ℕ → α) (n : ℕ) (l : List α) (lo : ℕ) : Prop :=
  ∀ j x, lo ≤ j → l[j]? = some x → ring (j % n) = x

theorem mod_ne_mod {a b : ℕ} (hlt : a < b) (hb : b < a + n) : a % n ≠ b % n := by
  intro h
  obtain ⟨c, hc⟩ := (Nat.modEq_iff_dvd' hlt.le).1 h
  have hpos : 0 < c := by
    rcases Nat.eq_zero_or_pos c with rfl | hpos
    · omega
    · exact hpos
  have := Nat.le_mul_of_pos_right n hpos
  omega

theorem holds_nil (ring : ℕ → α) (n lo : ℕ) : Holds ring n [] lo := by
  intro j x _ h
  simp at h

/-- Entries at higher places only. -/
theorem Holds.mono (h : Holds ring n l lo) {hi : ℕ} (hle : lo ≤ hi) : Holds ring n l hi :=
  fun j x hj => h j x (hle.trans hj)

/-- A store to a slot behind the list, within the size of the ring. -/
theorem Holds.update (h : Holds ring n l lo) {i : ℕ} (hi : l.length ≤ i) (hn : i < lo + n) (x : α) :
    Holds (Function.update ring (i % n) x) n l lo := by
  intro j y hj hy
  have hlt : j < l.length := (List.getElem?_eq_some_iff.1 hy).1
  rw [Function.update_of_ne (mod_ne_mod (by omega) (by omega))]
  exact h j y hj hy

/-- A slot behind the list that has its next entry. -/
theorem Holds.snoc (h : Holds ring n l lo) {x : α} (hx : ring (l.length % n) = x) : Holds ring n (l ++ [x]) lo := by
  intro j y hj hy
  by_cases hlt : j < l.length
  · rw [List.getElem?_append_left hlt] at hy
    exact h j y hj hy
  · have hj' : j = l.length := by
      have := (List.getElem?_eq_some_iff.1 hy).1
      rw [List.length_append, List.length_singleton] at this
      omega
    subst hj'
    rw [List.getElem?_concat_length] at hy
    exact hx.trans (Option.some.inj hy)

/-- Slots behind the list that have its next entries. -/
theorem Holds.append (h : Holds ring n l lo) : ∀ {xs : List α},
    (∀ i x, xs[i]? = some x → ring ((l.length + i) % n) = x) → Holds ring n (l ++ xs) lo := by
  intro xs hxs j y hj hy
  by_cases hlt : j < l.length
  · rw [List.getElem?_append_left hlt] at hy
    exact h j y hj hy
  · rw [List.getElem?_append_right (by omega)] at hy
    have := hxs _ y hy
    rwa [Nat.add_sub_cancel' (by omega)] at this

theorem Holds.push (h : Holds ring n l lo) (hn : l.length < lo + n) (x : α) :
    Holds (Function.update ring (l.length % n) x) n (l ++ [x]) lo :=
  (h.update le_rfl hn x).snoc (Function.update_self ..)

/-- Reading the ring gives the list back. -/
theorem Holds.read (h : Holds ring n l lo) :
    (List.range (l.length - lo)).map (fun i => ring ((lo + i) % n)) = l.drop lo := by
  refine List.ext_getElem? fun i => ?_
  rw [List.getElem?_map, List.getElem?_drop]
  by_cases hi : i < l.length - lo
  · rw [List.getElem?_range hi, Option.map_some]
    obtain ⟨x, hx⟩ : ∃ x, l[lo + i]? = some x := ⟨_, List.getElem?_eq_getElem (by omega)⟩
    rw [hx, h (lo + i) x (by omega) hx]
  · rw [List.getElem?_eq_none (by simpa using hi), List.getElem?_eq_none (by omega)]
    rfl

/-! ### Indices of 16 bits -/

/-- The slot of an index that has wrapped. -/
theorem toNat_ofNat_mod {k : ℕ} (hk : k ≤ 16) (c i : ℕ) :
    (i + (BitVec.ofNat 16 c).toNat) % 2 ^ k = (c + i) % 2 ^ k := by
  have hdvd : 2 ^ k ∣ 2 ^ 16 := pow_dvd_pow 2 hk
  rw [BitVec.toNat_ofNat, Nat.add_mod, Nat.mod_mod_of_dvd c hdvd, ← Nat.add_mod, Nat.add_comm]

theorem toNat_sub_ofNat {a b : ℕ} (hle : b ≤ a) (hlt : a < b + 2 ^ 16) :
    (BitVec.ofNat 16 a - BitVec.ofNat 16 b).toNat = a - b := by
  have h : BitVec.ofNat 16 a = BitVec.ofNat 16 b + BitVec.ofNat 16 (a - b) := by
    rw [← BitVec.ofNat_add, Nat.add_sub_cancel' hle]
  rw [h, BitVec.add_comm, BitVec.add_sub_cancel, BitVec.toNat_ofNat]
  omega

theorem ofNat_eq_iff {a b : ℕ} (hle : b ≤ a) (hlt : a < b + 2 ^ 16) :
    BitVec.ofNat 16 a = BitVec.ofNat 16 b ↔ a = b := by
  refine ⟨fun h => ?_, fun h => by rw [h]⟩
  have := toNat_sub_ofNat hle hlt
  rw [h, BitVec.sub_self, BitVec.toNat_zero] at this
  omega

end Ar7Qemu.Lib.RingIndex
