import Ar7Qemu.Virtio.Queue
import Mathlib.Algebra.BigOperators.Group.List.Basic

/-! The completion of an element. `virtqueue_fill` hands every buffer back and says how much of
it was written. The rest of the length is an unsigned difference, which is right as long as a
buffer begins inside the length; for a buffer that begins behind it the difference wraps. -/

namespace Ar7Qemu.Virtio

/-- A call of `cpu_physical_memory_unmap`. -/
structure Unmap where
  buffer : BitVec 64
  len : BitVec 32
  isWrite : Bool
  accessLen : BitVec 32
  deriving DecidableEq

def fillIn (len : BitVec 32) : BitVec 32 → List (BitVec 64 × BitVec 32) → List Unmap
  | _, [] => []
  | offset, (iovBase, iovLen) :: sg =>
    let size := if len - offset < iovLen then len - offset else iovLen
    ⟨iovBase, iovLen, true, size⟩ :: fillIn len (offset + iovLen) sg

/-- The unmaps of `virtqueue_fill`, in their order. -/
def fillUnmaps (elem : Element) (len : BitVec 32) : List Unmap :=
  fillIn len 0 elem.inSg ++ elem.outSg.map fun sg => ⟨sg.1, sg.2, false, sg.2⟩

/-! ### The split of a length -/

/-- A length split over buffers in their order: full buffers, then one in part, then nothing. -/
def split : ℕ → List ℕ → List ℕ
  | _, [] => []
  | n, l :: lens => min n l :: split (n - l) lens

theorem split_min (n : ℕ) (lens : List ℕ) : split (min n lens.sum) lens = split n lens := by
  induction lens generalizing n with
  | nil => rfl
  | cons l lens ih =>
    rw [split, split, List.sum_cons, ← ih (n - l)]
    congr 1
    · omega
    · congr 1
      omega

def lensOf (sg : List (BitVec 64 × BitVec 32)) : List ℕ := sg.map fun b => b.2.toNat

/-- No bytes behind the length: a buffer that begins behind it is empty, or begins a multiple of
`2 ^ 32` behind it. -/
def NoneBehind (n start : ℕ) (lens : List ℕ) : Prop :=
  ∀ k l, lens[k]? = some l → n < start + (lens.take k).sum → l = 0 ∨ (start + (lens.take k).sum) % 2 ^ 32 = n

theorem noneBehind_nil (n start : ℕ) : NoneBehind n start [] := by
  intro k l hl
  simp at hl

theorem noneBehind_cons (n start l : ℕ) (lens : List ℕ) :
    NoneBehind n start (l :: lens) ↔
      (n < start → l = 0 ∨ start % 2 ^ 32 = n) ∧ NoneBehind n (start + l) lens := by
  constructor
  · intro h
    refine ⟨fun hlt => ?_, fun k l' hl' hlt => ?_⟩
    · simpa using h 0 l rfl (by simpa using hlt)
    · have hk := h (k + 1) l' (by simpa using hl')
      rw [List.take_succ_cons, List.sum_cons, ← Nat.add_assoc] at hk
      exact hk hlt
  · rintro ⟨h₀, h⟩ k l' hl' hlt
    cases k with
    | zero =>
      have hll : l = l' := by simpa using hl'
      subst hll
      simpa using h₀ (by simpa using hlt)
    | succ k =>
      rw [List.take_succ_cons, List.sum_cons, ← Nat.add_assoc] at hlt ⊢
      exact h k l' (by simpa using hl') hlt

/-! ### What the loop reports -/

/-- The length that is reported for a buffer is what is left for it, exactly when it has no bytes
behind the length. -/
theorem size_eq_iff (len iovLen : BitVec 32) (start : ℕ) :
    (if len - BitVec.ofNat 32 start < iovLen then len - BitVec.ofNat 32 start else iovLen).toNat =
        min (len.toNat - start) iovLen.toNat ↔
      (len.toNat < start → iovLen.toNat = 0 ∨ start % 2 ^ 32 = len.toNat) := by
  have hlen := len.isLt
  have hiov := iovLen.isLt
  have hmin : (if len - BitVec.ofNat 32 start < iovLen then len - BitVec.ofNat 32 start else iovLen).toNat =
      min ((2 ^ 32 - start % 2 ^ 32 + len.toNat) % 2 ^ 32) iovLen.toNat := by
    have hsub : (len - BitVec.ofNat 32 start).toNat = (2 ^ 32 - start % 2 ^ 32 + len.toNat) % 2 ^ 32 := by
      rw [BitVec.toNat_sub, BitVec.toNat_ofNat]
    split_ifs with h
    · rw [BitVec.lt_def, hsub] at h
      omega
    · rw [BitVec.lt_def, hsub] at h
      omega
  rw [hmin]
  omega

theorem fillIn_iff (len : BitVec 32) (start : ℕ) (sg : List (BitVec 64 × BitVec 32)) :
    (fillIn len (BitVec.ofNat 32 start) sg).map (fun u => u.accessLen.toNat) = split (len.toNat - start) (lensOf sg) ↔
      NoneBehind len.toNat start (lensOf sg) := by
  induction sg generalizing start with
  | nil => exact iff_of_true rfl (noneBehind_nil _ _)
  | cons b sg ih =>
    obtain ⟨iovBase, iovLen⟩ := b
    have hnext : BitVec.ofNat 32 start + iovLen = BitVec.ofNat 32 (start + iovLen.toNat) := by
      rw [BitVec.ofNat_add, BitVec.ofNat_toNat, BitVec.setWidth_eq]
    have hrest := ih (start + iovLen.toNat)
    rw [← Nat.sub_sub] at hrest
    show _ ↔ NoneBehind len.toNat start (iovLen.toNat :: lensOf sg)
    rw [fillIn, hnext, noneBehind_cons, ← hrest, ← size_eq_iff]
    exact List.cons_eq_cons

theorem fillIn_buffers (len offset : BitVec 32) (sg : List (BitVec 64 × BitVec 32)) :
    (fillIn len offset sg).map (fun u => (u.buffer, u.len, u.isWrite)) = sg.map fun b => (b.1, b.2, true) := by
  induction sg generalizing offset with
  | nil => rfl
  | cons b sg ih => simp [fillIn, ih]

/-- An element is completed: each of its buffers is unmapped once, the in buffers with the split
of the length, and the used entry has the length. -/
structure Completes (vq : VirtQueue) (elem : Element) (len : BitVec 32) (idx : ℕ) : Prop where
  buffers : (fillUnmaps elem len).map (fun u => (u.buffer, u.len, u.isWrite)) =
    elem.inSg.map (fun b => (b.1, b.2, true)) ++ elem.outSg.map fun b => (b.1, b.2, false)
  written : ((fillUnmaps elem len).filter (·.isWrite)).map (fun u => u.accessLen.toNat) =
    split (min len.toNat (lensOf elem.inSg).sum) (lensOf elem.inSg)
  used : (virtqueueFill vq elem len idx).vring.usedRing ((idx + vq.vring.usedIdx.toNat) % vq.vring.num) =
    ⟨elem.index.setWidth 32, len⟩

theorem filter_fillUnmaps (elem : Element) (len : BitVec 32) :
    (fillUnmaps elem len).filter (·.isWrite) = fillIn len 0 elem.inSg := by
  have hin : ∀ (offset : BitVec 32) (sg : List (BitVec 64 × BitVec 32)),
      (fillIn len offset sg).filter (·.isWrite) = fillIn len offset sg := by
    intro offset sg
    induction sg generalizing offset with
    | nil => rfl
    | cons b sg ih => simp [fillIn, ih]
  have hout : (elem.outSg.map fun sg => (⟨sg.1, sg.2, false, sg.2⟩ : Unmap)).filter (·.isWrite) = [] := by
    rw [List.filter_map]
    simp
  rw [fillUnmaps, List.filter_append, hin, hout, List.append_nil]

/-- `virtqueue_fill` completes an element exactly when no bytes of its in buffers are behind the
length. -/
theorem virtqueue_fill_iff (vq : VirtQueue) (elem : Element) (len : BitVec 32) (idx : ℕ) :
    Completes vq elem len idx ↔ NoneBehind len.toNat 0 (lensOf elem.inSg) := by
  have hwritten : ((fillUnmaps elem len).filter (·.isWrite)).map (fun u => u.accessLen.toNat) =
      split (min len.toNat (lensOf elem.inSg).sum) (lensOf elem.inSg) ↔ NoneBehind len.toNat 0 (lensOf elem.inSg) := by
    rw [filter_fillUnmaps, split_min]
    exact fillIn_iff len 0 elem.inSg
  refine ⟨fun h => hwritten.1 h.written, fun h => ⟨?_, hwritten.2 h, ?_⟩⟩
  · rw [fillUnmaps, List.map_append, fillIn_buffers, List.map_map]
    rfl
  · simp [virtqueueFill]

/-- One byte in an element of three buffers of one byte: the third counts as full. -/
theorem fill_third_full : ¬ ∀ (vq : VirtQueue) (elem : Element) (len : BitVec 32) (idx : ℕ),
    Completes vq elem len idx := by
  intro h
  have hwritten := (h (newQueue 2 (fun _ => ⟨0, 0, 0, 0⟩) fun _ => ⟨0, 0⟩) ⟨0, [(0, 1), (1, 1), (2, 1)], []⟩ 1 0).written
  exact absurd hwritten (by decide)

end Ar7Qemu.Virtio
