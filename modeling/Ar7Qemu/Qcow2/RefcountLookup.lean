import Ar7Qemu.Qcow2.Reliable
import Ar7Qemu.Qcow2.Refcount

/-! Refcount lookups on a reliable file. When the one-block cache agrees with the
block it claims to hold, `get_refcount` returns the count stored on disk and
changes nothing but the cache. -/

namespace Ar7Qemu.Qcow2

open Lib Block

namespace BDRVQcowState

/-- The count that the refcount blocks on disk give a cluster. -/
def diskRefcount (s : BDRVQcowState) (k : ℕ) : ℕ :=
  let block := s.refcountTable (k / s.refcountsPerBlock)
  if s.refcountTableSize ≤ k / s.refcountsPerBlock then 0
  else if block = 0 then 0
  else s.hd.data.word 2 (block + 2 * (k % s.refcountsPerBlock))

/-- The refcount block cache holds the block it is named after. -/
def RefcountCacheOk (s : BDRVQcowState) : Prop :=
  s.refcountBlockCacheOffset ≠ 0 → ∀ j < s.refcountsPerBlock,
    s.refcountBlockCache j = s.hd.data.word 2 (s.refcountBlockCacheOffset + 2 * j)

/-- The state with another cached refcount block and request counter. -/
def recached (s : BDRVQcowState) (c : ℕ → ℕ) (o t : ℕ) : BDRVQcowState :=
  { s with
    refcountBlockCache := c
    refcountBlockCacheOffset := o
    hd := { s.hd with tick := t } }

variable (s : BDRVQcowState) (c : ℕ → ℕ) (o t : ℕ)

theorem recached_self :
    s.recached s.refcountBlockCache s.refcountBlockCacheOffset s.hd.tick = s := rfl

end BDRVQcowState

variable {s : BDRVQcowState}

theorem loadRefcountBlock_ok (h : s.Reliable) (hb : s.clusterBits ≤ 30) (off : ℕ) :
    ∃ c t, loadRefcountBlock off s = (true, s.recached c off t) ∧
      ∀ j < s.refcountsPerBlock, c j = s.hd.data.word 2 (off + 2 * j) := by
  have hr : s.refcountsPerBlock ≤ 2 ^ 29 := Nat.pow_le_pow_right (by norm_num) (by omega)
  obtain ⟨t, ht⟩ := preadTable_ok h off (w := 2) (n := s.refcountsPerBlock)
    (by norm_num at hr ⊢; omega) s.refcountBlockCache
  refine ⟨(fun j => if j < s.refcountsPerBlock then s.hd.data.word 2 (off + 2 * j)
    else s.refcountBlockCache j), t, ?_, fun j hj => if_pos hj⟩
  simp [loadRefcountBlock, bind_apply, ht, BDRVQcowState.recached, BDRVQcowState.ticked]

/-- `get_refcount` returns the stored count. -/
theorem getRefcount_ok (h : s.Reliable) (hb : s.clusterBits ≤ 30) (hc : s.RefcountCacheOk) (k : ℕ) :
    ∃ c o t, getRefcount k s = (s.diskRefcount k, s.recached c o t) ∧
      (s.recached c o t).RefcountCacheOk ∧ (o = s.refcountBlockCacheOffset ∨
        ∃ i < s.refcountTableSize, s.refcountTable i = o) := by
  have hk : k % s.refcountsPerBlock < s.refcountsPerBlock := Nat.mod_lt _ (Nat.two_pow_pos _)
  by_cases h1 : s.refcountTableSize ≤ k / s.refcountsPerBlock
  · exact ⟨_, _, _, by simp [getRefcount, bind_apply, BDRVQcowState.diskRefcount, h1,
      s.recached_self], hc, .inl rfl⟩
  by_cases h2 : s.refcountTable (k / s.refcountsPerBlock) = 0
  · exact ⟨_, _, _, by simp [getRefcount, bind_apply, BDRVQcowState.diskRefcount, h1, h2,
      s.recached_self], hc, .inl rfl⟩
  by_cases h3 : s.refcountTable (k / s.refcountsPerBlock) = s.refcountBlockCacheOffset
  · refine ⟨_, _, _, ?_, hc, .inl rfl⟩
    have h0 : s.refcountBlockCacheOffset ≠ 0 := h3 ▸ h2
    simp [getRefcount, bind_apply, h1, h3, h0, BDRVQcowState.diskRefcount, s.recached_self,
      hc h0 _ hk]
  · obtain ⟨c, t, hl, hcache⟩ := loadRefcountBlock_ok h hb
      (s.refcountTable (k / s.refcountsPerBlock))
    refine ⟨c, _, t, ?_, fun _ => hcache, .inr ⟨_, Nat.not_le.mp h1, rfl⟩⟩
    simp [getRefcount, bind_apply, h1, h2, h3, hl, BDRVQcowState.diskRefcount,
      BDRVQcowState.recached, hcache _ hk]

end Ar7Qemu.Qcow2
