import Ar7Qemu.Lib.Run
import Ar7Qemu.Lib.TableCache
import Ar7Qemu.Qcow2.RefcountFrame
import Ar7Qemu.Qcow2.Io

/-! The L2 cache over sequences of calls in which any request may fail. A call is
safe when no request fails after a slot in use was overwritten, and when what the
call writes beside its own table meets no cached table. Proved: in a run of safe
calls every slot in use holds the table on disk. A failed write of an L2 entry
leaves the slot ahead of the disk. -/

namespace Ar7Qemu.Qcow2

open Lib Block

namespace BDRVQcowState

variable (s s' : BDRVQcowState)

def l2 : TableCache := ⟨s.l2Cache, s.l2CacheOffsets⟩

/-- Byte `p` is in a cached table. -/
def InL2 (p : ℕ) : Prop := s.l2.InTables l2CacheSize s.l2Size p

/-- An interval of the file meets no cached table. -/
def OffL2 (off n : ℕ) : Prop := s.l2.OffTables l2CacheSize s.l2Size off n

/-- The cached tables of `s` are on disk in `s'` as they are in `s`. -/
def LeavesL2 : Prop := ∀ p, s.InL2 p → s'.hd.data p = s.hd.data p

/-- The L2 cache is coherent with the disk. -/
structure CacheOk : Prop where
  geometry : s.Geometry
  coherent : s.l2.Coherent l2CacheSize s.l2Size s.hd.data

/-- The L2 cache is the same, but for its counters. -/
structure SameL2 : Prop where
  bits : s'.clusterBits = s.clusterBits
  cache : s'.l2 = s.l2

instance : Std.Refl SameL2 := ⟨fun _ => ⟨rfl, rfl⟩⟩

instance : IsTrans BDRVQcowState SameL2 :=
  ⟨fun _ _ _ h h' => ⟨h'.bits.trans h.bits, h'.cache.trans h.cache⟩⟩

variable {s s'}

theorem RefOnly.sameL2 (h : s.RefOnly s') : s.SameL2 s' := by
  obtain ⟨r, rfl, -⟩ := h
  exact ⟨rfl, rfl⟩

theorem SameL2.l2Size (h : s.SameL2 s') : s'.l2Size = s.l2Size := by
  rw [BDRVQcowState.l2Size, BDRVQcowState.l2Size, l2Bits, l2Bits, h.bits]

theorem SameL2.geometry (h : s.SameL2 s') (hg : s.Geometry) : s'.Geometry :=
  ⟨h.bits ▸ hg.lo, h.bits ▸ hg.hi⟩

theorem CacheOk.l2CacheOk (h : s.CacheOk) : s.L2CacheOk := h.coherent.holds

theorem cacheOk_of_empty (hg : s.Geometry) (h : ∀ i < l2CacheSize, s.l2CacheOffsets i = 0) :
    s.CacheOk := ⟨hg, TableCache.coherent_of_empty _ h⟩

theorem tableBytes_pos (s : BDRVQcowState) : 0 < 8 * s.l2Size := by
  have := s.l2Size_pos
  omega

section

variable (h : s.CacheOk)

include h

theorem CacheOk.leaves (hsame : s.SameL2 s') (hd : s.LeavesL2 s') : s'.CacheOk := by
  refine ⟨hsame.geometry h.geometry, ?_⟩
  rw [hsame.cache, hsame.l2Size]
  exact h.coherent.of_leaves hd

theorem CacheOk.tableBytes_lt : 8 * s.l2Size < 2 ^ 31 := by
  have := h.geometry.l2Size_le
  omega

theorem CacheOk.aligned_iff (off : ℕ) : s.clusterSize ∣ off ↔ 8 * s.l2Size ∣ off := by
  rw [h.geometry.clusterSize_eq']

end

end BDRVQcowState

open BDRVQcowState (SameL2)

/-! ### Loading a table -/

namespace BDRVQcowState

/-- What keeps the cache coherent in `l2_load`: the offset is that of a table, and
a read into a slot in use succeeds. -/
structure LoadSafe (s : BDRVQcowState) (off : ℕ) : Prop where
  aligned : s.clusterSize ∣ off
  slot : (∃ i < l2CacheSize, s.l2CacheOffsets i = off) ∨ s.hd.io s.hd.tick = none ∨
    s.l2CacheOffsets (l2CacheNewEntry s) = 0

end BDRVQcowState

/-- What a call leaves that returns the slot of the table at `off`, if any. -/
structure TableIn (s : BDRVQcowState) (off : ℕ) (r : Option ℕ) (s' : BDRVQcowState) : Prop where
  ok : s'.CacheOk
  bits : s'.clusterBits = s.clusterBits
  slot : ∀ slot, r = some slot → slot < l2CacheSize ∧ s'.l2CacheOffsets slot = off

section Load

variable {s : BDRVQcowState} (h : s.CacheOk)

include h

/-- A loaded slot is tagged with the offset of its table. -/
theorem l2Load_coherent {off : ℕ} (hsafe : s.LoadSafe off) {r : Option ℕ} {s' : BDRVQcowState}
    (hrun : l2Load off s = (r, s')) : TableIn s off r s' := by
  obtain ⟨haligned, hslot⟩ := hsafe
  rw [h.aligned_iff] at haligned
  rw [l2Load, bind_apply] at hrun
  obtain ⟨hseek, hmiss⟩ | ⟨slot, n, hlt, hoff, hseek⟩ := seekL2Table_cases s off
  · obtain ⟨b, hb, hdata⟩ := preadTable_request s off s.tableBytes_pos h.tableBytes_lt
      (s.l2Cache (l2CacheNewEntry s))
    simp only [hseek, bind_apply, get_apply, hb, modify_apply] at hrun
    cases hio : s.hd.io s.hd.tick with
    | none =>
      rw [hio] at hdata hrun
      simp only [Option.isNone_none, Bool.not_true, Bool.false_eq_true, if_false, bind_apply,
        modify_apply, pure_apply] at hrun
      obtain ⟨rfl, rfl⟩ := Prod.mk.inj hrun
      refine ⟨⟨⟨h.geometry.lo, h.geometry.hi⟩, ?_⟩, rfl, fun slot hs => ?_⟩
      · exact h.coherent.install haligned (fun i hi _ _ => hmiss i hi) (hdata rfl)
      · cases hs
        exact ⟨l2CacheNewEntry_lt s, Function.update_self ..⟩
    | some m =>
      rw [hio] at hrun
      simp only [Option.isNone_some, Bool.not_false, if_true, pure_apply] at hrun
      obtain ⟨rfl, rfl⟩ := Prod.mk.inj hrun
      refine ⟨⟨⟨h.geometry.lo, h.geometry.hi⟩, ?_⟩, rfl, fun slot hs => by cases hs⟩
      obtain ⟨i, hi, heq⟩ | hnone | hunused := hslot
      · exact absurd heq (hmiss i hi)
      · rw [hio] at hnone
        cases hnone
      · exact h.coherent.fill_unused hunused _
  · rw [hseek] at hrun
    obtain ⟨rfl, rfl⟩ := Prod.mk.inj hrun
    refine ⟨⟨⟨h.geometry.lo, h.geometry.hi⟩, h.coherent⟩, rfl, fun slot' hs => ?_⟩
    cases hs
    exact ⟨hlt, hoff⟩

end Load

/-! ### Allocating a table -/

namespace BDRVQcowState

/-- The requests of `l2_allocate` behind the allocation: the L1 entry is not
written, the slot was not in use, or the rest succeeds. -/
def AllocateRequests (s : BDRVQcowState) (oldL2Offset : ℕ) : Prop :=
  s.hd.io s.hd.tick ≠ none ∨ s.l2CacheOffsets (l2CacheNewEntry s) = 0 ∨
    s.hd.io (s.hd.tick + 1) = none ∧ (oldL2Offset = 0 ∨ s.hd.io (s.hd.tick + 2) = none)

/-- What keeps the cache coherent in `l2_allocate`: the allocation and the L1 entry
leave the cached tables alone, the new cluster is none of them, and the requests
do not fail behind the change of a slot in use. -/
structure AllocateSafe (s : BDRVQcowState) (l1Index : ℕ) : Prop where
  leaves : s.LeavesL2 (allocClusters (s.l2Size * 8) s).2
  fresh : ∀ i < l2CacheSize, s.l2CacheOffsets i ≠ 0 →
    s.l2CacheOffsets i ≠ (allocClusters (s.l2Size * 8) s).1
  fits : (allocClusters (s.l2Size * 8) s).1 < 2 ^ 63
  entry : s.OffL2 (s.l1TableOffset + l1Index * 8) 8
  requests : (allocClusters (s.l2Size * 8) s).2.AllocateRequests (s.l1Table l1Index)

end BDRVQcowState

theorem clearCopied_setCopied {e : ℕ} (he : e < 2 ^ 63) : clearCopied (setCopied e) = e := by
  rw [clearCopied, setCopied, Nat.add_mod_right, Nat.mod_mod, Nat.mod_eq_of_lt he]

section Allocate

variable {s : BDRVQcowState} (h : s.CacheOk)

include h

/-- The end of `l2_allocate`: table `t` is in slot `v` and goes to the new cluster. -/
theorem installTable_coherent {v off n : ℕ} {t : ℕ → ℕ} (hn : n = s.l2Size) (hv : v < l2CacheSize)
    (hoff : 8 * s.l2Size ∣ off)
    (hnew : ∀ i < l2CacheSize, s.l2CacheOffsets i ≠ 0 → s.l2CacheOffsets i ≠ off)
    (ht : ∀ j < s.l2Size, t j < 256 ^ 8)
    (hreq : s.l2CacheOffsets v = 0 ∨ s.hd.io s.hd.tick = none) {s' : BDRVQcowState}
    {r : Option ℕ}
    (hrun : (do
        if !(← pwriteTable 8 off n ((← get).l2Cache v)) then return none
        modify fun s => { s with
          l2CacheOffsets := Function.update s.l2CacheOffsets v off
          l2CacheCounts := Function.update s.l2CacheCounts v 1 }
        return some v : Qcow (Option ℕ))
      { s with l2Cache := Function.update s.l2Cache v t } = (r, s')) :
    TableIn s off r s' ∧ s'.l1Table = s.l1Table := by
  subst hn
  obtain ⟨d, l, hw, hdata, hframe⟩ := pwrite_request
    { s with l2Cache := Function.update s.l2Cache v t } off s.tableBytes_pos h.tableBytes_lt
    (Bytes.table 8 t)
  simp only [bind_apply, get_apply, Function.update_self, pwriteTable, hw] at hrun
  dsimp only at hdata hframe hrun
  cases hio : s.hd.io s.hd.tick with
  | none =>
    rw [hio] at hdata hrun
    simp only [Option.isNone_none, Bool.not_true, Bool.false_eq_true, if_false, bind_apply,
      modify_apply, pure_apply] at hrun
    obtain ⟨rfl, rfl⟩ := Prod.mk.inj hrun
    refine ⟨⟨⟨⟨h.geometry.lo, h.geometry.hi⟩, ?_⟩, rfl, fun slot hs => ?_⟩, rfl⟩
    · rw [BDRVQcowState.stored, hdata rfl]
      exact h.coherent.store hoff hnew ht
    · cases hs
      exact ⟨hv, Function.update_self ..⟩
  | some m =>
    rw [hio] at hrun
    simp only [Option.isNone_some, Bool.not_false, if_true, pure_apply] at hrun
    obtain ⟨rfl, rfl⟩ := Prod.mk.inj hrun
    refine ⟨⟨⟨⟨h.geometry.lo, h.geometry.hi⟩, ?_⟩, rfl, fun slot hs => by cases hs⟩, rfl⟩
    have hunused := hreq.resolve_right (by rw [hio]; exact Option.some_ne_none m)
    exact (h.coherent.of_offTables (h.coherent.offTables hoff hnew) hframe).fill_unused hunused t

/-- An allocated slot is tagged with the offset that the L1 table now has. -/
theorem l2Allocate_coherent {l1Index : ℕ} (hsafe : s.AllocateSafe l1Index) {r : Option ℕ}
    {s' : BDRVQcowState} (hrun : l2Allocate l1Index s = (r, s')) :
    TableIn s (clearCopied (s'.l1Table l1Index)) r s' := by
  obtain ⟨hleaves, hfresh, hfits, hentry, hreq⟩ := hsafe
  have hoff : 8 * s.l2Size ∣ (allocClusters (s.l2Size * 8) s).1 :=
    (h.aligned_iff _).mp (clusterSize_dvd_allocClusters s _)
  have hsame := (keeps_allocClusters (s.l2Size * 8) s).sameL2
  have hsize := hsame.l2Size
  have hok := h.leaves hsame hleaves
  rw [l2Allocate, bind_apply, get_apply] at hrun
  dsimp only at hrun
  rw [bind_apply] at hrun
  rcases hr : allocClusters (s.l2Size * 8) s with ⟨off, s₁⟩
  rw [hr] at hoff hsame hok hfresh hfits hreq hsize hrun
  dsimp only at hoff hsame hok hfresh hfits hreq hsize hrun
  have hnew : ∀ i < l2CacheSize, s₁.l2CacheOffsets i ≠ 0 → s₁.l2CacheOffsets i ≠ off := by
    rw [show s₁.l2CacheOffsets = s.l2CacheOffsets from congrArg TableCache.tag hsame.cache]
    exact hfresh
  rw [bind_apply, modify_apply] at hrun
  dsimp only at hrun
  rw [bind_apply] at hrun
  obtain ⟨d, l, hw, -, hframe⟩ := pwrite_request
    { s₁ with l1Table := Function.update s₁.l1Table l1Index (setCopied off) }
    (s.l1TableOffset + l1Index * 8) (n := 8) (by decide) (by decide)
    (Bytes.beByte 8 (setCopied off))
  rw [hw] at hrun
  dsimp only at hframe hrun
  have hentry' : s₁.OffL2 (s.l1TableOffset + l1Index * 8) 8 := by
    rw [BDRVQcowState.OffL2, hsame.cache, hsize]
    exact hentry
  -- the state behind the write of the L1 entry
  generalize hs₂ : BDRVQcowState.stored _ d l _ = s₂ at hrun
  have hok₂ : s₂.CacheOk := by
    rw [← hs₂]
    exact ⟨⟨hok.geometry.lo, hok.geometry.hi⟩, hok.coherent.of_offTables hentry' hframe⟩
  have hl1 : clearCopied (s₂.l1Table l1Index) = off := by
    rw [← hs₂]
    exact (congrArg clearCopied (Function.update_self ..)).trans (clearCopied_setCopied hfits)
  have hnew₂ : ∀ i < l2CacheSize, s₂.l2CacheOffsets i ≠ 0 → s₂.l2CacheOffsets i ≠ off := by
    rw [← hs₂]
    exact hnew
  have hbits₂ : s₂.clusterBits = s.clusterBits := by
    rw [← hsame.bits, ← hs₂]
    rfl
  have hsize₂ : s₂.l2Size = s.l2Size := by
    rw [← hsize, ← hs₂]
    rfl
  have hoff₂ : 8 * s₂.l2Size ∣ off := by
    rw [hsize₂]
    exact hoff
  cases hio : s₁.hd.io s₁.hd.tick with
  | some m =>
    rw [hio] at hrun
    simp only [Option.isNone_some, Bool.not_false, if_true, pure_apply] at hrun
    obtain ⟨rfl, rfl⟩ := Prod.mk.inj hrun
    exact ⟨hok₂, hbits₂, fun slot hs => by cases hs⟩
  | none =>
    rw [hio] at hrun
    simp only [Option.isNone_none, Bool.not_true, Bool.false_eq_true, if_false] at hrun
    have hreq₂ : s₂.l2CacheOffsets (l2CacheNewEntry s₂) = 0 ∨ s₂.hd.io s₂.hd.tick = none ∧
        (s.l1Table l1Index = 0 ∨ s₂.hd.io (s₂.hd.tick + 1) = none) := by
      rw [← hs₂]
      exact hreq.resolve_left (not_not_intro hio)
    rw [bind_apply, get_apply] at hrun
    dsimp only at hrun
    by_cases hold : s.l1Table l1Index = 0
    · rw [if_pos hold, bind_apply, modify_apply] at hrun
      obtain ⟨hk, hl⟩ := installTable_coherent hok₂ hsize₂.symm (l2CacheNewEntry_lt s₂) hoff₂
        hnew₂ (fun _ _ => by decide) (hreq₂.imp_right And.left) hrun
      rw [hl, hl1]
      exact ⟨hk.ok, hk.bits.trans hbits₂, hk.slot⟩
    · obtain ⟨b, hb, hdata⟩ := preadTable_request s₂ (s.l1Table l1Index) s₂.tableBytes_pos
        hok₂.tableBytes_lt (s₂.l2Cache (l2CacheNewEntry s₂))
      rw [hsize₂] at hb
      rw [if_neg hold, bind_apply, get_apply] at hrun
      dsimp only at hrun
      rw [bind_apply, hb] at hrun
      dsimp only at hrun
      rw [bind_apply, modify_apply] at hrun
      dsimp only at hrun
      cases hio₂ : s₂.hd.io s₂.hd.tick with
      | some m =>
        rw [hio₂] at hrun
        simp only [Option.isNone_some, Bool.not_false, if_true, pure_apply] at hrun
        obtain ⟨rfl, rfl⟩ := Prod.mk.inj hrun
        have hunused : s₂.l2CacheOffsets (l2CacheNewEntry s₂) = 0 := by
          refine hreq₂.resolve_right fun hn => ?_
          rw [hio₂] at hn
          exact Option.some_ne_none m hn.1
        exact ⟨⟨⟨hok₂.geometry.lo, hok₂.geometry.hi⟩, hok₂.coherent.fill_unused hunused b⟩, hbits₂,
          fun slot hs => by cases hs⟩
      | none =>
        rw [hio₂] at hrun hdata
        simp only [Option.isNone_none, Bool.not_true, Bool.false_eq_true, if_false] at hrun
        have hok₃ : (s₂.ticked (s₂.hd.tick + 1)).CacheOk :=
          ⟨⟨hok₂.geometry.lo, hok₂.geometry.hi⟩, hok₂.coherent⟩
        have hword : ∀ j < s₂.l2Size, b j < 256 ^ 8 := by
          intro j hj
          rw [hdata rfl j hj]
          exact Bytes.word_lt _ _ _
        obtain ⟨hk, hl⟩ := installTable_coherent hok₃ hsize₂.symm (l2CacheNewEntry_lt s₂) hoff₂
          hnew₂ hword (hreq₂.imp_right fun hn => hn.2.resolve_left hold) hrun
        rw [hl]
        exact ⟨hk.ok, hk.bits.trans hbits₂,
          fun slot hslot => (hk.slot slot hslot).imp_right (·.trans hl1.symm)⟩

end Allocate

/-! ### The table of a guest offset -/

theorem sameL2_pwrite (off n : ℕ) (d : Bytes) : Keeps SameL2 (pwrite off n d) :=
  (keeps_pwrite off n d).mono fun _ _ => BDRVQcowState.RefOnly.sameL2

theorem sameL2_allocClusters (size : ℕ) : Keeps SameL2 (allocClusters size) :=
  (keeps_allocClusters size).mono fun _ _ => BDRVQcowState.RefOnly.sameL2

theorem sameL2_freeClusters (off size : ℕ) : Keeps SameL2 (freeClusters off size) :=
  (keeps_freeClusters off size).mono fun _ _ => BDRVQcowState.RefOnly.sameL2

theorem sameL2_growL1Table (minSize : ℕ) : Keeps SameL2 (growL1Table minSize) := by
  have hfreed : Keeps SameL2 (do
      modify fun s => { s with l1Freed := true }
      return -eio : Qcow ℤ) :=
    (keeps_modify fun _ => ⟨rfl, rfl⟩).bind fun _ => keeps_pure _
  refine keeps_get.bind fun s => Keeps.ite (keeps_pure _) ?_
  refine (sameL2_allocClusters _).bind fun off => ?_
  refine (sameL2_pwrite _ _ _).bind fun ok => Keeps.ite hfreed ?_
  refine (sameL2_pwrite _ _ _).bind fun ok => Keeps.ite hfreed ?_
  refine keeps_get.bind fun old => (sameL2_freeClusters _ _).bind fun _ => ?_
  exact (keeps_modify fun _ => ⟨rfl, rfl⟩).bind fun _ => keeps_pure _

namespace BDRVQcowState

/-- The cached tables are none of the refcount blocks. -/
def BlocksApart (s : BDRVQcowState) : Prop := ∀ p, s.InL2 p → s.OutsideBlocks p

theorem BlocksApart.leaves {s s' : BDRVQcowState} (h : s.BlocksApart) (hb : s.BlocksOnly s') :
    s.LeavesL2 s' := fun p hp => hb.data p (h p hp)

/-- The L1 table is grown for a guest offset behind its end. -/
def grownFor (s : BDRVQcowState) (offset : ℕ) : ℤ × BDRVQcowState :=
  if s.l1Size ≤ l1IndexOf s offset then growL1Table (l1IndexOf s offset + 1).toNat s else (0, s)

/-- The old table of an L1 entry that is not exclusive is given up. -/
def tableFreed (s : BDRVQcowState) (l2Offset : ℕ) : BDRVQcowState :=
  if l2Offset ≠ 0 then (freeClusters l2Offset (s.l2Size * 8) s).2 else s

/-- What keeps the cache coherent in `get_cluster_table`. -/
structure TableSafe (s : BDRVQcowState) (offset : ℕ) : Prop where
  grow : s.LeavesL2 (s.grownFor offset).2
  load : 0 ≤ (s.grownFor offset).1 →
    isCopied ((s.grownFor offset).2.l1Table (l1IndexOf s offset).toNat) = true →
    (s.grownFor offset).2.LoadSafe
      (clearCopied ((s.grownFor offset).2.l1Table (l1IndexOf s offset).toNat))
  free : (s.grownFor offset).2.BlocksApart
  allocate : 0 ≤ (s.grownFor offset).1 →
    isCopied ((s.grownFor offset).2.l1Table (l1IndexOf s offset).toNat) = false →
    ((s.grownFor offset).2.tableFreed
      ((s.grownFor offset).2.l1Table (l1IndexOf s offset).toNat)).AllocateSafe
        (l1IndexOf s offset).toNat

end BDRVQcowState

/-- The part of `get_cluster_table` behind the growing of the L1 table. -/
def tableAt (l1Index l2Index bytes : ℕ) : Qcow (Option (ℕ × ℕ × ℕ)) := do
  let l2Offset := (← get).l1Table l1Index
  if isCopied l2Offset then
    match ← l2Load (clearCopied l2Offset) with
    | none => return none
    | some slot => return some (slot, clearCopied l2Offset, l2Index)
  else
    if l2Offset ≠ 0 then freeClusters l2Offset bytes
    match ← l2Allocate l1Index with
    | none => return none
    | some slot => return some (slot, clearCopied ((← get).l1Table l1Index), l2Index)

theorem getClusterTable_eq (s : BDRVQcowState) (offset : ℕ) :
    getClusterTable offset s =
      if (s.grownFor offset).1 < 0 then (none, (s.grownFor offset).2)
      else tableAt (l1IndexOf s offset).toNat (l2IndexOf s offset) (s.l2Size * 8)
        (s.grownFor offset).2 := by
  rw [getClusterTable, bind_apply, get_apply, BDRVQcowState.grownFor]
  dsimp only
  by_cases hgrow : s.l1Size ≤ l1IndexOf s offset
  · rw [if_pos hgrow, if_pos hgrow, bind_apply]
    by_cases hneg : (growL1Table (l1IndexOf s offset + 1).toNat s).1 < 0
    · rw [if_pos hneg, if_pos hneg]
      rfl
    · rw [if_neg hneg, if_neg hneg]
      rfl
  · rw [if_neg hgrow, if_neg hgrow]
    rfl

section Table

variable {s : BDRVQcowState} (h : s.CacheOk)

include h

theorem tableAt_coherent {l1Index l2Index bytes : ℕ} (hbytes : bytes = s.l2Size * 8)
    (hload : isCopied (s.l1Table l1Index) = true → s.LoadSafe (clearCopied (s.l1Table l1Index)))
    (hfree : s.BlocksApart)
    (hallocate : isCopied (s.l1Table l1Index) = false →
      (s.tableFreed (s.l1Table l1Index)).AllocateSafe l1Index)
    {r : Option (ℕ × ℕ × ℕ)} {s' : BDRVQcowState}
    (hrun : tableAt l1Index l2Index bytes s = (r, s')) :
    s'.CacheOk ∧ s'.clusterBits = s.clusterBits ∧ ∀ slot off i, r = some (slot, off, i) →
      slot < l2CacheSize ∧ s'.l2CacheOffsets slot = off ∧ i = l2Index := by
  subst hbytes
  rw [tableAt, bind_apply, get_apply] at hrun
  dsimp only at hrun
  cases hcopied : isCopied (s.l1Table l1Index) with
  | true =>
    rw [if_pos hcopied, bind_apply] at hrun
    rcases hl : l2Load (clearCopied (s.l1Table l1Index)) s with ⟨slot, s₂⟩
    have htable := l2Load_coherent h (hload hcopied) hl
    rw [hl] at hrun
    rcases slot with _ | slot
    · obtain ⟨rfl, rfl⟩ := Prod.mk.inj hrun
      exact ⟨htable.ok, htable.bits, fun _ _ _ hr => by cases hr⟩
    · obtain ⟨rfl, rfl⟩ := Prod.mk.inj hrun
      refine ⟨htable.ok, htable.bits, fun _ _ _ hr => ?_⟩
      cases hr
      obtain ⟨hlt, htag⟩ := htable.slot slot rfl
      exact ⟨hlt, htag, rfl⟩
  | false =>
    rw [if_neg (by rw [hcopied]; exact Bool.false_ne_true)] at hrun
    have hfreed : s.SameL2 (s.tableFreed (s.l1Table l1Index)) ∧
        s.LeavesL2 (s.tableFreed (s.l1Table l1Index)) := by
      rw [BDRVQcowState.tableFreed]
      split_ifs
      · exact ⟨sameL2_freeClusters _ _ s, hfree.leaves (blocksOnly_freeClusters _ _ s)⟩
      · exact ⟨Std.Refl.refl s, fun _ _ => rfl⟩
    replace hrun : (do
        match ← l2Allocate l1Index with
        | none => return none
        | some slot => return some (slot, clearCopied ((← get).l1Table l1Index), l2Index) :
          Qcow (Option (ℕ × ℕ × ℕ))) (s.tableFreed (s.l1Table l1Index)) = (r, s') := by
      rw [← hrun, BDRVQcowState.tableFreed]
      split_ifs
      · rfl
      · rfl
    have hok := h.leaves hfreed.1 hfreed.2
    rw [bind_apply] at hrun
    rcases hl : l2Allocate l1Index (s.tableFreed (s.l1Table l1Index)) with ⟨slot, s₂⟩
    have htable := l2Allocate_coherent hok (hallocate hcopied) hl
    rw [hl] at hrun
    rcases slot with _ | slot
    · obtain ⟨rfl, rfl⟩ := Prod.mk.inj hrun
      exact ⟨htable.ok, htable.bits.trans hfreed.1.bits, fun _ _ _ hr => by cases hr⟩
    · obtain ⟨rfl, rfl⟩ := Prod.mk.inj hrun
      refine ⟨htable.ok, htable.bits.trans hfreed.1.bits, fun _ _ _ hr => ?_⟩
      cases hr
      obtain ⟨hlt, htag⟩ := htable.slot slot rfl
      exact ⟨hlt, htag, rfl⟩

/-- The slot that is returned is tagged with the offset that is returned. -/
theorem getClusterTable_coherent {offset : ℕ} (hsafe : s.TableSafe offset)
    {r : Option (ℕ × ℕ × ℕ)} {s' : BDRVQcowState} (hrun : getClusterTable offset s = (r, s')) :
    s'.CacheOk ∧ s'.clusterBits = s.clusterBits ∧ ∀ slot off i, r = some (slot, off, i) →
      slot < l2CacheSize ∧ s'.l2CacheOffsets slot = off ∧ i = l2IndexOf s offset := by
  obtain ⟨hgrow, hload, hfree, hallocate⟩ := hsafe
  have hsame : s.SameL2 (s.grownFor offset).2 := by
    rw [BDRVQcowState.grownFor]
    split_ifs
    · exact sameL2_growL1Table _ s
    · exact Std.Refl.refl s
  have hok := h.leaves hsame hgrow
  rw [getClusterTable_eq] at hrun
  split_ifs at hrun with hneg
  · obtain ⟨rfl, rfl⟩ := Prod.mk.inj hrun
    exact ⟨hok, hsame.bits, fun _ _ _ hr => by cases hr⟩
  · obtain ⟨hk, hbits, hslot⟩ := tableAt_coherent hok (by rw [hsame.l2Size])
      (hload (Int.not_lt.mp hneg)) hfree (hallocate (Int.not_lt.mp hneg)) hrun
    exact ⟨hk, hbits.trans hsame.bits, hslot⟩

end Table

/-! ### Changing entries of a table -/

theorem sameL2_freeAnyClusters (e n : ℕ) : Keeps SameL2 (freeAnyClusters e n) :=
  keeps_get.bind fun _ => Keeps.ite (sameL2_freeClusters _ _) (sameL2_freeClusters _ _)

theorem blocksOnly_freeAnyClusters (e n : ℕ) :
    Keeps BDRVQcowState.BlocksOnly (freeAnyClusters e n) :=
  keeps_get.bind fun _ => Keeps.ite (blocksOnly_freeClusters _ _) (blocksOnly_freeClusters _ _)

theorem sameL2_updateClusterRefcount (c : ℕ) (k : ℤ) : Keeps SameL2 (updateClusterRefcount c k) :=
  (keeps_updateNested updateDepth c k).mono fun _ _ => BDRVQcowState.RefOnly.sameL2

theorem sameL2_allocBytesHere (size : ℕ) : Keeps SameL2 (allocBytesHere size) := by
  refine keeps_get.bind fun s => (keeps_modify fun _ => ⟨rfl, rfl⟩).bind fun _ => Keeps.ite ?_ ?_
  · exact (sameL2_updateClusterRefcount _ _).bind fun _ => keeps_pure _
  · exact keeps_pure _

theorem sameL2_allocBytes (size : ℕ) : Keeps SameL2 (allocBytes size) := by
  have hrest : Keeps SameL2 (do
      let s ← get
      if size ≤ s.clusterSize - s.freeByteOffset % s.clusterSize then allocBytesHere size
      else
        let offset ← allocClusters s.clusterSize
        let s ← get
        let clusterOffset := s.freeByteOffset / s.clusterSize * s.clusterSize
        if clusterOffset + s.clusterSize = offset then
          let _ ← updateClusterRefcount (s.freeByteOffset / s.clusterSize) 1
          modify fun s => { s with freeByteOffset := s.freeByteOffset + size }
          return s.freeByteOffset
        else
          modify fun s => { s with freeByteOffset := offset }
          allocBytesHere size : Qcow ℕ) := by
    refine keeps_get.bind fun s => Keeps.ite (sameL2_allocBytesHere _) ?_
    refine (sameL2_allocClusters _).bind fun off => keeps_get.bind fun s => Keeps.ite ?_ ?_
    · refine (sameL2_updateClusterRefcount _ _).bind fun _ => ?_
      exact (keeps_modify fun _ => ⟨rfl, rfl⟩).bind fun _ => keeps_pure _
    · exact (keeps_modify fun _ => ⟨rfl, rfl⟩).bind fun _ => sameL2_allocBytesHere _
  refine keeps_get.bind fun s => Keeps.ite ?_ hrest
  refine keeps_get.bind fun s => (sameL2_allocClusters _).bind fun off => ?_
  exact (keeps_modify fun _ => ⟨rfl, rfl⟩).bind fun _ => hrest

/-- Entries `a` to `a + n` of the table in a slot are changed and written to disk. -/
theorem writeEntries_coherent {s : BDRVQcowState} (h : s.CacheOk) {slot a n : ℕ} {t : ℕ → ℕ}
    (hslot : slot < l2CacheSize) (h0 : 0 < n) (hn : a + n ≤ s.l2Size)
    (hsame : ∀ j, (j < a ∨ a + n ≤ j) → t j = s.l2Cache slot j)
    (hword : ∀ j, a ≤ j → j < a + n → t j < 256 ^ 8) (hio : s.hd.io s.hd.tick = none) {d : Bytes}
    (hd : ∀ k < 8 * n, d k = Bytes.table 8 (fun i => t (a + i)) k) :
    ∃ l, pwrite (s.l2CacheOffsets slot + a * 8) (8 * n) d
        { s with l2Cache := Function.update s.l2Cache slot t } =
      (true, { s with l2Cache := Function.update s.l2Cache slot t }.stored
        (s.hd.data.write (s.l2CacheOffsets slot + a * 8) (8 * n) d) l (s.hd.tick + 1)) ∧
      ({ s with l2Cache := Function.update s.l2Cache slot t }.stored
        (s.hd.data.write (s.l2CacheOffsets slot + a * 8) (8 * n) d) l (s.hd.tick + 1)).CacheOk := by
  have hlt := h.tableBytes_lt
  obtain ⟨d', l, hw, hdata, -⟩ := pwrite_request
    { s with l2Cache := Function.update s.l2Cache slot t } (s.l2CacheOffsets slot + a * 8)
    (n := 8 * n) (by omega) (by omega) d
  dsimp only at hw hdata
  rw [hio] at hw hdata
  rw [hdata rfl] at hw
  refine ⟨l, hw, ⟨h.geometry.lo, h.geometry.hi⟩, ?_⟩
  have hcoherent := h.coherent.update (t := t) hslot hn hsame hword
  rw [← Bytes.write_congr hd] at hcoherent
  exact hcoherent

namespace BDRVQcowState

/-- The clusters of an entry that is replaced are given up. -/
def entryFreed (s : BDRVQcowState) (e : ℕ) : BDRVQcowState :=
  if e ≠ 0 then (freeAnyClusters e 1 s).2 else s

/-- What keeps the cache coherent in `alloc_compressed_cluster_offset`: the table is
found, what is freed and allocated leaves the cached tables alone, and the entry is
written. -/
structure CompressedSafe (s : BDRVQcowState) (offset size : ℕ) : Prop where
  table : s.TableSafe offset
  free : ∀ slot off i s₁, getClusterTable offset s = (some (slot, off, i), s₁) → s₁.BlocksApart
  alloc : ∀ slot off i s₁, getClusterTable offset s = (some (slot, off, i), s₁) →
    isCopied (s₁.l2Cache slot i) = false →
    (s₁.entryFreed (s₁.l2Cache slot i)).LeavesL2
      (allocBytes size (s₁.entryFreed (s₁.l2Cache slot i))).2
  write : ∀ slot off i s₁, getClusterTable offset s = (some (slot, off, i), s₁) →
    isCopied (s₁.l2Cache slot i) = false →
    (allocBytes size (s₁.entryFreed (s₁.l2Cache slot i))).2.hd.io
      (allocBytes size (s₁.entryFreed (s₁.l2Cache slot i))).2.hd.tick = none

end BDRVQcowState

theorem l2IndexOf_lt_of_bits {s s' : BDRVQcowState} (hbits : s'.clusterBits = s.clusterBits)
    (offset : ℕ) : l2IndexOf s offset < s'.l2Size := by
  rw [BDRVQcowState.l2Size, BDRVQcowState.l2Bits, hbits]
  exact Nat.mod_lt _ s.l2Size_pos

section Compressed

variable {s : BDRVQcowState} (h : s.CacheOk)

include h

/-- The end of `alloc_compressed_cluster_offset`: the new descriptor is entered. -/
theorem storeDescriptor_coherent {size slot off i : ℕ} (hslot : slot < l2CacheSize)
    (hi : i < s.l2Size) (htag : s.l2CacheOffsets slot = off)
    (hleaves : s.LeavesL2 (allocBytes size s).2)
    (hio : (allocBytes size s).2.hd.io (allocBytes size s).2.hd.tick = none) :
    ((do
      let offset ← allocBytes size
      let entry := compressedEntry (← get) offset size
      modify fun s => { s with
        l2Cache := Function.update s.l2Cache slot (Function.update (s.l2Cache slot) i entry) }
      if !(← pwrite (off + i * 8) 8 (Bytes.beByte 8 entry)) then return 0
      return entry : Qcow ℕ) s).2.CacheOk := by
  have hsame := sameL2_allocBytes size s
  have hok := h.leaves hsame hleaves
  rw [bind_apply]
  rcases ha : allocBytes size s with ⟨offset, s₁⟩
  rw [ha] at hsame hok hio
  dsimp only at hsame hok hio ⊢
  have htag₁ : s₁.l2CacheOffsets slot = off := by
    rw [show s₁.l2CacheOffsets = s.l2CacheOffsets from congrArg TableCache.tag hsame.cache, htag]
  rw [bind_apply, get_apply]
  dsimp only
  have hentry : compressedEntry s₁ offset size < 256 ^ 8 := Nat.mod_lt _ (by decide)
  generalize compressedEntry s₁ offset size = entry at hentry
  have hother : ∀ j, (j < i ∨ i + 1 ≤ j) →
      Function.update (s₁.l2Cache slot) i entry j = s₁.l2Cache slot j := fun j hj =>
    Function.update_of_ne (by omega) ..
  have hword : ∀ j, i ≤ j → j < i + 1 → Function.update (s₁.l2Cache slot) i entry j < 256 ^ 8 := by
    intro j hj hj'
    obtain rfl : j = i := by omega
    rw [Function.update_self]
    exact hentry
  have hbytes : ∀ k < 8 * 1, Bytes.beByte 8 entry k =
      Bytes.table 8 (fun k => Function.update (s₁.l2Cache slot) i entry (i + k)) k := by
    intro k hk
    rw [Bytes.table, Nat.div_eq_of_lt (by omega), Nat.mod_eq_of_lt (by omega), Nat.add_zero,
      Function.update_self]
  obtain ⟨l, hw, hok₂⟩ := writeEntries_coherent hok hslot (by decide)
    (by rw [hsame.l2Size]; omega) hother hword hio hbytes
  rw [bind_apply, modify_apply]
  dsimp only
  rw [bind_apply, ← htag₁, hw]
  exact hok₂

theorem allocCompressed_coherent {offset size : ℕ} (hsafe : s.CompressedSafe offset size) :
    (allocCompressedClusterOffset offset size s).2.CacheOk := by
  obtain ⟨htable, hfree, halloc, hwrite⟩ := hsafe
  rw [allocCompressedClusterOffset, bind_apply]
  rcases hl : getClusterTable offset s with ⟨r, s₁⟩
  obtain ⟨hok, hbits, hslot⟩ := getClusterTable_coherent h htable hl
  rcases r with _ | ⟨slot, off, i⟩
  · exact hok
  obtain ⟨hlt, htag, hi⟩ := hslot slot off i rfl
  replace hfree := hfree slot off i s₁ hl
  replace halloc := halloc slot off i s₁ hl
  replace hwrite := hwrite slot off i s₁ hl
  dsimp only
  rw [bind_apply, get_apply]
  dsimp only
  cases hcopied : isCopied (s₁.l2Cache slot i) with
  | true =>
    rw [if_pos rfl]
    exact hok
  | false =>
    rw [if_neg Bool.false_ne_true]
    have hfreed : s₁.SameL2 (s₁.entryFreed (s₁.l2Cache slot i)) ∧
        s₁.LeavesL2 (s₁.entryFreed (s₁.l2Cache slot i)) := by
      rw [BDRVQcowState.entryFreed]
      split_ifs
      · exact ⟨sameL2_freeAnyClusters _ _ s₁, hfree.leaves (blocksOnly_freeAnyClusters _ _ s₁)⟩
      · exact ⟨Std.Refl.refl s₁, fun _ _ => rfl⟩
    have hindex : i < (s₁.entryFreed (s₁.l2Cache slot i)).l2Size := by
      rw [hfreed.1.l2Size, hi]
      exact l2IndexOf_lt_of_bits hbits offset
    have hstore := storeDescriptor_coherent (hok.leaves hfreed.1 hfreed.2) hlt hindex
      ((congrFun (congrArg TableCache.tag hfreed.1.cache) slot).trans htag) (halloc hcopied)
      (hwrite hcopied)
    rw [BDRVQcowState.entryFreed] at hstore
    split_ifs at hstore ⊢
    · exact hstore
    · exact hstore

end Compressed

/-! ### Guest reads -/

namespace BDRVQcowState

/-- `s'` is `s` behind reads of the files and of a compressed cluster. -/
def SameDisk (s s' : BDRVQcowState) : Prop := ∃ t b c o, s' = { s with
  hd := { s.hd with tick := t }
  backingHd := b
  clusterCache := c
  clusterCacheOffset := o }

instance : Std.Refl SameDisk :=
  ⟨fun s => ⟨s.hd.tick, s.backingHd, s.clusterCache, s.clusterCacheOffset, rfl⟩⟩

instance : IsTrans BDRVQcowState SameDisk := ⟨by
  rintro s _ _ ⟨t, b, c, o, rfl⟩ ⟨t', b', c', o', rfl⟩
  exact ⟨t', b', c', o', rfl⟩⟩

theorem SameDisk.cacheOk {s s' : BDRVQcowState} (h : s.SameDisk s') (hok : s.CacheOk) :
    s'.CacheOk := by
  obtain ⟨t, b, c, o, rfl⟩ := h
  exact ⟨⟨hok.geometry.lo, hok.geometry.hi⟩, hok.coherent⟩

theorem SameDisk.bits {s s' : BDRVQcowState} (h : s.SameDisk s') :
    s'.clusterBits = s.clusterBits := by
  obtain ⟨t, b, c, o, rfl⟩ := h
  rfl

/-- What keeps the cache coherent in `get_cluster_offset`. -/
def LookupSafe (s : BDRVQcowState) (offset : ℕ) : Prop :=
  ¬ s.l1Size ≤ l1IndexOf s offset → s.l1Table (l1IndexOf s offset).toNat ≠ 0 →
    s.LoadSafe (clearCopied (s.l1Table (l1IndexOf s offset).toNat))

/-- What keeps the cache coherent in the loop of `qcow_read`. -/
def ReadSafe : ℕ → ℕ → ℕ → Bytes → BDRVQcowState → Prop
  | _, _, 0, _, _ => True
  | 0, _, _ + 1, _, _ => True
  | fuel + 1, sectorNum, nbSectors + 1, buf, s =>
    let r := getClusterOffset (sectorNum * 512) (nbSectors + 1) s
    let q := readRun r.1.1 sectorNum r.1.2 buf r.2
    s.LookupSafe (sectorNum * 512) ∧ (q.1.1 = true →
      ReadSafe fuel (sectorNum + r.1.2) (nbSectors + 1 - r.1.2) (q.1.2.drop (512 * r.1.2)) q.2)

end BDRVQcowState

open BDRVQcowState (SameDisk)

theorem sameDisk_pread (off n : ℕ) (buf : Bytes) : Keeps SameDisk (pread off n buf) := by
  intro s
  obtain ⟨ok, b, t, ht, -⟩ := pread_cases s off n buf
  rw [ht]
  exact ⟨t, _, _, _, rfl⟩

theorem sameDisk_decompressCluster (e : ℕ) : Keeps SameDisk (decompressCluster e) := by
  refine keeps_get.bind fun s => Keeps.ite (keeps_pure _) ?_
  refine (sameDisk_pread _ _ _).bind fun r => Keeps.ite (keeps_pure _) ?_
  refine (keeps_modify fun _ => ⟨_, _, _, _, rfl⟩).bind fun _ => Keeps.ite ?_ (keeps_pure _)
  exact (keeps_modify fun _ => ⟨_, _, _, _, rfl⟩).bind fun _ => keeps_pure _

theorem sameDisk_backingRead (f : HostFile) (sectorNum nbSectors : ℕ) (buf : Bytes) :
    Keeps SameDisk (backingRead f sectorNum nbSectors buf) := by
  intro s
  rw [backingRead]
  split_ifs
  · exact Std.Refl.refl s
  · exact ⟨s.hd.tick, _, _, _, rfl⟩

theorem sameDisk_readRun (clusterOffset sectorNum n : ℕ) (buf : Bytes) :
    Keeps SameDisk (readRun clusterOffset sectorNum n buf) := by
  refine keeps_get.bind fun s => Keeps.ite ?_ (Keeps.ite ?_ ?_)
  · rcases s.backingHd with _ | f
    · exact keeps_pure _
    · exact Keeps.ite (keeps_pure _) (sameDisk_backingRead _ _ _ _)
  · refine (sameDisk_decompressCluster _).bind fun ok => Keeps.ite (keeps_pure _) ?_
    exact keeps_get.bind fun s => keeps_pure _
  · refine (sameDisk_pread _ _ _).bind fun r => Keeps.ite (keeps_pure _) ?_
    exact Keeps.ite (keeps_pure _) (keeps_pure _)

theorem getClusterOffset_coherent {s : BDRVQcowState} (h : s.CacheOk) {offset : ℕ}
    (hsafe : s.LookupSafe offset) (num : ℕ) :
    (getClusterOffset offset num s).2.CacheOk ∧
      (getClusterOffset offset num s).2.clusterBits = s.clusterBits := by
  rw [getClusterOffset, bind_apply, get_apply]
  dsimp only
  by_cases hsize : s.l1Size ≤ l1IndexOf s offset
  · rw [if_pos hsize]
    exact ⟨h, rfl⟩
  rw [if_neg hsize]
  by_cases hzero : s.l1Table (l1IndexOf s offset).toNat = 0
  · rw [if_pos hzero]
    exact ⟨h, rfl⟩
  rw [if_neg hzero, bind_apply]
  rcases hl : l2Load (clearCopied (s.l1Table (l1IndexOf s offset).toNat)) s with ⟨slot, s₁⟩
  have htable := l2Load_coherent h (hsafe hsize hzero) hl
  rcases slot with _ | slot
  · exact ⟨htable.ok, htable.bits⟩
  · exact ⟨htable.ok, htable.bits⟩

theorem qcowReadLoop_coherent {s : BDRVQcowState} (h : s.CacheOk) {fuel sectorNum nbSectors : ℕ}
    {buf : Bytes} (hsafe : BDRVQcowState.ReadSafe fuel sectorNum nbSectors buf s) :
    (qcowReadLoop fuel sectorNum nbSectors buf s).2.CacheOk ∧
      (qcowReadLoop fuel sectorNum nbSectors buf s).2.clusterBits = s.clusterBits := by
  induction fuel generalizing s sectorNum nbSectors buf with
  | zero =>
    rcases nbSectors with _ | nbSectors
    · exact ⟨h, rfl⟩
    · exact ⟨h, rfl⟩
  | succ fuel ih =>
    rcases nbSectors with _ | nbSectors
    · exact ⟨h, rfl⟩
    rw [BDRVQcowState.ReadSafe] at hsafe
    obtain ⟨hlookup, hrest⟩ := hsafe
    obtain ⟨hok, hbits⟩ := getClusterOffset_coherent h hlookup (nbSectors + 1)
    rw [qcowReadLoop, bind_apply]
    rcases hg : getClusterOffset (sectorNum * 512) (nbSectors + 1) s with ⟨⟨e, n⟩, s₁⟩
    rw [hg] at hok hbits hrest
    dsimp only at hok hbits hrest ⊢
    have hsame := sameDisk_readRun e sectorNum n buf s₁
    rw [bind_apply]
    rcases hr : readRun e sectorNum n buf s₁ with ⟨⟨ok, buf'⟩, s₂⟩
    rw [hr] at hsame hrest
    dsimp only at hsame hrest ⊢
    have hok₂ := hsame.cacheOk hok
    have hbits₂ := hsame.bits.trans hbits
    cases ok with
    | false => exact ⟨hok₂, hbits₂⟩
    | true =>
      rw [if_neg (by decide), bind_apply]
      obtain ⟨hok₃, hbits₃⟩ := ih hok₂ (hrest rfl)
      exact ⟨hok₃, hbits₃.trans hbits₂⟩

end Ar7Qemu.Qcow2
