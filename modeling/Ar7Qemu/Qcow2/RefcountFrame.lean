import Ar7Qemu.Qcow2.RefcountLookup
import Ar7Qemu.Qcow2.Lookup
import Ar7Qemu.Lib.Frame

/-! What refcount handling leaves alone on any image and any file, also when
requests fail: everything but the refcount part of the state, and, when counts
are taken down, every byte outside the refcount blocks. -/

namespace Ar7Qemu.Qcow2

open Lib Block

namespace BDRVQcowState

/-- The part of the driver state that refcount handling works on. -/
structure RefPart where
  hd : HostFile
  refcountTable : ℕ → ℕ
  refcountTableOffset : ℕ
  refcountTableSize : ℕ
  refcountBlockCacheOffset : ℕ
  refcountBlockCache : ℕ → ℕ
  freeClusterIndex : ℕ

def withRef (s : BDRVQcowState) (r : RefPart) : BDRVQcowState :=
  { s with
    hd := r.hd
    refcountTable := r.refcountTable
    refcountTableOffset := r.refcountTableOffset
    refcountTableSize := r.refcountTableSize
    refcountBlockCacheOffset := r.refcountBlockCacheOffset
    refcountBlockCache := r.refcountBlockCache
    freeClusterIndex := r.freeClusterIndex }

/-- `s'` is `s` with another refcount part over the same file. -/
def RefOnly (s s' : BDRVQcowState) : Prop := ∃ r, s' = s.withRef r ∧ r.hd.io = s.hd.io

instance : Std.Refl RefOnly :=
  ⟨fun s => ⟨⟨s.hd, s.refcountTable, s.refcountTableOffset, s.refcountTableSize,
    s.refcountBlockCacheOffset, s.refcountBlockCache, s.freeClusterIndex⟩, rfl, rfl⟩⟩

instance : IsTrans BDRVQcowState RefOnly := ⟨by
  rintro s _ _ ⟨r, rfl, hr⟩ ⟨r', rfl, hr'⟩
  exact ⟨r', rfl, hr'.trans hr⟩⟩

theorem RefOnly.reliable {s s' : BDRVQcowState} (h : s.RefOnly s') : s'.Reliable ↔ s.Reliable := by
  obtain ⟨r, rfl, hr⟩ := h
  rw [Reliable, Reliable, HostFile.Reliable, HostFile.Reliable]
  exact forall_congr' fun t => by rw [← hr]; rfl

end BDRVQcowState

open BDRVQcowState (RefOnly)

/-! ### The refcount part -/

section Part

theorem keeps_pread (off n : ℕ) (buf : Bytes) : Keeps RefOnly (pread off n buf) := by
  intro s
  obtain ⟨ok, b, t, ht, -⟩ := pread_cases s off n buf
  rw [ht]
  exact ⟨⟨_, s.refcountTable, s.refcountTableOffset, s.refcountTableSize,
    s.refcountBlockCacheOffset, s.refcountBlockCache, s.freeClusterIndex⟩, rfl, rfl⟩

theorem keeps_preadTable (w off n : ℕ) (old : ℕ → ℕ) : Keeps RefOnly (preadTable w off n old) :=
  (keeps_pread _ _ _).bind fun _ => keeps_pure _

theorem keeps_pwrite (off n : ℕ) (d : Bytes) : Keeps RefOnly (pwrite off n d) := by
  intro s
  obtain ⟨ok, d', l, t, ht, -⟩ := pwrite_cases s off n d
  rw [ht]
  exact ⟨⟨_, s.refcountTable, s.refcountTableOffset, s.refcountTableSize,
    s.refcountBlockCacheOffset, s.refcountBlockCache, s.freeClusterIndex⟩, rfl, rfl⟩

theorem keeps_pwriteTable (w off n : ℕ) (t : ℕ → ℕ) : Keeps RefOnly (pwriteTable w off n t) :=
  keeps_pwrite _ _ _

theorem keeps_fields {f : BDRVQcowState → BDRVQcowState}
    (h : ∀ s, ∃ t o z c b i, f s = s.withRef ⟨s.hd, t, o, z, c, b, i⟩) :
    Keeps RefOnly (modify f : Qcow PUnit) := by
  intro s
  obtain ⟨t, o, z, c, b, i, hf⟩ := h s
  exact ⟨⟨s.hd, t, o, z, c, b, i⟩, hf, rfl⟩

theorem keeps_loadRefcountBlock (off : ℕ) : Keeps RefOnly (loadRefcountBlock off) := by
  refine keeps_get.bind fun s => (keeps_preadTable _ _ _ _).bind ?_
  rintro ⟨ok, t⟩
  refine (keeps_fields fun s => ⟨_, _, _, _, _, _, rfl⟩).bind fun _ => ?_
  refine Keeps.ite ?_ (keeps_pure _)
  exact (keeps_fields fun s => ⟨_, _, _, _, _, _, rfl⟩).bind fun _ => keeps_pure _

theorem keeps_getRefcount (c : ℕ) : Keeps RefOnly (getRefcount c) := by
  refine keeps_get.bind fun s => ?_
  refine Keeps.ite (keeps_pure _) (Keeps.ite (keeps_pure _) (Keeps.ite ?_ ?_))
  · refine (keeps_loadRefcountBlock _).bind fun ok => Keeps.ite (keeps_pure _) ?_
    exact keeps_get.bind fun s => keeps_pure _
  · exact keeps_get.bind fun s => keeps_pure _

theorem keeps_allocScan (n fuel need : ℕ) : Keeps RefOnly (allocScan n fuel need) := by
  induction fuel generalizing need with
  | zero =>
    cases need with
    | zero => exact keeps_pure _
    | succ need => exact keeps_pure _
  | succ fuel ih =>
    cases need with
    | zero => exact keeps_pure _
    | succ need =>
      refine keeps_get.bind fun s => ?_
      refine (keeps_fields fun s => ⟨_, _, _, _, _, _, rfl⟩).bind fun _ => ?_
      exact (keeps_getRefcount _).bind fun _ => Keeps.ite (ih _) (ih _)

theorem keeps_allocClustersNoref (size : ℕ) : Keeps RefOnly (allocClustersNoref size) :=
  keeps_get.bind fun _ => (keeps_allocScan _ _ _).bind fun _ => keeps_get.bind fun _ => keeps_pure _

section Update

variable {upd : ℕ → ℤ → Qcow ℤ} (hupd : ∀ c k, Keeps RefOnly (upd c k))

include hupd

theorem keeps_updateClusters (k : ℤ) (n c : ℕ) : Keeps RefOnly (updateClusters upd k n c) := by
  induction n generalizing c with
  | zero => exact keeps_pure _
  | succ n ih => exact (hupd c k).bind fun _ => ih _

theorem keeps_updateRefcountWith (off len : ℕ) (k : ℤ) :
    Keeps RefOnly (updateRefcountWith upd off len k) :=
  keeps_get.bind fun _ => Keeps.ite (keeps_pure _) (keeps_updateClusters hupd _ _ _)

theorem keeps_growRefcountTableWith (minSize : ℕ) :
    Keeps RefOnly (growRefcountTableWith upd minSize) := by
  refine keeps_get.bind fun s => Keeps.ite (keeps_pure _) ?_
  refine (keeps_allocClustersNoref _).bind fun off => ?_
  refine (keeps_pwriteTable _ _ _ _).bind fun ok => Keeps.ite ?_ ?_
  · exact (keeps_updateRefcountWith hupd _ _ _).bind fun _ => keeps_pure _
  refine (keeps_pwrite _ _ _).bind fun ok => Keeps.ite ?_ ?_
  · exact (keeps_updateRefcountWith hupd _ _ _).bind fun _ => keeps_pure _
  refine keeps_get_set (fun s => ⟨⟨s.hd, _, _, _, _, _, _⟩, rfl, rfl⟩) fun old _ => ?_
  refine (keeps_updateRefcountWith hupd _ _ _).bind fun _ => ?_
  exact (keeps_updateRefcountWith hupd _ _ _).bind fun _ => keeps_pure _

theorem keeps_refcountBlockFor (tableIndex : ℕ) (k : ℤ) :
    Keeps RefOnly (refcountBlockFor upd tableIndex k) := by
  refine keeps_get.bind fun s => Keeps.ite (Keeps.ite (keeps_pure _) ?_) ?_
  · refine (keeps_allocClustersNoref _).bind fun off => ?_
    refine (keeps_fields fun s => ⟨_, _, _, _, _, _, rfl⟩).bind fun _ => ?_
    refine (keeps_pwriteTable _ _ _ _).bind fun ok => Keeps.ite (keeps_pure _) ?_
    refine (keeps_fields fun s => ⟨_, _, _, _, _, _, rfl⟩).bind fun _ => ?_
    refine keeps_get.bind fun s => (keeps_pwrite _ _ _).bind fun ok => Keeps.ite (keeps_pure _) ?_
    refine (keeps_fields fun s => ⟨_, _, _, _, _, _, rfl⟩).bind fun _ => ?_
    exact (keeps_updateRefcountWith hupd _ _ _).bind fun _ => keeps_pure _
  · refine Keeps.ite ?_ (keeps_pure _)
    exact (keeps_loadRefcountBlock _).bind fun ok => Keeps.ite (keeps_pure _) (keeps_pure _)

omit hupd in
theorem keeps_storeRefcount (off c : ℕ) (k : ℤ) : Keeps RefOnly (storeRefcount off c k) := by
  refine keeps_get.bind fun s => Keeps.ite (keeps_pure _) (Keeps.ite ?_ ?_)
  · refine (keeps_fields fun s => ⟨_, _, _, _, _, _, rfl⟩).bind fun _ => ?_
    refine (keeps_fields fun s => ⟨_, _, _, _, _, _, rfl⟩).bind fun _ => ?_
    exact (keeps_pwrite _ _ _).bind fun ok => Keeps.ite (keeps_pure _) (keeps_pure _)
  · refine (keeps_fields fun s => ⟨_, _, _, _, _, _, rfl⟩).bind fun _ => ?_
    exact (keeps_pwrite _ _ _).bind fun ok => Keeps.ite (keeps_pure _) (keeps_pure _)

theorem keeps_updateClusterRefcountWith (c : ℕ) (k : ℤ) :
    Keeps RefOnly (updateClusterRefcountWith upd c k) := by
  refine keeps_get.bind fun s => Keeps.ite (Keeps.ite (keeps_pure _) ?_) ?_
  · refine (keeps_growRefcountTableWith hupd _).bind fun ret => Keeps.ite (keeps_pure _) ?_
    exact (keeps_refcountBlockFor hupd _ k).bind_except (fun _ => keeps_pure _)
      fun _ => keeps_storeRefcount _ _ _
  · exact (keeps_refcountBlockFor hupd _ k).bind_except (fun _ => keeps_pure _)
      fun _ => keeps_storeRefcount _ _ _

end Update

theorem keeps_updateNested (depth c : ℕ) (k : ℤ) : Keeps RefOnly (updateNested depth c k) := by
  induction depth generalizing c k with
  | zero => exact keeps_pure _
  | succ depth ih => exact keeps_updateClusterRefcountWith ih c k

theorem keeps_updateRefcount (off len : ℕ) (k : ℤ) : Keeps RefOnly (updateRefcount off len k) :=
  keeps_updateRefcountWith (keeps_updateNested _) _ _ _

theorem keeps_allocClusters (size : ℕ) : Keeps RefOnly (allocClusters size) :=
  (keeps_allocClustersNoref _).bind fun _ => (keeps_updateRefcount _ _ _).bind fun _ => keeps_pure _

theorem clusterSize_dvd_allocClusters (s : BDRVQcowState) (size : ℕ) :
    s.clusterSize ∣ (allocClusters size s).1 := by
  rw [allocClusters, bind_apply, bind_apply]
  exact Dvd.intro_left _ rfl

theorem keeps_freeClusters (off size : ℕ) : Keeps RefOnly (freeClusters off size) :=
  keeps_updateRefcount _ _ _

end Part

/-! ### Bytes outside the refcount blocks -/

namespace BDRVQcowState

/-- Byte `p` is in no refcount block. -/
def OutsideBlocks (s : BDRVQcowState) (p : ℕ) : Prop :=
  ∀ i < s.refcountTableSize, s.refcountTable i ≠ 0 →
    p < s.refcountTable i ∨ s.refcountTable i + 2 * s.refcountsPerBlock ≤ p

/-- `s'` is `s` with other contents of the refcount blocks. -/
structure BlocksOnly (s s' : BDRVQcowState) : Prop where
  part : s.RefOnly s'
  table : s'.refcountTable = s.refcountTable
  size : s'.refcountTableSize = s.refcountTableSize
  data : ∀ p, s.OutsideBlocks p → s'.hd.data p = s.hd.data p

theorem BlocksOnly.outsideBlocks {s s' : BDRVQcowState} (h : s.BlocksOnly s') {p : ℕ}
    (hp : s.OutsideBlocks p) : s'.OutsideBlocks p := by
  have hbits : s'.refcountsPerBlock = s.refcountsPerBlock := by
    obtain ⟨r, rfl, -⟩ := h.part
    rfl
  intro i hi hne
  rw [h.table] at hne ⊢
  rw [hbits]
  exact hp i (h.size ▸ hi) hne

instance : Std.Refl BlocksOnly := ⟨fun s => ⟨Std.Refl.refl s, rfl, rfl, fun _ _ => rfl⟩⟩

instance : IsTrans BDRVQcowState BlocksOnly :=
  ⟨fun _ _ _ h h' => ⟨IsTrans.trans _ _ _ h.part h'.part, h'.table.trans h.table,
    h'.size.trans h.size, fun p hp => (h'.data p (h.outsideBlocks hp)).trans (h.data p hp)⟩⟩

end BDRVQcowState

namespace BDRVQcowState

theorem Geometry.clusterSize_eq_refcounts {s : BDRVQcowState} (hg : s.Geometry) :
    s.clusterSize = 2 * s.refcountsPerBlock := by
  rw [clusterSize, refcountsPerBlock, ← pow_succ']
  congr 1
  have := hg.lo
  omega

/-- The refcount blocks are clusters of their own. -/
structure BlocksWell (s : BDRVQcowState) : Prop where
  geometry : s.Geometry
  aligned : ∀ i < s.refcountTableSize, s.clusterSize ∣ s.refcountTable i
  inj : ∀ i < s.refcountTableSize, ∀ j < s.refcountTableSize, s.refcountTable i ≠ 0 →
    s.refcountTable i = s.refcountTable j → i = j

theorem BlocksOnly.clusterBits {s s' : BDRVQcowState} (h : s.BlocksOnly s') :
    s'.clusterBits = s.clusterBits := by
  obtain ⟨r, rfl, -⟩ := h.part
  rfl

theorem BlocksOnly.blocksWell {s s' : BDRVQcowState} (h : s.BlocksOnly s') (hw : s.BlocksWell) :
    s'.BlocksWell := by
  have hbits := h.clusterBits
  refine ⟨⟨hbits ▸ hw.geometry.lo, hbits ▸ hw.geometry.hi⟩, ?_, ?_⟩
  · rw [h.size, h.table, clusterSize, hbits]
    exact hw.aligned
  · rw [h.size, h.table]
    exact hw.inj

/-- `s'` is `s` with other counts of the clusters from `lo` to `hi`. -/
structure Recounts (lo hi : ℕ) (s s' : BDRVQcowState) : Prop where
  blocks : s.BlocksOnly s'
  counts : s.BlocksWell → ∀ c, (c < lo ∨ hi ≤ c) → s'.diskRefcount c = s.diskRefcount c

instance (lo hi : ℕ) : Std.Refl (Recounts lo hi) := ⟨fun s => ⟨Std.Refl.refl s, fun _ _ _ => rfl⟩⟩

instance (lo hi : ℕ) : IsTrans BDRVQcowState (Recounts lo hi) :=
  ⟨fun _ _ _ h h' => ⟨IsTrans.trans _ _ _ h.blocks h'.blocks, fun hw c hc =>
    (h'.counts (h.blocks.blocksWell hw) c hc).trans (h.counts hw c hc)⟩⟩

theorem Recounts.mono {lo hi lo' hi' : ℕ} {s s' : BDRVQcowState} (h : s.Recounts lo hi s')
    (hlo : lo' ≤ lo) (hhi : hi ≤ hi') : s.Recounts lo' hi' s' :=
  ⟨h.blocks, fun hw c hc => h.counts hw c (by omega)⟩

end BDRVQcowState

section Blocks

open BDRVQcowState (BlocksOnly Recounts)

theorem recounts_loadRefcountBlock (lo hi off : ℕ) :
    Keeps (Recounts lo hi) (loadRefcountBlock off) := by
  intro s
  have hpart := keeps_loadRefcountBlock off s
  obtain ⟨ok, b, t, ht, -⟩ := preadTable_cases s 2 off s.refcountsPerBlock s.refcountBlockCache
  rw [loadRefcountBlock, bind_apply, get_apply, bind_apply, ht] at hpart ⊢
  cases ok
  · exact ⟨⟨hpart, rfl, rfl, fun _ _ => rfl⟩, fun _ _ _ => rfl⟩
  · exact ⟨⟨hpart, rfl, rfl, fun _ _ => rfl⟩, fun _ _ _ => rfl⟩

/-- Storing a count writes its two bytes. -/
theorem storeRefcount_frame (off c : ℕ) (k : ℤ) (s : BDRVQcowState) :
    (storeRefcount off c k s).2.refcountTable = s.refcountTable ∧
      (storeRefcount off c k s).2.refcountTableSize = s.refcountTableSize ∧
      ∀ p, (p < off + 2 * (c % s.refcountsPerBlock) ∨ off + 2 * (c % s.refcountsPerBlock) + 2 ≤ p) →
        (storeRefcount off c k s).2.hd.data p = s.hd.data p := by
  have hwrite : ∀ (s₁ : BDRVQcowState) (d : Bytes), s₁.hd = s.hd →
      s₁.refcountTable = s.refcountTable → s₁.refcountTableSize = s.refcountTableSize →
      (pwrite (off + 2 * (c % s.refcountsPerBlock)) 2 d s₁).2.refcountTable = s.refcountTable ∧
      (pwrite (off + 2 * (c % s.refcountsPerBlock)) 2 d s₁).2.refcountTableSize =
        s.refcountTableSize ∧
      ∀ p, (p < off + 2 * (c % s.refcountsPerBlock) ∨ off + 2 * (c % s.refcountsPerBlock) + 2 ≤ p) →
        (pwrite (off + 2 * (c % s.refcountsPerBlock)) 2 d s₁).2.hd.data p = s.hd.data p := by
    intro s₁ d hhd htable hsize
    obtain ⟨ok, d', l, t, ht, -, hframe⟩ := pwrite_cases s₁ (off + 2 * (c % s.refcountsPerBlock)) 2 d
    rw [ht, ← hhd]
    exact ⟨htable, hsize, hframe⟩
  have hpure : ∀ (b : Bool) (x y : ℤ) (s : BDRVQcowState),
      ((if b = true then pure x else pure y : Qcow ℤ) s).2 = s := by
    intro b x y s
    cases b <;> rfl
  rw [storeRefcount, bind_apply, get_apply]
  dsimp only
  split_ifs
  · exact ⟨rfl, rfl, fun _ _ => rfl⟩
  · simp only [bind_apply, modify_apply, hpure]
    exact hwrite _ _ rfl rfl rfl
  · simp only [bind_apply, modify_apply, hpure]
    exact hwrite _ _ rfl rfl rfl

/-- Taking a count down writes to its block, and to no other count. -/
theorem recounts_storeRefcount {s : BDRVQcowState} {c off : ℕ} {k : ℤ}
    (hsize : c / s.refcountsPerBlock < s.refcountTableSize)
    (hne : s.refcountTable (c / s.refcountsPerBlock) ≠ 0)
    (hoff : s.refcountTable (c / s.refcountsPerBlock) = off) :
    s.Recounts c (c + 1) (storeRefcount off c k s).2 := by
  have hmod : ∀ n, n % s.refcountsPerBlock < s.refcountsPerBlock := fun n =>
    Nat.mod_lt _ (Nat.two_pow_pos _)
  obtain ⟨htable, hsize', hdata⟩ := storeRefcount_frame off c k s
  have hblocks : s.BlocksOnly (storeRefcount off c k s).2 := by
    refine ⟨keeps_storeRefcount off c k s, htable, hsize', fun p hp => hdata p ?_⟩
    have hout := hp _ hsize hne
    have := hmod c
    omega
  refine ⟨hblocks, fun hw n hn => ?_⟩
  have hper : (storeRefcount off c k s).2.refcountsPerBlock = s.refcountsPerBlock := by
    rw [BDRVQcowState.refcountsPerBlock, BDRVQcowState.refcountsPerBlock, hblocks.clusterBits]
  rw [BDRVQcowState.diskRefcount, BDRVQcowState.diskRefcount, hper, htable, hsize']
  split_ifs with hover hzero
  · rfl
  · rfl
  -- the two counts are in one block at different places, or in blocks that are apart
  refine Bytes.word_congr fun i hi => hdata _ ?_
  have hm := hmod n
  have hc := hmod c
  by_cases hblock : n / s.refcountsPerBlock = c / s.refcountsPerBlock
  · have hne' : n % s.refcountsPerBlock ≠ c % s.refcountsPerBlock := by
      intro heq
      have h₁ := Nat.div_add_mod n s.refcountsPerBlock
      have h₂ := Nat.div_add_mod c s.refcountsPerBlock
      rw [hblock, heq] at h₁
      omega
    rw [hblock, hoff]
    omega
  · have hapart := dvd_apart (hw.aligned _ (Nat.lt_of_not_le hover)) (hw.aligned _ hsize)
      fun heq => hblock (hw.inj _ (Nat.lt_of_not_le hover) _ hsize hzero heq)
    rw [hw.geometry.clusterSize_eq_refcounts, hoff] at hapart
    omega

/-- Taking a count down needs a block, and writes to it alone. -/
theorem recounts_updateClusterRefcountWith (upd : ℕ → ℤ → Qcow ℤ) (c : ℕ) {k : ℤ} (hk : k < 0) :
    Keeps (Recounts c (c + 1)) (updateClusterRefcountWith upd c k) := by
  intro s
  rw [updateClusterRefcountWith, bind_apply, get_apply]
  dsimp only
  by_cases hsize : s.refcountTableSize ≤ c / s.refcountsPerBlock
  · rw [if_pos hsize, if_pos hk]
    exact Std.Refl.refl s
  rw [if_neg hsize, bind_apply, refcountBlockFor, bind_apply, get_apply]
  dsimp only
  by_cases hzero : s.refcountTable (c / s.refcountsPerBlock) = 0
  · rw [if_pos hzero, if_pos hk]
    exact Std.Refl.refl s
  rw [if_neg hzero]
  by_cases hcached : s.refcountTable (c / s.refcountsPerBlock) ≠ s.refcountBlockCacheOffset
  · rw [if_pos hcached, bind_apply]
    have hload := recounts_loadRefcountBlock c (c + 1) (s.refcountTable (c / s.refcountsPerBlock)) s
    rcases hr : loadRefcountBlock (s.refcountTable (c / s.refcountsPerBlock)) s with ⟨ok, s₁⟩
    rw [hr] at hload
    have hper : s₁.refcountsPerBlock = s.refcountsPerBlock := by
      rw [BDRVQcowState.refcountsPerBlock, BDRVQcowState.refcountsPerBlock, hload.blocks.clusterBits]
    cases ok
    · exact hload
    · refine IsTrans.trans _ _ _ hload (recounts_storeRefcount ?_ ?_ ?_)
      · rw [hper, hload.blocks.size]
        omega
      · rwa [hper, hload.blocks.table]
      · rw [hper, hload.blocks.table]
  · rw [if_neg hcached]
    exact recounts_storeRefcount (Nat.lt_of_not_le hsize) hzero rfl

theorem recounts_updateClusters {lo hi n c : ℕ} (hlo : lo ≤ c) (hhi : c + n ≤ hi) :
    Keeps (Recounts lo hi) (updateClusters updateClusterRefcount (-1) n c) := by
  induction n generalizing c with
  | zero => exact keeps_pure _
  | succ n ih =>
    have hone : Keeps (Recounts lo hi) (updateClusterRefcount c (-1)) :=
      (recounts_updateClusterRefcountWith _ c (by decide)).mono fun _ _ h =>
        h.mono hlo (by omega)
    exact hone.bind fun _ => ih (by omega) (by omega)

theorem recounts_freeClusters (off size : ℕ) (s : BDRVQcowState) :
    s.Recounts (off / s.clusterSize) ((off + size - 1) / s.clusterSize + 1)
      (freeClusters off size s).2 := by
  rw [freeClusters, updateRefcount, updateRefcountWith, bind_apply, get_apply]
  dsimp only
  split_ifs with hsize
  · exact Std.Refl.refl s
  · have hle : off / s.clusterSize ≤ (off + size - 1) / s.clusterSize :=
      Nat.div_le_div_right (by omega)
    exact recounts_updateClusters le_rfl (by omega) s

theorem blocksOnly_freeClusters (off size : ℕ) : Keeps BlocksOnly (freeClusters off size) :=
  fun s => (recounts_freeClusters off size s).blocks

end Blocks

end Ar7Qemu.Qcow2
