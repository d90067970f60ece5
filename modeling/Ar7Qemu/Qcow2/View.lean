import Ar7Qemu.Qcow2.Lookup
import Ar7Qemu.Qcow2.Io

/-! What a guest sees. The content of a sector is a function of the L1 table, the
image file, the backing file and the codec. Proved: on a valid image with
coherent caches `qcow_read` returns this content and changes nothing but the
caches. -/

namespace Ar7Qemu.Qcow2

open Lib Block

theorem isCompressed_clearCopied (e : ℕ) : isCompressed (clearCopied e) = isCompressed e := by
  have h : e % 2 ^ 63 / 2 ^ 62 % 2 = e / 2 ^ 62 % 2 := by omega
  simp only [isCompressed, clearCopied, h]

namespace BDRVQcowState

variable (s : BDRVQcowState)

/-- The bytes of a compressed cluster on disk, from its first one to the end of
its last sector. -/
def compressedBytes (e : ℕ) : List UInt8 :=
  let coffset := s.clusterOffsetMask e
  let csize := (s.csizeMask (e / 2 ^ s.csizeShift) + 1) * 512 - coffset % 512
  (List.range csize).map fun i => s.hd.data (coffset / 512 * 512 + coffset % 512 + i)

/-- The cluster that the compressed entry `e` describes, and whether it inflates. -/
def inflated (e : ℕ) : Bool × (Fin s.clusterSize → UInt8) :=
  s.codec.inflate s.clusterSize (s.compressedBytes e)

/-- Sector `i` of the backing file, zero past its end. -/
def backingSector (i : ℕ) (b : Fin 512) : UInt8 :=
  match s.backingHd with
  | none => 0
  | some f => if i < backingSectors f then f.data (i * 512 + b) else 0

/-- Sector `x` of the plain cluster at `e`, for guest sector `i`. -/
def plainSector (e x i : ℕ) : Fin 512 → UInt8 :=
  let raw := fun j : Fin 512 => s.hd.data (e + x * 512 + j)
  if s.cryptMethod ≠ 0 then s.codec.decrypt i raw else raw

/-- Sector `x` of the compressed cluster that `e` describes. -/
def compressedSector (e x : ℕ) (b : Fin 512) : UInt8 :=
  if h : x * 512 + b < s.clusterSize then (s.inflated e).2 ⟨x * 512 + b, h⟩ else 0

/-- The content of guest sector `i`. -/
def sectorData (i : ℕ) : Fin 512 → UInt8 :=
  let e := clearCopied (s.guestEntry (i / s.clusterSectors))
  let x := i % s.clusterSectors
  if e = 0 then s.backingSector i
  else if isCompressed e then s.compressedSector e x
  else s.plainSector e x i

/-- A valid guest map: no entry is a bare flag, and the offset of a compressed
cluster determines its entry. -/
structure MapOk : Prop where
  geometry : s.Geometry
  reliable : s.Reliable
  backing : ∀ f ∈ s.backingHd, f.Reliable
  l1Ok : s.L1Ok
  entryOk : ∀ g, s.guestEntry g ≠ 0 → clearCopied (s.guestEntry g) ≠ 0
  packed : ∀ g g', isCompressed (s.guestEntry g) → isCompressed (s.guestEntry g') →
    s.clusterOffsetMask (clearCopied (s.guestEntry g)) =
      s.clusterOffsetMask (clearCopied (s.guestEntry g')) →
    clearCopied (s.guestEntry g) = clearCopied (s.guestEntry g')

/-- A valid image: every compressed cluster inflates. -/
structure ImageOk : Prop extends s.MapOk where
  inflates : ∀ g, isCompressed (s.guestEntry g) → (s.inflated (clearCopied (s.guestEntry g))).1

/-- The decompressed cluster in memory is the one it is named after. -/
def ClusterCacheOk : Prop :=
  ∀ g, isCompressed (s.guestEntry g) →
    s.clusterOffsetMask (clearCopied (s.guestEntry g)) = s.clusterCacheOffset →
    ∀ i : Fin s.clusterSize, (s.inflated (clearCopied (s.guestEntry g))).2 i = s.clusterCache i

/-- Both read caches agree with the file. -/
structure CachesOk : Prop where
  l2 : s.L2CacheOk
  cluster : s.ClusterCacheOk

variable {s}

theorem MapOk.of_core {s' : BDRVQcowState} (h : s.MapOk) (hc : s'.core = s.core) : s'.MapOk := by
  have hcore : s.core.MapOk :=
    ⟨⟨h.geometry.lo, h.geometry.hi⟩, h.reliable, fun f hf => ?_, h.l1Ok, h.entryOk, h.packed⟩
  · rw [← hc] at hcore
    refine ⟨⟨hcore.geometry.lo, hcore.geometry.hi⟩, hcore.reliable, fun f hf => ?_, hcore.l1Ok,
      hcore.entryOk, hcore.packed⟩
    exact hcore.backing { f with tick := 0 } (Option.mem_map_of_mem _ hf)
  · obtain ⟨f', hf', rfl⟩ := Option.mem_map.mp hf
    exact h.backing f' hf'

theorem ImageOk.of_core {s' : BDRVQcowState} (h : s.ImageOk) (hc : s'.core = s.core) :
    s'.ImageOk := by
  refine ⟨h.toMapOk.of_core hc, ?_⟩
  have hcore : ∀ g, isCompressed (s.core.guestEntry g) →
    (s.core.inflated (clearCopied (s.core.guestEntry g))).1 := h.inflates
  rw [← hc] at hcore
  exact hcore

theorem sectorData_of_core {s' : BDRVQcowState} (hc : s'.core = s.core) (i : ℕ) :
    s'.sectorData i = s.sectorData i := by
  have hb : ∀ s : BDRVQcowState, s.core.backingSector i = s.backingSector i := fun s => by
    funext b
    simp only [backingSector, core]
    cases s.backingHd <;> rfl
  have hd : ∀ s : BDRVQcowState, s.core.sectorData i = s.sectorData i := fun s => by
    show (if _ then s.core.backingSector i else _) = _
    rw [hb]
    rfl
  rw [← hd, hc, hd]

end BDRVQcowState

/-! ### Decompression -/

namespace BDRVQcowState

/-- The state after `decompress_cluster` of an entry that is not cached. -/
def decompressed (s : BDRVQcowState) (e t : ℕ) : BDRVQcowState :=
  { s.ticked t with
    clusterCache := fun i => if h : i < s.clusterSize then (s.inflated e).2 ⟨i, h⟩
      else s.clusterCache i
    clusterCacheOffset := if (s.inflated e).1 then s.clusterOffsetMask e else s.clusterCacheOffset }

end BDRVQcowState

/-- `decompress_cluster` on a miss. -/
theorem decompressCluster_miss {s : BDRVQcowState} (hr : s.Reliable) (hg : s.Geometry) {e : ℕ}
    (hmiss : s.clusterCacheOffset ≠ s.clusterOffsetMask e) :
    ∃ t, decompressCluster e s = ((s.inflated e).1, s.decompressed e t) := by
  have hsectors : (s.csizeMask (e / 2 ^ s.csizeShift) + 1) * 512 < 2 ^ 31 := by
    have hlt : s.csizeMask (e / 2 ^ s.csizeShift) < 2 ^ 8 :=
      lt_of_lt_of_le (Nat.mod_lt _ (Nat.two_pow_pos _))
        (Nat.pow_le_pow_right (by norm_num) (by have := hg.hi; omega))
    omega
  obtain ⟨t, ht⟩ := pread_ok hr (s.clusterOffsetMask e / 512 * 512) hsectors fun _ => 0
  refine ⟨t, ?_⟩
  have hbytes : ((List.range ((s.csizeMask (e / 2 ^ s.csizeShift) + 1) * 512 -
      s.clusterOffsetMask e % 512)).map fun i =>
        Bytes.write (fun _ => 0) 0 ((s.csizeMask (e / 2 ^ s.csizeShift) + 1) * 512)
          (s.hd.data.drop (s.clusterOffsetMask e / 512 * 512)) (s.clusterOffsetMask e % 512 + i)) =
      s.compressedBytes e := by
    refine List.map_congr_left fun i hi => ?_
    rw [List.mem_range] at hi
    rw [← Nat.zero_add (_ % 512 + i), Bytes.write_apply_of_mem (by omega), Bytes.drop_apply,
      Nat.add_assoc]
  rw [decompressCluster, bind_apply, get_apply]
  dsimp only
  rw [if_neg hmiss, bind_apply, ht]
  simp only [Bool.not_true, Bool.false_eq_true, if_false, bind_apply, modify_apply, hbytes]
  rw [show s.codec.inflate s.clusterSize (s.compressedBytes e) = s.inflated e from rfl]
  rcases hok : (s.inflated e).1
  · simp only [Bool.false_eq_true, if_false, pure_apply, BDRVQcowState.decompressed, hok]
    rfl
  · simp only [if_true, bind_apply, modify_apply, pure_apply, BDRVQcowState.decompressed, hok]

section Decompress

variable {s : BDRVQcowState} (hi : s.ImageOk) (hc : s.CachesOk) {g : ℕ}
  (hz : isCompressed (s.guestEntry g))

include hi hc hz

/-- `decompress_cluster` leaves the cluster in the cache. -/
theorem decompressCluster_ok : ∃ s', decompressCluster (clearCopied (s.guestEntry g)) s = (true, s') ∧
    s'.core = s.core ∧ s'.CachesOk ∧
    ∀ i : Fin s.clusterSize,
      s'.clusterCache i = (s.inflated (clearCopied (s.guestEntry g))).2 i := by
  by_cases hhit : s.clusterCacheOffset = s.clusterOffsetMask (clearCopied (s.guestEntry g))
  · refine ⟨s, ?_, rfl, hc, fun i => (hc.cluster g hz hhit.symm i).symm⟩
    simp [decompressCluster, bind_apply, hhit]
  obtain ⟨t, ht⟩ := decompressCluster_miss hi.reliable hi.geometry hhit
  have hok := hi.inflates g hz
  have hcache : ∀ i : Fin s.clusterSize,
      (s.decompressed (clearCopied (s.guestEntry g)) t).clusterCache i =
        (s.inflated (clearCopied (s.guestEntry g))).2 i := fun i => dif_pos i.2
  refine ⟨s.decompressed (clearCopied (s.guestEntry g)) t, by rw [ht, hok], rfl,
    ⟨hc.l2, fun g' hz' hoff i => ?_⟩, hcache⟩
  -- another entry with this offset is the same entry
  have hmask : s.clusterOffsetMask (clearCopied (s.guestEntry g')) =
      s.clusterOffsetMask (clearCopied (s.guestEntry g)) := by
    refine hoff.trans ?_
    rw [BDRVQcowState.decompressed, hok]
    rfl
  have hsame : clearCopied (s.guestEntry g') = clearCopied (s.guestEntry g) :=
    hi.packed g' g hz' hz hmask
  refine Eq.trans ?_ (hcache i).symm
  show (s.inflated (clearCopied (s.guestEntry g'))).2 i = _
  rw [hsame]

end Decompress

/-! ### One run -/

theorem mod_sector_lt (k : ℕ) : k % 512 < 512 := Nat.mod_lt k (by decide)

/-- Byte `k` of a read that starts at sector `i`. -/
def BDRVQcowState.readByte (s : BDRVQcowState) (i k : ℕ) : UInt8 :=
  s.sectorData (i + k / 512) ⟨k % 512, mod_sector_lt k⟩

section ReadRun

variable {s : BDRVQcowState} (hi : s.ImageOk) (hc : s.CachesOk) {sectorNum n : ℕ}
  (hn : n < 2 ^ 22)

include hi hc hn

/-- A run of unallocated sectors comes from the backing file. -/
theorem readRun_free (hrun : ∀ k < n, clearCopied (s.guestEntry ((sectorNum + k) / s.clusterSectors)) = 0)
    (buf : Bytes) : ∃ buf' s', readRun 0 sectorNum n buf s = ((true, buf'), s') ∧
      s'.core = s.core ∧ s'.CachesOk ∧ ∀ k < 512 * n, buf' k = s.readByte sectorNum k := by
  have hdata : ∀ k < 512 * n, s.readByte sectorNum k =
      s.backingSector (sectorNum + k / 512) ⟨k % 512, Nat.mod_lt _ (by norm_num)⟩ := fun k hk => by
    rw [BDRVQcowState.readByte, BDRVQcowState.sectorData, hrun (k / 512) (by omega)]
    rfl
  rw [readRun, bind_apply, get_apply]
  dsimp only
  rw [if_pos rfl]
  rcases hb : s.backingHd with _ | f
  · refine ⟨_, s, rfl, rfl, hc, fun k hk => ?_⟩
    rw [hdata k hk, BDRVQcowState.backingSector, hb, putSectors, ← Nat.zero_add k,
      Bytes.write_apply_of_mem hk]
  dsimp only
  have hn1 : backingRead1 (backingSectors f) sectorNum n ≤ n := by
    unfold backingRead1
    split_ifs <;> omega
  have hend : ∀ i < n, sectorNum + i < backingSectors f ↔
      i < backingRead1 (backingSectors f) sectorNum n := fun i hin => by
    unfold backingRead1
    split_ifs <;> omega
  have hzero : ∀ k < 512 * n, 512 * backingRead1 (backingSectors f) sectorNum n ≤ k →
      s.readByte sectorNum k = 0 := fun k hk hk1 => by
    rw [hdata k hk, BDRVQcowState.backingSector, hb]
    refine if_neg ?_
    rw [hend _ (by omega)]
    omega
  have hclear : ∀ k < 512 * n, 512 * backingRead1 (backingSectors f) sectorNum n ≤ k →
      buf.write (512 * backingRead1 (backingSectors f) sectorNum n)
        (512 * (n - backingRead1 (backingSectors f) sectorNum n)) (fun _ => 0) k = 0 :=
    fun k hk hk1 => by
      rw [Bytes.write, if_pos (by omega)]
  generalize backingRead1 (backingSectors f) sectorNum n = n1 at *
  by_cases h0 : n1 = 0
  · subst h0
    refine ⟨_, s, by rw [if_pos rfl]; rfl, rfl, hc, fun k hk => ?_⟩
    rw [hclear k hk (by omega), hzero k hk (by omega)]
  have hlast := (hend (n1 - 1) (by omega)).mpr (by omega)
  have hfits : ¬ f.len < (sectorNum + n1) * 512 := by
    unfold backingSectors at hlast
    omega
  obtain ⟨t, ht⟩ := HostFile.bdrvPread_ok (hi.backing f hb) (sectorNum * 512)
    (n := n1 * 512) (by omega)
    (buf.write (512 * n1) (512 * (n - n1)) fun _ => 0)
  rw [if_neg h0, backingRead, if_neg hfits]
  dsimp only
  rw [ht]
  refine ⟨_, _, rfl, ?_, ⟨hc.l2, hc.cluster⟩, fun k hk => ?_⟩
  · simp [BDRVQcowState.core, hb]
  · by_cases hk1 : k < n1 * 512
    · have haddr : sectorNum * 512 + k = (sectorNum + k / 512) * 512 + k % 512 := by
        linarith [Nat.div_add_mod k 512]
      rw [hdata k hk, BDRVQcowState.backingSector, hb, ← Nat.zero_add k,
        Bytes.write_apply_of_mem hk1, Nat.zero_add, Bytes.drop_apply]
      dsimp only
      rw [if_pos ((hend _ (by omega)).mpr (by omega)), haddr]
    · rw [Bytes.write_apply_of_ge (by omega), hclear k hk (by omega), hzero k hk (by omega)]

omit hn in
theorem readRun_compressed (hz : isCompressed (s.guestEntry (sectorNum / s.clusterSectors)))
    (hone : sectorNum % s.clusterSectors + n ≤ s.clusterSectors) (buf : Bytes) :
    ∃ buf' s', readRun (clearCopied (s.guestEntry (sectorNum / s.clusterSectors))) sectorNum n buf s =
        ((true, buf'), s') ∧
      s'.core = s.core ∧ s'.CachesOk ∧ ∀ k < 512 * n, buf' k = s.readByte sectorNum k := by
  have hne : clearCopied (s.guestEntry (sectorNum / s.clusterSectors)) ≠ 0 := by
    refine hi.entryOk _ fun h => ?_
    rw [h] at hz
    exact absurd hz (by decide)
  have hz' : isCompressed (clearCopied (s.guestEntry (sectorNum / s.clusterSectors))) := by
    rw [isCompressed_clearCopied]
    exact hz
  obtain ⟨s', hd, hcore, hc', hcache⟩ := decompressCluster_ok hi hc hz
  rw [readRun, bind_apply, get_apply]
  dsimp only
  rw [if_neg hne, if_pos hz', bind_apply, hd]
  refine ⟨_, s', rfl, hcore, hc', fun k hk => ?_⟩
  have hcs := s.clusterSectors_pos
  have hdm := Nat.div_add_mod sectorNum s.clusterSectors
  -- the run stays in the cluster of its first sector
  have hsum : sectorNum + k / 512 = sectorNum % s.clusterSectors + k / 512 +
      s.clusterSectors * (sectorNum / s.clusterSectors) := by omega
  have hlt : sectorNum % s.clusterSectors + k / 512 < s.clusterSectors := by omega
  have hdiv : (sectorNum + k / 512) / s.clusterSectors = sectorNum / s.clusterSectors := by
    rw [hsum, Nat.add_mul_div_left _ _ hcs, Nat.div_eq_of_lt hlt, Nat.zero_add]
  have hmod : (sectorNum + k / 512) % s.clusterSectors =
      sectorNum % s.clusterSectors + k / 512 := by
    rw [hsum, Nat.add_mul_mod_self_left, Nat.mod_eq_of_lt hlt]
  have haddr : (sectorNum % s.clusterSectors + k / 512) * 512 + k % 512 =
      sectorNum % s.clusterSectors * 512 + k := by
    linarith [Nat.div_add_mod k 512]
  have hin : sectorNum % s.clusterSectors * 512 + k < s.clusterSize := by
    rw [hi.geometry.clusterSize_eq]
    omega
  rw [putSectors, ← Nat.zero_add k, Bytes.write_apply_of_mem hk, Nat.zero_add, Bytes.drop_apply,
    BDRVQcowState.readByte, BDRVQcowState.sectorData, hdiv, hmod]
  dsimp only
  rw [if_neg hne, if_pos hz', BDRVQcowState.compressedSector]
  simp only [haddr]
  rw [dif_pos hin]
  exact hcache ⟨_, hin⟩

omit hc hn in
theorem plainSector_run {num q : ℕ} (he : s.guestEntry (sectorNum / s.clusterSectors) ≠ 0)
    (hq : q < s.runSectors sectorNum num)
    (hkind : isCompressed (s.guestEntry ((sectorNum + q) / s.clusterSectors)) = false) :
    s.sectorData (sectorNum + q) =
      let raw := fun j : Fin 512 =>
        s.hd.data (clearCopied (s.guestEntry (sectorNum / s.clusterSectors)) +
          sectorNum % s.clusterSectors * 512 + (q * 512 + j))
      if s.cryptMethod ≠ 0 then s.codec.decrypt (sectorNum + q) raw else raw := by
  obtain ⟨j, -, hx, hentry⟩ := runSectors_entry hi.geometry hq
  rw [if_neg he] at hentry
  have hne := hi.entryOk _ he
  have hpos : clearCopied (s.guestEntry ((sectorNum + q) / s.clusterSectors)) ≠ 0 := by omega
  have haddr : ∀ b, clearCopied (s.guestEntry ((sectorNum + q) / s.clusterSectors)) +
      (sectorNum + q) % s.clusterSectors * 512 + b =
      clearCopied (s.guestEntry (sectorNum / s.clusterSectors)) +
        sectorNum % s.clusterSectors * 512 + (q * 512 + b) := fun b => by
    rw [hentry, hi.geometry.clusterSize_eq]
    linarith
  rw [BDRVQcowState.sectorData]
  dsimp only
  rw [if_neg hpos, isCompressed_clearCopied, hkind]
  simp only [BDRVQcowState.plainSector, haddr, Bool.false_eq_true, if_false]

theorem readRun_plain {num : ℕ} (he : s.guestEntry (sectorNum / s.clusterSectors) ≠ 0)
    (hrun : n ≤ s.runSectors sectorNum num)
    (h0 : isCompressed (s.guestEntry (sectorNum / s.clusterSectors)) = false)
    (hkind : ∀ q < n, isCompressed (s.guestEntry ((sectorNum + q) / s.clusterSectors)) = false)
    (buf : Bytes) :
    ∃ buf' s', readRun (clearCopied (s.guestEntry (sectorNum / s.clusterSectors))) sectorNum n buf s =
        ((true, buf'), s') ∧
      s'.core = s.core ∧ s'.CachesOk ∧ ∀ k < 512 * n, buf' k = s.readByte sectorNum k := by
  have hne := hi.entryOk _ he
  have hz' : ¬ isCompressed (clearCopied (s.guestEntry (sectorNum / s.clusterSectors))) := by
    rw [isCompressed_clearCopied, h0]
    decide
  have hsector := fun q (hq : q < n) =>
    plainSector_run hi he (lt_of_lt_of_le hq hrun) (hkind q hq)
  generalize clearCopied (s.guestEntry (sectorNum / s.clusterSectors)) = e at *
  obtain ⟨t, ht⟩ := pread_ok hi.reliable (e + sectorNum % s.clusterSectors * 512)
    (n := n * 512) (by omega) buf
  have hread : ∀ m < n * 512, buf.write 0 (n * 512)
      (s.hd.data.drop (e + sectorNum % s.clusterSectors * 512)) m =
        s.hd.data (e + sectorNum % s.clusterSectors * 512 + m) := fun m hm => by
    rw [← Nat.zero_add m, Bytes.write_apply_of_mem hm, Nat.zero_add, Bytes.drop_apply]
  rw [readRun, bind_apply, get_apply]
  dsimp only
  rw [if_neg hne, if_neg hz', bind_apply, ht]
  simp only [Bool.not_true, Bool.false_eq_true, if_false]
  by_cases hcrypt : s.cryptMethod ≠ 0
  · rw [if_pos hcrypt]
    refine ⟨_, s.ticked t, rfl, rfl, ⟨hc.l2, hc.cluster⟩, fun k hk => ?_⟩
    rw [BDRVQcowState.readByte, hsector (k / 512) (by omega), putSectors]
    dsimp only
    rw [if_pos hcrypt, Bytes.write, if_pos (by omega), Nat.sub_zero, encryptSectors]
    congr 1
    funext j
    exact hread _ (by have := j.2; omega)
  · rw [if_neg hcrypt]
    refine ⟨_, s.ticked t, rfl, rfl, ⟨hc.l2, hc.cluster⟩, fun k hk => ?_⟩
    rw [BDRVQcowState.readByte, hsector (k / 512) (by omega), hread k (by omega)]
    dsimp only
    rw [if_neg hcrypt, Nat.mul_comm (k / 512), Nat.div_add_mod]

end ReadRun

/-! ### Reads -/

namespace BDRVQcowState

variable (s : BDRVQcowState)

/-- The runs of a read from sector `i` on keep to one kind of cluster, and a
compressed run to one cluster. -/
def RunsOk (i num : ℕ) : Prop :=
  ∀ q < num,
    (isCompressed (s.guestEntry ((i + q) / s.clusterSectors)) = true →
      (i + q) % s.clusterSectors + s.runSectors (i + q) (num - q) ≤ s.clusterSectors) ∧
    (isCompressed (s.guestEntry ((i + q) / s.clusterSectors)) = false →
      ∀ r < s.runSectors (i + q) (num - q),
        isCompressed (s.guestEntry ((i + q + r) / s.clusterSectors)) = false)

/-- The L1 index of every sector of the range fits an `int`. -/
def InRange (i num : ℕ) : Prop := ∀ q < num, (i + q) / s.clusterSectors / s.l2Size < 2 ^ 31

variable {s}

theorem RunsOk.drop {i num n : ℕ} (h : s.RunsOk i num) : s.RunsOk (i + n) (num - n) :=
  fun q hq => by
    have := h (n + q) (by omega)
    rwa [← Nat.add_assoc, Nat.sub_add_eq] at this

theorem InRange.drop {i num n : ℕ} (h : s.InRange i num) : s.InRange (i + n) (num - n) :=
  fun q hq => by
    have := h (n + q) (by omega)
    rwa [← Nat.add_assoc] at this

theorem RunsOk.of_core {s' : BDRVQcowState} {i num : ℕ} (h : s.RunsOk i num)
    (hc : s'.core = s.core) : s'.RunsOk i num := by
  have hcore : s.core.RunsOk i num := h
  rw [← hc] at hcore
  exact hcore

theorem InRange.of_core {s' : BDRVQcowState} {i num : ℕ} (h : s.InRange i num)
    (hc : s'.core = s.core) : s'.InRange i num := by
  have hcore : s.core.InRange i num := h
  rw [← hc] at hcore
  exact hcore

theorem InRange.single {i num : ℕ} (h : s.InRange 0 num) (hi : i < num) : s.InRange i 1 :=
  fun q hq => by
    obtain rfl : q = 0 := by omega
    simpa using h i hi

theorem readByte_of_core {s' : BDRVQcowState} (hc : s'.core = s.core) (i k : ℕ) :
    s'.readByte i k = s.readByte i k := by
  rw [readByte, readByte, sectorData_of_core hc]

theorem readByte_drop {i n k : ℕ} (hk : 512 * n ≤ k) :
    s.readByte (i + n) (k - 512 * n) = s.readByte i k := by
  have h1 : i + n + (k - 512 * n) / 512 = i + k / 512 := by omega
  have h2 : (k - 512 * n) % 512 = k % 512 := by omega
  simp only [readByte, h1, h2]

theorem runsOk_one (i : ℕ) : s.RunsOk i 1 := fun q hq => by
  obtain rfl : q = 0 := by omega
  have hle := runSectors_le s (i + 0) (1 - 0)
  have hx := Nat.mod_lt (i + 0) s.clusterSectors_pos
  refine ⟨fun _ => by omega, fun h r hr => ?_⟩
  obtain rfl : r = 0 := by omega
  exact h

end BDRVQcowState

section Read

variable {s : BDRVQcowState} (hi : s.ImageOk) (hc : s.CachesOk) {sectorNum num : ℕ}
  (hnum : num < 2 ^ 22)

include hi hc hnum

theorem readRun_ok (h0 : 0 < num) (hruns : s.RunsOk sectorNum num) (buf : Bytes) :
    ∃ buf' s', readRun (clearCopied (s.guestEntry (sectorNum / s.clusterSectors))) sectorNum
        (s.runSectors sectorNum num) buf s = ((true, buf'), s') ∧ s'.core = s.core ∧ s'.CachesOk ∧
      ∀ k < 512 * s.runSectors sectorNum num, buf' k = s.readByte sectorNum k := by
  have hle := runSectors_le s sectorNum num
  obtain ⟨hz, hp⟩ := hruns 0 h0
  rw [Nat.add_zero, Nat.sub_zero] at hz hp
  by_cases he : s.guestEntry (sectorNum / s.clusterSectors) = 0
  · rw [he]
    refine readRun_free hi hc (by omega) (fun k hk => ?_) buf
    obtain ⟨j, -, -, hentry⟩ := runSectors_entry hi.geometry hk
    rwa [if_pos he] at hentry
  · rcases hcomp : isCompressed (s.guestEntry (sectorNum / s.clusterSectors))
    · exact readRun_plain hi hc (by omega) he le_rfl hcomp (hp hcomp) buf
    · exact readRun_compressed hi hc hcomp (hz hcomp) buf

/-- The loop of `qcow_read` returns the content of the range. -/
theorem qcowReadLoop_ok {fuel : ℕ} (hfuel : num ≤ fuel) (hruns : s.RunsOk sectorNum num)
    (hidx : s.InRange sectorNum num) (buf : Bytes) :
    ∃ buf' s', qcowReadLoop fuel sectorNum num buf s = ((some 0, buf'), s') ∧ s'.core = s.core ∧
      s'.CachesOk ∧ ∀ k < 512 * num, buf' k = s.readByte sectorNum k := by
  induction fuel generalizing s sectorNum num buf with
  | zero =>
    obtain rfl : num = 0 := by omega
    exact ⟨buf, s, rfl, rfl, hc, fun k hk => absurd hk (by omega)⟩
  | succ fuel ih =>
    rcases num with _ | num
    · exact ⟨buf, s, rfl, rfl, hc, fun k hk => absurd hk (by omega)⟩
    obtain ⟨c, o, n, t, hg, hl2⟩ := getClusterOffset_ok hi.geometry sectorNum hi.reliable hc.l2 hi.l1Ok
      (show num + 1 < 2 ^ 30 by omega) (hidx 0 (by omega))
    have hpos : 0 < s.runSectors sectorNum (num + 1) :=
      runSectors_pos (by omega) (hi.entryOk _)
    have hle := runSectors_le s sectorNum (num + 1)
    obtain ⟨buf1, s2, hrun, hcore, hc2, hbuf1⟩ := readRun_ok (s := s.l2Cached c o n t)
      (hi.of_core rfl) ⟨hl2, hc.cluster⟩ hnum (Nat.succ_pos num) hruns buf
    replace hcore : s2.core = s.core := hcore
    replace hrun : readRun (clearCopied (s.guestEntry (sectorNum / s.clusterSectors))) sectorNum
      (s.runSectors sectorNum (num + 1)) buf (s.l2Cached c o n t) = ((true, buf1), s2) := hrun
    replace hbuf1 : ∀ k < 512 * s.runSectors sectorNum (num + 1),
        buf1 k = s.readByte sectorNum k := fun k hk =>
      (hbuf1 k hk).trans (BDRVQcowState.readByte_of_core rfl _ _)
    obtain ⟨buf2, s3, hloop, hcore3, hc3, hbuf2⟩ := ih (hi.of_core hcore) hc2
      (show num + 1 - s.runSectors sectorNum (num + 1) < 2 ^ 22 by omega) (by omega)
      (hruns.drop.of_core hcore) (hidx.drop.of_core hcore)
      (buf1.drop (512 * s.runSectors sectorNum (num + 1)))
    refine ⟨fun i => if i < 512 * s.runSectors sectorNum (num + 1) then buf1 i
      else buf2 (i - 512 * s.runSectors sectorNum (num + 1)), s3, ?_, hcore3.trans hcore, hc3,
      fun k hk => ?_⟩
    · rw [qcowReadLoop, bind_apply, hg]
      dsimp only
      rw [bind_apply, hrun]
      simp only [Bool.not_true, Bool.false_eq_true, if_false, bind_apply, pure_apply, hloop]
    · dsimp only
      split_ifs with hfront
      · exact hbuf1 k hfront
      · rw [hbuf2 _ (by omega), BDRVQcowState.readByte_of_core hcore,
          BDRVQcowState.readByte_drop (by omega)]

theorem qcowRead_ok (hruns : s.RunsOk sectorNum num) (hidx : s.InRange sectorNum num) (buf : Bytes) :
    ∃ buf' s', qcowRead sectorNum num buf s = ((some 0, buf'), s') ∧ s'.core = s.core ∧
      s'.CachesOk ∧ ∀ k < 512 * num, buf' k = s.readByte sectorNum k :=
  qcowReadLoop_ok hi hc hnum le_rfl hruns hidx buf

end Read

end Ar7Qemu.Qcow2
