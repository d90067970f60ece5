import Ar7Qemu.Qcow2.View
import Ar7Qemu.Qcow2.CreateOpen

/-! Runs that `get_cluster_offset` reports, against the lookup of each of their
sectors. Contiguity is decided on entries that still carry the compressed flag.
Proved: a run agrees with its sectors exactly when the sector count stays an
`int`, its first entry is not a bare copied flag, and no entry that continues it
is compressed. -/

namespace Ar7Qemu.Qcow2

open Lib Block

namespace BDRVQcowState

variable (s : BDRVQcowState)

/-- The L2 table that a lookup of a guest sector reads from, if there is one. -/
def l2TableAt (sectorNum : ℕ) : Option (ℕ → ℕ) :=
  let l1Index := l1IndexOf s (sectorNum * 512)
  if s.l1Size ≤ l1Index then none
  else if s.l1Table l1Index.toNat = 0 then none
  else
    let r := l2Load (clearCopied (s.l1Table l1Index.toNat)) s
    r.1.map r.2.l2Cache

def l2IndexAt (sectorNum : ℕ) : ℕ := sectorNum / s.clusterSectors % s.l2Size

/-- Entry `k` of a run is `k` clusters after the first one. -/
def Continues (l2Table : ℕ → ℕ) (k : ℕ) : Prop :=
  clearCopied (l2Table k) = clearCopied (l2Table 0) + k * s.clusterSize

/-- What the first entry of a run and those that continue it have to be: an entry
with an offset, followed by uncompressed ones in the `needed` sectors. -/
structure RunEntries (l2Table : ℕ → ℕ) (room needed : ℕ) : Prop where
  offset : clearCopied (l2Table 0) ≠ 0
  plain : ∀ k, 0 < k → k < room → k * s.clusterSectors < needed →
    (∀ j ≤ k, s.Continues l2Table j) → isCompressed (l2Table k) = false

/-- The entry, without the copied flag, that a lookup of one sector returns. -/
def sectorEntry (sectorNum : ℕ) : ℕ := (getClusterOffset (sectorNum * 512) 1 s).1.1

/-- Sector `k` of a run at `clusterOffset`, looked up on its own. -/
def SectorAgrees (sectorNum clusterOffset k : ℕ) : Prop :=
  let e := s.sectorEntry (sectorNum + k)
  if clusterOffset = 0 then e = 0
  else if isCompressed clusterOffset then
    isCompressed e ∧ (sectorNum + k) / s.clusterSectors = sectorNum / s.clusterSectors
  else e ≠ 0 ∧ isCompressed e = false ∧ e + 512 * ((sectorNum + k) % s.clusterSectors) =
    clusterOffset + 512 * (sectorNum % s.clusterSectors + k)

/-- The run reported for `num` sectors is not empty, not longer than asked for,
and its sectors are what the run says. -/
def LookupAgrees (sectorNum num : ℕ) : Prop :=
  let r := (getClusterOffset (sectorNum * 512) num s).1
  1 ≤ r.2 ∧ r.2 ≤ num ∧ ∀ k < r.2, s.SectorAgrees sectorNum r.1 k

/-- Clusters that continue the first entry of `l2Table`, at most `n`. -/
def tableRun (l2Table : ℕ → ℕ) (n : ℕ) : ℕ :=
  if l2Table 0 = 0 then countContiguousFreeClusters n l2Table
  else countContiguousClusters n s.clusterSize l2Table 0 clearCopied

end BDRVQcowState

/-! ### The lookup with its table -/

section Table

variable {s : BDRVQcowState} (hg : s.Geometry) (hr : s.Reliable) (sectorNum num : ℕ)

theorem l2Load_isSome (hr : s.Reliable) (hg : s.Geometry) (off : ℕ) :
    ∃ slot s', l2Load off s = (some slot, s') := by
  rw [l2Load, bind_apply]
  obtain ⟨hseek, -⟩ | ⟨slot, n, -, -, hseek⟩ := seekL2Table_cases s off
  · have hl2 := hg.l2Size_le
    obtain ⟨t, ht⟩ := preadTable_ok hr off (w := 8) (n := s.l2Size) (by omega)
      (s.l2Cache (l2CacheNewEntry s))
    simp only [hseek, bind_apply, get_apply, ht, modify_apply, Bool.not_true, Bool.false_eq_true,
      if_false, pure_apply]
    exact ⟨_, _, rfl⟩
  · rw [hseek]
    exact ⟨slot, _, rfl⟩

theorem l2TableAt_congr (hg : s.Geometry) {a b : ℕ}
    (h : a / s.clusterSectors / s.l2Size = b / s.clusterSectors / s.l2Size) :
    s.l2TableAt a = s.l2TableAt b := by
  have hidx : l1IndexOf s (a * 512) = l1IndexOf s (b * 512) := by
    simp only [l1IndexOf, hg.two_pow_l1Bits, Nat.mul_comm _ 512,
      Nat.mul_div_mul_left _ _ (show 0 < 512 by norm_num), Nat.mul_comm s.l2Size,
      ← Nat.div_div_eq_div_mul, h]
  simp only [BDRVQcowState.l2TableAt, hidx]

include hg hr

omit hr in
theorem sectorsLeft_int :
    (((2 ^ s.l1Bits - sectorNum * 512 % 2 ^ s.l1Bits) / 512 : ℕ) : ℤ) +
      (sectorNum % s.clusterSectors : ℕ) =
        ((s.l2Size - s.l2IndexAt sectorNum) * s.clusterSectors : ℕ) := by
  rw [← Nat.cast_add, sectorsLeft hg sectorNum, BDRVQcowState.l2IndexAt]

theorem getClusterOffset_none (h : s.l2TableAt sectorNum = none) :
    (getClusterOffset (sectorNum * 512) num s).1 =
      (0, (min (toInt32 (num + sectorNum % s.clusterSectors))
        ((s.l2Size - s.l2IndexAt sectorNum) * s.clusterSectors : ℕ) -
          (sectorNum % s.clusterSectors : ℕ)).toNat) := by
  have h512 : sectorNum * 512 / 512 = sectorNum := Nat.mul_div_cancel _ (by norm_num)
  rw [getClusterOffset, bind_apply, get_apply]
  simp only [h512, sectorsLeft_int hg, BDRVQcowState.l2TableAt] at h ⊢
  split_ifs at h ⊢ with h1 h2
  · rw [pure_apply, min_eq_right (min_le_right _ _)]
  · rw [pure_apply, min_eq_right (min_le_right _ _)]
  · obtain ⟨slot, s', hload⟩ := l2Load_isSome hr hg
      (clearCopied (s.l1Table (l1IndexOf s (sectorNum * 512)).toNat))
    rw [hload] at h
    cases h

omit hr in
/-- A lookup with a table `t`. -/
theorem getClusterOffset_some {t : ℕ → ℕ} (h : s.l2TableAt sectorNum = some t) :
    (getClusterOffset (sectorNum * 512) num s).1 =
      (clearCopied (t (s.l2IndexAt sectorNum)),
        (min ((s.tableRun (fun k => t (s.l2IndexAt sectorNum + k)) (toUInt64 (s.sizeToClustersInt
            (min (toInt32 (num + sectorNum % s.clusterSectors))
              ((s.l2Size - s.l2IndexAt sectorNum) * s.clusterSectors : ℕ) * 512))) : ℕ) *
            s.clusterSectors : ℤ)
          (min (toInt32 (num + sectorNum % s.clusterSectors))
            ((s.l2Size - s.l2IndexAt sectorNum) * s.clusterSectors : ℕ)) -
          (sectorNum % s.clusterSectors : ℕ)).toNat) := by
  have h512 : sectorNum * 512 / 512 = sectorNum := Nat.mul_div_cancel _ (by norm_num)
  rw [getClusterOffset, bind_apply, get_apply]
  simp only [h512, sectorsLeft_int hg, BDRVQcowState.l2TableAt] at h ⊢
  split_ifs at h ⊢ with h1 h2
  rw [bind_apply]
  rcases hl : l2Load (clearCopied (s.l1Table (l1IndexOf s (sectorNum * 512)).toNat)) s with
    ⟨_ | slot, s'⟩
  · rw [hl] at h
    cases h
  · rw [hl] at h
    obtain rfl : s'.l2Cache slot = t := Option.some.inj h
    simp only [bind_apply, get_apply, pure_apply, l2IndexOf_sector hg, BDRVQcowState.tableRun,
      Nat.add_zero]
    rfl

theorem sectorEntry_eq : s.sectorEntry sectorNum =
    match s.l2TableAt sectorNum with
    | none => 0
    | some t => clearCopied (t (s.l2IndexAt sectorNum)) := by
  rw [BDRVQcowState.sectorEntry]
  cases h : s.l2TableAt sectorNum with
  | none => rw [getClusterOffset_none hg hr sectorNum 1 h]
  | some t => rw [getClusterOffset_some hg sectorNum 1 h]

end Table

/-! ### The run in its table -/

section Run

variable {s : BDRVQcowState} {l2Table : ℕ → ℕ} {k n : ℕ}

theorem tableRun_free (hk : k < s.tableRun l2Table n) (h0 : l2Table 0 = 0) : l2Table k = 0 := by
  rw [BDRVQcowState.tableRun, if_pos h0, countContiguousFreeClusters] at hk
  have := countRun_spec _ hk
  rw [Nat.zero_add] at this
  exact of_decide_eq_true this

section Contiguous

variable (hg : s.Geometry) (hsize : n ≤ s.l2Size)

include hg hsize

theorem tableRun_continues (h0 : l2Table 0 ≠ 0) (hk : k < s.tableRun l2Table n) :
    clearCopied (l2Table 0) ≠ 0 ∧ s.Continues l2Table k := by
  have hbound := hg.clusters_le hsize
  rw [BDRVQcowState.tableRun, if_neg h0, countContiguousClusters_clearCopied (by omega)] at hk
  split_ifs at hk with h1
  · exact absurd hk (Nat.not_lt_zero _)
  · have := countRun_spec _ hk
    rw [Nat.zero_add] at this
    exact ⟨h1, (of_decide_eq_true this).symm⟩

theorem lt_tableRun (h0 : clearCopied (l2Table 0) ≠ 0) (hn : k < n)
    (h : ∀ j ≤ k, s.Continues l2Table j) : k < s.tableRun l2Table n := by
  have hne : l2Table 0 ≠ 0 := by
    rintro hz
    exact h0 (by rw [hz]; rfl)
  have hbound := hg.clusters_le hsize
  rw [BDRVQcowState.tableRun, if_neg hne, countContiguousClusters_clearCopied (by omega), if_neg h0]
  apply le_countRun hn
  intro j hj
  rw [Nat.zero_add]
  exact decide_eq_true (h j (by omega)).symm

theorem tableRun_pos (h : l2Table 0 ≠ 0 → clearCopied (l2Table 0) ≠ 0) (hn : 0 < n) :
    0 < s.tableRun l2Table n := by
  by_cases h0 : l2Table 0 = 0
  · rw [BDRVQcowState.tableRun, if_pos h0]
    exact countRun_pos (decide_eq_true h0) hn
  · apply lt_tableRun hg hsize (h h0) hn
    intro j hj
    obtain rfl : j = 0 := by omega
    rw [BDRVQcowState.Continues, Nat.zero_mul, Nat.add_zero]

end Contiguous

theorem isCompressed_continues (hk : s.Continues l2Table k) (h : isCompressed (l2Table 0)) :
    isCompressed (l2Table k) := by
  rw [← isCompressed_clearCopied] at h ⊢
  have hlt : clearCopied (l2Table k) < 2 ^ 63 := Nat.mod_lt _ (by norm_num)
  simp only [isCompressed, decide_eq_true_eq] at h ⊢
  rw [BDRVQcowState.Continues] at hk
  omega

end Run

/-! ### The report against the sectors -/

section Agrees

variable {s : BDRVQcowState} (hg : s.Geometry) (hr : s.Reliable) {sectorNum num : ℕ}

include hg hr

/-- A sector under the same L1 entry, looked up on its own. -/
theorem sectorEntry_add {k : ℕ} (hk : sectorNum % s.clusterSectors + k <
      (s.l2Size - s.l2IndexAt sectorNum) * s.clusterSectors) :
    ∃ j, (sectorNum + k) / s.clusterSectors = sectorNum / s.clusterSectors + j ∧
      sectorNum % s.clusterSectors + k = j * s.clusterSectors + (sectorNum + k) % s.clusterSectors ∧
      j < s.l2Size - s.l2IndexAt sectorNum ∧ s.sectorEntry (sectorNum + k) =
        match s.l2TableAt sectorNum with
        | none => 0
        | some t => clearCopied (t (s.l2IndexAt sectorNum + j)) := by
  obtain ⟨j, h1, h2, hj⟩ := cluster_split s.clusterSectors_pos hk
  refine ⟨j, h1, h2, hj, ?_⟩
  rw [BDRVQcowState.l2IndexAt] at hj
  obtain ⟨hdiv, hmod⟩ := s.guestEntry_add (g := sectorNum / s.clusterSectors) (k := j) (by omega)
  have htable : s.l2TableAt (sectorNum + k) = s.l2TableAt sectorNum :=
    l2TableAt_congr hg (by rw [h1, hdiv])
  have hindex : s.l2IndexAt (sectorNum + k) = s.l2IndexAt sectorNum + j := by
    rw [BDRVQcowState.l2IndexAt, h1, hmod, BDRVQcowState.l2IndexAt]
  rw [sectorEntry_eq hg hr, htable, hindex]

/-- A count that overflows with the index in the cluster reports an empty run. -/
theorem getClusterOffset_overflow (hnum : num < 2 ^ 31)
    (hover : 2 ^ 31 ≤ num + sectorNum % s.clusterSectors) :
    (getClusterOffset (sectorNum * 512) num s).1.2 = 0 := by
  have hcs := hg.clusterSectors_le
  have hx := Nat.mod_lt sectorNum s.clusterSectors_pos
  have hneg : toInt32 (num + sectorNum % s.clusterSectors) < 0 := by
    rw [toInt32, Nat.mod_eq_of_lt (by omega), if_neg (by omega)]
    omega
  cases h : s.l2TableAt sectorNum with
  | none =>
    rw [getClusterOffset_none hg hr sectorNum num h]
    generalize ((s.l2Size - s.l2IndexAt sectorNum) * s.clusterSectors : ℕ) = left
    dsimp only
    omega
  | some t =>
    rw [getClusterOffset_some hg sectorNum num h]
    generalize ((s.l2Size - s.l2IndexAt sectorNum) * s.clusterSectors : ℕ) = left
    dsimp only
    omega

section Needed

variable (hnum : num + sectorNum % s.clusterSectors < 2 ^ 31)

include hnum

omit hg hr in
theorem needed_int : min (toInt32 (num + sectorNum % s.clusterSectors))
    ((s.l2Size - s.l2IndexAt sectorNum) * s.clusterSectors : ℕ) =
      (s.runNeeded sectorNum num : ℕ) := by
  rw [toInt32, Nat.mod_eq_of_lt (by omega), if_pos hnum, BDRVQcowState.runNeeded,
    BDRVQcowState.l2IndexAt, Nat.cast_min]

theorem report_none (h : s.l2TableAt sectorNum = none) :
    (getClusterOffset (sectorNum * 512) num s).1 =
      (0, s.runNeeded sectorNum num - sectorNum % s.clusterSectors) := by
  rw [getClusterOffset_none hg hr sectorNum num h, needed_int hnum]
  congr 1
  omega

omit hr in
theorem report_some {t : ℕ → ℕ} (h : s.l2TableAt sectorNum = some t) :
    (getClusterOffset (sectorNum * 512) num s).1 =
      (clearCopied (t (s.l2IndexAt sectorNum)),
        min (s.tableRun (fun k => t (s.l2IndexAt sectorNum + k))
            ((s.runNeeded sectorNum num + s.clusterSectors - 1) / s.clusterSectors) *
            s.clusterSectors) (s.runNeeded sectorNum num) - sectorNum % s.clusterSectors) := by
  rw [getClusterOffset_some hg sectorNum num h, needed_int hnum, neededClusters_eq hg]
  congr 1
  rw [← Nat.cast_mul]
  omega

omit hg hr hnum in
theorem neededClusters_le (sectorNum num : ℕ) :
    (s.runNeeded sectorNum num + s.clusterSectors - 1) / s.clusterSectors ≤ s.l2Size :=
  (s.runNeeded_clusters_le sectorNum num).trans (Nat.sub_le _ _)

omit hg hr hnum in
theorem runNeeded_le_num : s.runNeeded sectorNum num ≤ num + sectorNum % s.clusterSectors :=
  min_le_left _ _

omit hg hr hnum in
theorem lt_runNeeded (hpos : 0 < num) :
    sectorNum % s.clusterSectors < s.runNeeded sectorNum num := by
  have hx := Nat.mod_lt sectorNum s.clusterSectors_pos
  have hroom : 0 < s.l2Size - sectorNum / s.clusterSectors % s.l2Size :=
    Nat.sub_pos_of_lt (Nat.mod_lt _ s.l2Size_pos)
  have hleft := Nat.le_mul_of_pos_left s.clusterSectors hroom
  rw [BDRVQcowState.runNeeded]
  omega

/-- Without an L2 table every sector of the run is unallocated. -/
theorem lookupAgrees_none (hpos : 0 < num) (h : s.l2TableAt sectorNum = none) :
    s.LookupAgrees sectorNum num := by
  have hlt : sectorNum % s.clusterSectors < s.runNeeded sectorNum num := lt_runNeeded hpos
  have hle : s.runNeeded sectorNum num ≤ num + sectorNum % s.clusterSectors := runNeeded_le_num
  have hroom := s.runNeeded_le sectorNum num
  rw [BDRVQcowState.LookupAgrees, report_none hg hr hnum h]
  refine ⟨by dsimp only; omega, by dsimp only; omega, fun k hk => ?_⟩
  have hin : sectorNum % s.clusterSectors + k <
      (s.l2Size - s.l2IndexAt sectorNum) * s.clusterSectors := by
    rw [BDRVQcowState.l2IndexAt]
    dsimp only at hk
    omega
  obtain ⟨j, -, -, -, he⟩ := sectorEntry_add hg hr hin
  rw [h] at he
  rw [BDRVQcowState.SectorAgrees, if_pos rfl]
  exact he

variable {t : ℕ → ℕ} (ht : s.l2TableAt sectorNum = some t)

include ht

omit hr in
/-- The sector at the start of cluster `k` of the run is in the report. -/
theorem lt_report {k : ℕ} (hk : 0 < k) (hroom : k < s.l2Size - s.l2IndexAt sectorNum)
    (hneed : k * s.clusterSectors < num + sectorNum % s.clusterSectors)
    (h0 : clearCopied (t (s.l2IndexAt sectorNum)) ≠ 0)
    (hcont : ∀ j ≤ k, s.Continues (fun k => t (s.l2IndexAt sectorNum + k)) j) :
    k * s.clusterSectors - sectorNum % s.clusterSectors <
      (getClusterOffset (sectorNum * 512) num s).1.2 := by
  have hcs := s.clusterSectors_pos
  have hx := Nat.mod_lt sectorNum hcs
  have hkcs := Nat.le_mul_of_pos_left s.clusterSectors hk
  have hlt : k * s.clusterSectors < s.runNeeded sectorNum num := by
    rw [BDRVQcowState.runNeeded, lt_min_iff]
    exact ⟨hneed, Nat.mul_lt_mul_of_pos_right hroom hcs⟩
  have hclusters : k < (s.runNeeded sectorNum num + s.clusterSectors - 1) / s.clusterSectors := by
    rw [← Nat.succ_le_iff, Nat.le_div_iff_mul_le hcs, Nat.succ_mul]
    omega
  have hrun : k < s.tableRun (fun k => t (s.l2IndexAt sectorNum + k)) _ :=
    lt_tableRun hg (neededClusters_le sectorNum num) h0 hclusters hcont
  have hmul := Nat.mul_lt_mul_of_pos_right hrun hcs
  rw [report_some hg hnum ht]
  dsimp only
  omega

/-- The first entry of a run that agrees has an offset, and what continues it is
not compressed. -/
theorem runEntries_of_agrees (h0 : t (s.l2IndexAt sectorNum) ≠ 0)
    (hagrees : s.LookupAgrees sectorNum num) :
    s.RunEntries (fun k => t (s.l2IndexAt sectorNum + k)) (s.l2Size - s.l2IndexAt sectorNum)
      (num + sectorNum % s.clusterSectors) := by
  have hcs := s.clusterSectors_pos
  have hx := Nat.mod_lt sectorNum hcs
  have hoffset : clearCopied (t (s.l2IndexAt sectorNum)) ≠ 0 := by
    obtain ⟨hpos, -⟩ := hagrees
    rw [report_some hg hnum ht] at hpos
    dsimp only at hpos
    have hrun : 0 < s.tableRun (fun k => t (s.l2IndexAt sectorNum + k))
        ((s.runNeeded sectorNum num + s.clusterSectors - 1) / s.clusterSectors) := by
      rw [Nat.pos_iff_ne_zero]
      intro hz
      rw [hz] at hpos
      omega
    exact (tableRun_continues hg (neededClusters_le sectorNum num) h0 hrun).1
  refine ⟨hoffset, fun k hk hroom hneed hcont => ?_⟩
  by_contra hcomp
  rw [Bool.not_eq_false] at hcomp
  obtain ⟨-, -, hsector⟩ := hagrees
  have hkcs := Nat.le_mul_of_pos_left s.clusterSectors hk
  -- the first sector of the cluster that is compressed
  have hin := hsector _ (lt_report hg hnum ht hk hroom hneed hoffset hcont)
  have hinside : sectorNum % s.clusterSectors +
      (k * s.clusterSectors - sectorNum % s.clusterSectors) <
      (s.l2Size - s.l2IndexAt sectorNum) * s.clusterSectors := by
    have := Nat.mul_lt_mul_of_pos_right hroom hcs
    omega
  obtain ⟨j, h1, h2, -, he⟩ := sectorEntry_add hg hr hinside
  have hj : j = k := by
    have hmod := Nat.mod_lt (sectorNum + (k * s.clusterSectors - sectorNum % s.clusterSectors)) hcs
    have hsum : k * s.clusterSectors = j * s.clusterSectors +
        (sectorNum + (k * s.clusterSectors - sectorNum % s.clusterSectors)) % s.clusterSectors := by
      omega
    have hdiv := congrArg (· / s.clusterSectors) hsum
    simp only [Nat.mul_div_cancel _ hcs] at hdiv
    rw [Nat.add_comm, Nat.add_mul_div_right _ _ hcs, Nat.div_eq_of_lt hmod, Nat.zero_add] at hdiv
    exact hdiv.symm
  subst hj
  rw [ht] at he
  rw [BDRVQcowState.SectorAgrees, report_some hg hnum ht, if_neg hoffset, he] at hin
  split_ifs at hin with hc
  · omega
  · rw [isCompressed_clearCopied] at hin
    exact absurd (hin.2.1.symm.trans hcomp) Bool.false_ne_true

theorem agrees_of_runEntries (hpos : 0 < num)
    (h : t (s.l2IndexAt sectorNum) ≠ 0 →
      s.RunEntries (fun k => t (s.l2IndexAt sectorNum + k)) (s.l2Size - s.l2IndexAt sectorNum)
        (num + sectorNum % s.clusterSectors)) :
    s.LookupAgrees sectorNum num := by
  have hcs := s.clusterSectors_pos
  have hx := Nat.mod_lt sectorNum hcs
  have hlt : sectorNum % s.clusterSectors < s.runNeeded sectorNum num := lt_runNeeded hpos
  have hle : s.runNeeded sectorNum num ≤ num + sectorNum % s.clusterSectors := runNeeded_le_num
  have hroom := s.runNeeded_le sectorNum num
  have hrun : 0 < s.tableRun (fun k => t (s.l2IndexAt sectorNum + k)) _ :=
    tableRun_pos hg (neededClusters_le sectorNum num) (fun h0 => (h h0).offset)
      (Nat.div_pos (by omega) hcs)
  have hmul := Nat.le_mul_of_pos_left s.clusterSectors hrun
  rw [BDRVQcowState.LookupAgrees, report_some hg hnum ht]
  refine ⟨by dsimp only; omega, by dsimp only; omega, fun k hk => ?_⟩
  dsimp only at hk ⊢
  have hin : sectorNum % s.clusterSectors + k <
      (s.l2Size - s.l2IndexAt sectorNum) * s.clusterSectors := by
    rw [BDRVQcowState.l2IndexAt]
    omega
  obtain ⟨j, h1, h2, hj', he⟩ := sectorEntry_add hg hr hin
  rw [ht] at he
  dsimp only at he
  have hj : j < s.tableRun (fun k => t (s.l2IndexAt sectorNum + k))
      ((s.runNeeded sectorNum num + s.clusterSectors - 1) / s.clusterSectors) :=
    Nat.lt_of_mul_lt_mul_right (show j * s.clusterSectors < _ * s.clusterSectors by omega)
  rw [BDRVQcowState.SectorAgrees, he]
  by_cases h0 : t (s.l2IndexAt sectorNum) = 0
  · have hfree : t (s.l2IndexAt sectorNum + j) = 0 :=
      (tableRun_free hj h0 :)
    rw [h0, hfree]
    rfl
  obtain ⟨hoffset, hplain⟩ := h h0
  replace hoffset : clearCopied (t (s.l2IndexAt sectorNum)) ≠ 0 := hoffset
  have hcont : ∀ i ≤ j, s.Continues (fun k => t (s.l2IndexAt sectorNum + k)) i := fun i hi =>
    (tableRun_continues hg (neededClusters_le sectorNum num) h0 (lt_of_le_of_lt hi hj)).2
  have hlater : 0 < j → isCompressed (t (s.l2IndexAt sectorNum + j)) = false := fun hj0 =>
    hplain j hj0 hj' (by omega) hcont
  have hentry : clearCopied (t (s.l2IndexAt sectorNum + j)) =
      clearCopied (t (s.l2IndexAt sectorNum)) + j * s.clusterSize := hcont j le_rfl
  rw [if_neg hoffset, isCompressed_clearCopied, isCompressed_clearCopied]
  split_ifs with hc
  · have hfirst : isCompressed (t (s.l2IndexAt sectorNum + j)) :=
      (isCompressed_continues (hcont j le_rfl) hc :)
    obtain rfl : j = 0 := by
      by_contra hj0
      exact absurd ((hlater (by omega)).symm.trans hfirst) Bool.false_ne_true
    exact ⟨hfirst, h1⟩
  · refine ⟨fun hz => hoffset (by rw [hz] at hentry; omega), ?_, ?_⟩
    · obtain rfl | hj0 := Nat.eq_zero_or_pos j
      · simpa using hc
      · exact hlater hj0
    · rw [hentry, hg.clusterSize_eq, h2]
      ring

end Needed

/-- A reported run agrees with the lookup of each of its sectors exactly when its
length stays an `int` and the entries under it are as they have to be. -/
theorem get_cluster_offset_run_iff (hpos : 0 < num) (hint : num < 2 ^ 31) :
    s.LookupAgrees sectorNum num ↔ num + sectorNum % s.clusterSectors < 2 ^ 31 ∧
      ∀ t, s.l2TableAt sectorNum = some t → t (s.l2IndexAt sectorNum) ≠ 0 →
        s.RunEntries (fun k => t (s.l2IndexAt sectorNum + k))
          (s.l2Size - s.l2IndexAt sectorNum) (num + sectorNum % s.clusterSectors) := by
  constructor
  · intro h
    have hnum : num + sectorNum % s.clusterSectors < 2 ^ 31 := by
      by_contra hover
      have hzero := getClusterOffset_overflow hg hr hint (Nat.le_of_not_lt hover)
      have hone := h.1
      omega
    exact ⟨hnum, fun t ht h0 => runEntries_of_agrees hg hr hnum ht h0 h⟩
  · rintro ⟨hnum, h⟩
    cases ht : s.l2TableAt sectorNum with
    | none => exact lookupAgrees_none hg hr hnum hpos ht
    | some t => exact agrees_of_runEntries hg hr hnum ht hpos (h t ht)

end Agrees

/-- An L2 table at 4096 with two compressed entries one cluster apart. -/
def compressedPair : BDRVQcowState :=
  { blankState
      { data := fun k => if k = 4096 ∨ k = 4104 then 0x40
          else if k = 4102 then 0x50 else if k = 4110 then 0x60 else 0
        len := 28672
        io := fun _ => none
        tick := 0 } plainCodec with
    totalSectors := 16
    clusterBits := 12
    l1Size := 1
    l1Table := fun _ => setCopied 4096 }

theorem compressedPair_first_cluster : compressedPair.LookupAgrees 0 8 := by
  refine (get_cluster_offset_run_iff ⟨by decide, by decide⟩ (fun _ => rfl) (by decide)
    (by decide)).mpr ⟨by decide, fun t ht h0 => ⟨?_, fun k hk _ hlt => ?_⟩⟩
  · have ht0 : t 0 = 2 ^ 62 + 0x5000 := by
      have hentry : (compressedPair.l2TableAt 0).map (· 0) = some (2 ^ 62 + 0x5000) := by
        decide +kernel
      rw [ht] at hentry
      exact Option.some.inj hentry
    change clearCopied (t 0) ≠ 0
    rw [ht0]
    decide
  · change k * 8 < 8 at hlt
    omega

/-- The run over both clusters is reported for the first one. -/
theorem compressedPair_run_too_long : ¬ compressedPair.LookupAgrees 0 16 := by
  rintro ⟨-, -, h⟩
  have hreport : (getClusterOffset (0 * 512) 16 compressedPair).1 = (2 ^ 62 + 0x5000, 16) := by
    decide +kernel
  have hsector := h 8 (by rw [hreport]; decide)
  rw [hreport, BDRVQcowState.SectorAgrees, if_neg (by decide), if_pos (by decide)] at hsector
  exact absurd hsector.2 (by decide)

end Ar7Qemu.Qcow2
