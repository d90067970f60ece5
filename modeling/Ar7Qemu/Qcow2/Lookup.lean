import Ar7Qemu.Qcow2.Reliable
import Ar7Qemu.Qcow2.Cluster
import Mathlib.Tactic.LinearCombination

/-! Cluster lookups on a reliable file. The map from guest clusters to L2 entries
is a function of the L1 table and the file alone. Proved: when the L2 cache holds
the tables it is named after, `get_cluster_offset` returns the entry of the map
and the length of a run of it, and changes nothing but the cache. -/

namespace Ar7Qemu.Qcow2

open Lib Block

namespace BDRVQcowState

/-- The cluster sizes that `qcow_open` accepts. -/
structure Geometry (s : BDRVQcowState) : Prop where
  lo : 9 ≤ s.clusterBits
  hi : s.clusterBits ≤ 16

/-- The state without its caches and request counters. -/
def core (s : BDRVQcowState) : BDRVQcowState :=
  { s with
    hd := { s.hd with tick := 0 }
    backingHd := s.backingHd.map fun f => { f with tick := 0 }
    l2Cache := fun _ _ => 0
    l2CacheOffsets := fun _ => 0
    l2CacheCounts := fun _ => 0
    clusterCache := fun _ => 0
    clusterCacheOffset := noOffset
    refcountBlockCache := fun _ => 0
    refcountBlockCacheOffset := 0 }

/-- Every slot of the L2 cache holds the table it is named after. -/
def L2CacheOk (s : BDRVQcowState) : Prop :=
  ∀ i < l2CacheSize, s.l2CacheOffsets i ≠ 0 → ∀ j < s.l2Size,
    s.l2Cache i j = s.hd.data.word 8 (s.l2CacheOffsets i + 8 * j)

def l2Cached (s : BDRVQcowState) (c : ℕ → ℕ → ℕ) (o n : ℕ → ℕ) (t : ℕ) : BDRVQcowState :=
  { s with
    l2Cache := c
    l2CacheOffsets := o
    l2CacheCounts := n
    hd := { s.hd with tick := t } }

/-- The L2 entry of guest cluster `g`, zero when it has no L2 table. -/
def guestEntry (s : BDRVQcowState) (g : ℕ) : ℕ :=
  if s.l1Size ≤ g / s.l2Size then 0
  else if s.l1Table (g / s.l2Size) = 0 then 0
  else s.hd.data.word 8 (clearCopied (s.l1Table (g / s.l2Size)) + 8 * (g % s.l2Size))

/-- No L1 entry is a bare flag. -/
def L1Ok (s : BDRVQcowState) : Prop :=
  ∀ i < s.l1Size, s.l1Table i ≠ 0 → clearCopied (s.l1Table i) ≠ 0

section Sizes

variable (s : BDRVQcowState)

theorem clusterSectors_pos : 0 < s.clusterSectors := Nat.two_pow_pos _

theorem l2Size_pos : 0 < s.l2Size := Nat.two_pow_pos _

theorem clusterSize_pos : 0 < s.clusterSize := Nat.two_pow_pos _

variable {s} (hg : s.Geometry)

include hg

theorem Geometry.clusterSize_eq : s.clusterSize = 512 * s.clusterSectors := by
  rw [clusterSize, clusterSectors, show s.clusterBits = 9 + (s.clusterBits - 9) by
    have := hg.lo; omega, pow_add, Nat.add_sub_cancel_left]
  norm_num

theorem Geometry.clusterSize_eq' : s.clusterSize = 8 * s.l2Size := by
  rw [clusterSize, l2Size, l2Bits, show s.clusterBits = 3 + (s.clusterBits - 3) by
    have := hg.lo; omega, pow_add, Nat.add_sub_cancel_left]
  norm_num

theorem Geometry.two_pow_l1Bits : 2 ^ s.l1Bits = 512 * (s.l2Size * s.clusterSectors) := by
  rw [l1Bits, pow_add, show 2 ^ s.clusterBits = s.clusterSize from rfl, hg.clusterSize_eq]
  simp only [l2Size]
  ring

theorem Geometry.clusterSectors_le : s.clusterSectors ≤ 128 := by
  have := hg.hi
  calc s.clusterSectors ≤ 2 ^ 7 := Nat.pow_le_pow_right (by norm_num) (by omega)
    _ = 128 := by norm_num

theorem Geometry.clusterSize_le : s.clusterSize ≤ 65536 := by
  have := hg.hi
  calc s.clusterSize ≤ 2 ^ 16 := Nat.pow_le_pow_right (by norm_num) (by omega)
    _ = 65536 := by norm_num

theorem Geometry.l2Size_le : s.l2Size ≤ 8192 := by
  have := hg.hi
  calc s.l2Size ≤ 2 ^ 13 := Nat.pow_le_pow_right (by norm_num) (by rw [l2Bits]; omega)
    _ = 8192 := by norm_num

theorem Geometry.clusters_le {n : ℕ} (hn : n ≤ s.l2Size) : n * s.clusterSize ≤ 2 ^ 29 := by
  calc n * s.clusterSize ≤ 8192 * 65536 :=
        Nat.mul_le_mul (hn.trans hg.l2Size_le) hg.clusterSize_le
    _ = 2 ^ 29 := by norm_num

end Sizes

end BDRVQcowState

/-! ### The L2 cache -/

theorem l2CacheMin_lt (counts : ℕ → ℕ) {n i minCount minIndex : ℕ} (hi : i + n ≤ l2CacheSize)
    (hm : minIndex < l2CacheSize) : l2CacheMin counts n i minCount minIndex < l2CacheSize := by
  induction n generalizing i minCount minIndex with
  | zero => exact hm
  | succ n ih =>
    rw [l2CacheMin]
    split_ifs
    · exact ih (by omega) (by omega)
    · exact ih (by omega) hm

theorem l2CacheNewEntry_lt (s : BDRVQcowState) : l2CacheNewEntry s < l2CacheSize :=
  l2CacheMin_lt _ (by omega) (by decide)

theorem seekL2Table_cases (s : BDRVQcowState) (off : ℕ) :
    (seekL2Table off s = (none, s) ∧ ∀ i < l2CacheSize, s.l2CacheOffsets i ≠ off) ∨
      ∃ slot n, slot < l2CacheSize ∧ s.l2CacheOffsets slot = off ∧
        seekL2Table off s = (some slot, s.l2Cached s.l2Cache s.l2CacheOffsets n s.hd.tick) := by
  rw [seekL2Table, bind_apply, get_apply]
  dsimp only
  generalize hf : List.find? _ _ = found
  rcases found with _ | slot
  · refine .inl ⟨rfl, fun i hi heq => ?_⟩
    have := List.find?_eq_none.mp hf i (List.mem_range.mpr hi)
    exact this (decide_eq_true heq.symm)
  · refine .inr ⟨slot, _, List.mem_range.mp (List.mem_of_find?_eq_some hf), ?_, rfl⟩
    have := List.find?_some hf
    exact (of_decide_eq_true this).symm

section Load

variable {s : BDRVQcowState} (hr : s.Reliable) (hg : s.Geometry) (hc : s.L2CacheOk)

include hr hg hc

/-- A loaded slot is named after its table. -/
theorem l2Load_ok (off : ℕ) :
    ∃ slot c o n t, l2Load off s = (some slot, s.l2Cached c o n t) ∧ slot < l2CacheSize ∧
      o slot = off ∧ (s.l2Cached c o n t).L2CacheOk := by
  rw [l2Load, bind_apply]
  obtain ⟨hseek, -⟩ | ⟨slot, n, hslot, hoff, hseek⟩ := seekL2Table_cases s off
  · have hl2 := hg.l2Size_le
    obtain ⟨t, ht⟩ := preadTable_ok hr off (w := 8) (n := s.l2Size) (by omega)
      (s.l2Cache (l2CacheNewEntry s))
    simp only [hseek, bind_apply, get_apply, ht, modify_apply, Bool.not_true, Bool.false_eq_true,
      if_false, pure_apply]
    refine ⟨_, _, _, _, t, rfl, l2CacheNewEntry_lt s, Function.update_self .., fun i hi => ?_⟩
    by_cases h : i = l2CacheNewEntry s
    · subst h
      simp only [BDRVQcowState.l2Cached, Function.update_self]
      intro _ j hj
      exact if_pos hj
    · simp only [BDRVQcowState.l2Cached, Function.update_of_ne h]
      exact hc i hi
  · rw [hseek]
    exact ⟨slot, _, _, n, _, rfl, hslot, hoff, hc⟩

end Load

/-! ### Runs -/

theorem countRun_le (p : ℕ → Bool) (start n : ℕ) : countRun p start n ≤ n := by
  induction n generalizing start with
  | zero => exact le_rfl
  | succ n ih =>
    rw [countRun]
    split_ifs
    · have := ih (start + 1)
      omega
    · omega

theorem countRun_spec (p : ℕ → Bool) {m n k : ℕ} (hk : k < countRun p m n) :
    p (m + k) = true := by
  induction n generalizing m k with
  | zero => exact absurd hk (Nat.not_lt_zero _)
  | succ n ih =>
    rw [countRun] at hk
    split_ifs at hk with hp
    · cases k with
      | zero => exact hp
      | succ k =>
        rw [show m + (k + 1) = m + 1 + k by omega]
        exact ih (by omega)
    · exact absurd hk (Nat.not_lt_zero _)

theorem countRun_congr {p q : ℕ → Bool} {start n : ℕ}
    (h : ∀ k, start ≤ k → k < start + n → p k = q k) : countRun p start n = countRun q start n := by
  induction n generalizing start with
  | zero => rfl
  | succ n ih =>
    rw [countRun, countRun, h start le_rfl (by omega),
      ih fun k h1 h2 => h k (by omega) (by omega)]

theorem countRun_eq {p : ℕ → Bool} {start n : ℕ} (h : ∀ k, start ≤ k → k < start + n → p k = true) :
    countRun p start n = n := by
  induction n generalizing start with
  | zero => rfl
  | succ n ih =>
    rw [countRun, if_pos (h start le_rfl (by omega)), ih fun k h1 h2 => h k (by omega) (by omega)]

theorem countRun_pos {p : ℕ → Bool} {m n : ℕ} (hp : p m = true) (hn : 0 < n) :
    0 < countRun p m n := by
  obtain ⟨n, rfl⟩ := Nat.exists_eq_succ_of_ne_zero hn.ne'
  rw [Nat.succ_eq_add_one, countRun, if_pos hp]
  omega

/-- A run is at least as long as any part of it that satisfies the predicate. -/
theorem le_countRun {p : ℕ → Bool} {start n m : ℕ} (hm : m ≤ n)
    (h : ∀ k < m, p (start + k) = true) : m ≤ countRun p start n := by
  induction n generalizing start m with
  | zero => omega
  | succ n ih =>
    cases m with
    | zero => exact Nat.zero_le _
    | succ m =>
      have hrest : m ≤ countRun p (start + 1) n := by
        apply ih (by omega)
        intro k hk
        rw [show start + 1 + k = start + (k + 1) by omega]
        exact h (k + 1) (by omega)
      have hstart : p start = true := h 0 (by omega)
      rw [countRun, if_pos hstart]
      omega

theorem countContiguousClusters_clearCopied {n clusterSize : ℕ} (h : n * clusterSize ≤ 2 ^ 63)
    (l2Table : ℕ → ℕ) : countContiguousClusters n clusterSize l2Table 0 clearCopied =
      if clearCopied (l2Table 0) = 0 then 0
      else countRun (fun i => clearCopied (l2Table 0) + i * clusterSize = clearCopied (l2Table i))
        0 n := by
  have hlt : clearCopied (l2Table 0) < 2 ^ 63 := Nat.mod_lt _ (by norm_num)
  rw [countContiguousClusters]
  congr 1
  apply countRun_congr
  intro k _ hk
  have hmul : k * clusterSize ≤ n * clusterSize := Nat.mul_le_mul_right _ (by omega)
  rw [Nat.mod_eq_of_lt (by omega)]

namespace BDRVQcowState

variable (s : BDRVQcowState)

/-- Sectors of a request that fall under the L1 entry of its first one, from the
start of its cluster. -/
def runNeeded (sectorNum num : ℕ) : ℕ :=
  min (num + sectorNum % s.clusterSectors)
    ((s.l2Size - sectorNum / s.clusterSectors % s.l2Size) * s.clusterSectors)

/-- Clusters that follow guest cluster `g` the same way, at most `n`. -/
def runClusters (g n : ℕ) : ℕ :=
  if s.guestEntry g = 0 then countContiguousFreeClusters n fun k => s.guestEntry (g + k)
  else countContiguousClusters n s.clusterSize (fun k => s.guestEntry (g + k)) 0 clearCopied

/-- The run length that `get_cluster_offset` reports. -/
def runSectors (sectorNum num : ℕ) : ℕ :=
  let needed := s.runNeeded sectorNum num
  min (s.runClusters (sectorNum / s.clusterSectors)
    ((needed + s.clusterSectors - 1) / s.clusterSectors) * s.clusterSectors) needed -
      sectorNum % s.clusterSectors

theorem guestEntry_add {g k : ℕ} (hk : g % s.l2Size + k < s.l2Size) :
    (g + k) / s.l2Size = g / s.l2Size ∧ (g + k) % s.l2Size = g % s.l2Size + k := by
  have hg := Nat.div_add_mod g s.l2Size
  have hsplit : g + k = g % s.l2Size + k + s.l2Size * (g / s.l2Size) := by omega
  rw [hsplit, Nat.add_mul_div_left _ _ s.l2Size_pos, Nat.add_mul_mod_self_left,
    Nat.div_eq_of_lt hk, Nat.mod_eq_of_lt hk, Nat.zero_add]
  exact ⟨rfl, rfl⟩

theorem guestEntry_table {g k : ℕ} (hk : k < s.l2Size - g % s.l2Size) :
    s.guestEntry (g + k) = if s.l1Size ≤ g / s.l2Size then 0
      else if s.l1Table (g / s.l2Size) = 0 then 0
      else s.hd.data.word 8 (clearCopied (s.l1Table (g / s.l2Size)) + 8 * (g % s.l2Size + k)) := by
  obtain ⟨h1, h2⟩ := s.guestEntry_add (g := g) (k := k) (by omega)
  rw [guestEntry, h1, h2]

theorem runNeeded_le (sectorNum num : ℕ) : s.runNeeded sectorNum num ≤
    (s.l2Size - sectorNum / s.clusterSectors % s.l2Size) * s.clusterSectors := min_le_right _ _

theorem runNeeded_clusters_le (sectorNum num : ℕ) :
    (s.runNeeded sectorNum num + s.clusterSectors - 1) / s.clusterSectors ≤
      s.l2Size - sectorNum / s.clusterSectors % s.l2Size := by
  have h := s.runNeeded_le sectorNum num
  have hcs := s.clusterSectors_pos
  rw [← Nat.lt_succ_iff, Nat.div_lt_iff_lt_mul hcs, Nat.succ_mul]
  omega

theorem le_clusters_mul (n : ℕ) :
    n ≤ (n + s.clusterSectors - 1) / s.clusterSectors * s.clusterSectors := by
  have hcs := s.clusterSectors_pos
  have := Nat.div_add_mod (n + s.clusterSectors - 1) s.clusterSectors
  have := Nat.mod_lt (n + s.clusterSectors - 1) hcs
  rw [Nat.mul_comm]
  omega

theorem runSectors_of_free {sectorNum num : ℕ}
    (h : ∀ k < s.l2Size - sectorNum / s.clusterSectors % s.l2Size,
      s.guestEntry (sectorNum / s.clusterSectors + k) = 0) :
    s.runSectors sectorNum num = s.runNeeded sectorNum num - sectorNum % s.clusterSectors := by
  have hle := s.runNeeded_clusters_le sectorNum num
  have h0 : s.guestEntry (sectorNum / s.clusterSectors) = 0 :=
    h 0 (Nat.sub_pos_of_lt (Nat.mod_lt _ s.l2Size_pos))
  simp only [runSectors, runClusters, h0, if_true, countContiguousFreeClusters]
  rw [countRun_eq fun k _ hk => decide_eq_true (h k (by omega)),
    Nat.min_eq_right (s.le_clusters_mul _)]

end BDRVQcowState

/-! ### The lookup -/

section Lookup

variable {s : BDRVQcowState} (hg : s.Geometry) (sectorNum : ℕ)

include hg

theorem l2IndexOf_sector :
    l2IndexOf s (sectorNum * 512) = sectorNum / s.clusterSectors % s.l2Size := by
  rw [l2IndexOf, hg.clusterSize_eq, Nat.mul_comm sectorNum, Nat.mul_div_mul_left _ _ (by norm_num)]

theorem l1IndexOf_sector (hidx : sectorNum / s.clusterSectors / s.l2Size < 2 ^ 31) :
    l1IndexOf s (sectorNum * 512) = (sectorNum / s.clusterSectors / s.l2Size : ℕ) := by
  have h : sectorNum * 512 / 2 ^ s.l1Bits = sectorNum / s.clusterSectors / s.l2Size := by
    rw [hg.two_pow_l1Bits, Nat.mul_comm sectorNum, Nat.mul_div_mul_left _ _ (by norm_num),
      Nat.div_div_eq_div_mul, Nat.mul_comm s.l2Size]
  rw [l1IndexOf, h, toInt32, Nat.mod_eq_of_lt (by omega), if_pos hidx]

theorem sectorsLeft :
    (2 ^ s.l1Bits - sectorNum * 512 % 2 ^ s.l1Bits) / 512 + sectorNum % s.clusterSectors =
      (s.l2Size - sectorNum / s.clusterSectors % s.l2Size) * s.clusterSectors := by
  rw [hg.two_pow_l1Bits, Nat.mul_comm sectorNum, Nat.mul_mod_mul_left, ← Nat.mul_sub,
    Nat.mul_div_cancel_left _ (by norm_num), Nat.mul_comm s.l2Size, Nat.mod_mul, Nat.sub_mul]
  have hm := Nat.mod_lt sectorNum s.clusterSectors_pos
  have hl := Nat.mod_lt (sectorNum / s.clusterSectors) s.l2Size_pos
  have hle : s.clusterSectors * (sectorNum / s.clusterSectors % s.l2Size + 1) ≤
      s.clusterSectors * s.l2Size := Nat.mul_le_mul_left _ hl
  rw [Nat.mul_succ] at hle
  rw [Nat.mul_comm s.l2Size, Nat.mul_comm (sectorNum / s.clusterSectors % s.l2Size)]
  omega

theorem sizeToClustersInt_sectors (n : ℕ) : s.sizeToClustersInt ((n : ℤ) * 512) =
    ((n + s.clusterSectors - 1) / s.clusterSectors : ℕ) := by
  have hcs := s.clusterSectors_pos
  have hn : (n + s.clusterSectors - 1) / s.clusterSectors =
      (n * 512 + (s.clusterSize - 1)) / s.clusterSize := by
    rw [hg.clusterSize_eq, ← Nat.div_div_eq_div_mul]
    congr 1
    omega
  rw [hn, BDRVQcowState.sizeToClustersInt]
  have := s.clusterSize_pos
  push_cast [Nat.cast_sub (show 1 ≤ s.clusterSize by omega)]
  rfl

theorem needed_eq_of_lt {num : ℕ} (hnum : num + sectorNum % s.clusterSectors < 2 ^ 31) :
    min (toInt32 (num + sectorNum % s.clusterSectors))
      (((2 ^ s.l1Bits - sectorNum * 512 % 2 ^ s.l1Bits) / 512 : ℕ) +
        (sectorNum % s.clusterSectors : ℕ) : ℤ) = (s.runNeeded sectorNum num : ℕ) := by
  rw [toInt32, Nat.mod_eq_of_lt (by omega), if_pos hnum, ← Nat.cast_add,
    sectorsLeft hg sectorNum, BDRVQcowState.runNeeded, Nat.cast_min]

theorem needed_eq {num : ℕ} (hnum : num < 2 ^ 30) :
    min (toInt32 (num + sectorNum % s.clusterSectors))
      (((2 ^ s.l1Bits - sectorNum * 512 % 2 ^ s.l1Bits) / 512 : ℕ) +
        (sectorNum % s.clusterSectors : ℕ) : ℤ) = (s.runNeeded sectorNum num : ℕ) := by
  have hcs := hg.clusterSectors_le
  have hx := Nat.mod_lt sectorNum s.clusterSectors_pos
  exact needed_eq_of_lt hg sectorNum (by omega)

theorem neededClusters_eq (num : ℕ) :
    toUInt64 (s.sizeToClustersInt ((s.runNeeded sectorNum num : ℕ) * 512)) =
      (s.runNeeded sectorNum num + s.clusterSectors - 1) / s.clusterSectors := by
  have hle := s.runNeeded_clusters_le sectorNum num
  have hl2 := hg.l2Size_le
  rw [sizeToClustersInt_sectors hg, toUInt64, Int.emod_eq_of_lt (Int.natCast_nonneg _) (by omega),
    Int.toNat_natCast]

theorem runSectors_no_table {num : ℕ}
    (h : ∀ k < s.l2Size - sectorNum / s.clusterSectors % s.l2Size,
      s.guestEntry (sectorNum / s.clusterSectors + k) = 0) :
    (min (((2 ^ s.l1Bits - sectorNum * 512 % 2 ^ s.l1Bits) / 512 : ℕ) +
      (sectorNum % s.clusterSectors : ℕ) : ℤ) (s.runNeeded sectorNum num : ℕ) -
        (sectorNum % s.clusterSectors : ℕ)).toNat = s.runSectors sectorNum num := by
  have := s.runNeeded_le sectorNum num
  rw [s.runSectors_of_free h, ← Nat.cast_add, sectorsLeft hg sectorNum]
  omega

theorem runSectors_table (num : ℕ) {l2Table : ℕ → ℕ}
    (h : ∀ k < s.l2Size - sectorNum / s.clusterSectors % s.l2Size,
      l2Table k = s.guestEntry (sectorNum / s.clusterSectors + k)) :
    (min ((if l2Table 0 = 0 then countContiguousFreeClusters (toUInt64 (s.sizeToClustersInt
          ((s.runNeeded sectorNum num : ℕ) * 512))) l2Table
        else countContiguousClusters (toUInt64 (s.sizeToClustersInt
          ((s.runNeeded sectorNum num : ℕ) * 512))) s.clusterSize l2Table 0 clearCopied : ℕ) *
        s.clusterSectors : ℤ) (s.runNeeded sectorNum num : ℕ) -
        (sectorNum % s.clusterSectors : ℕ)).toNat = s.runSectors sectorNum num := by
  have h0 := h 0 (Nat.sub_pos_of_lt (Nat.mod_lt _ s.l2Size_pos))
  have hle := s.runNeeded_clusters_le sectorNum num
  have hn := neededClusters_eq hg sectorNum num
  have hc : (if l2Table 0 = 0 then countContiguousFreeClusters
        ((s.runNeeded sectorNum num + s.clusterSectors - 1) / s.clusterSectors) l2Table
      else countContiguousClusters
        ((s.runNeeded sectorNum num + s.clusterSectors - 1) / s.clusterSectors)
        s.clusterSize l2Table 0 clearCopied) = s.runClusters (sectorNum / s.clusterSectors)
        ((s.runNeeded sectorNum num + s.clusterSectors - 1) / s.clusterSectors) := by
    simp only [BDRVQcowState.runClusters, countContiguousFreeClusters, countContiguousClusters, h0,
      Nat.add_zero]
    congr 1
    · exact countRun_congr fun k _ hk => by rw [h k (by omega)]
    · congr 1
      exact countRun_congr fun k _ hk => by rw [h k (by omega)]
  rw [hn, hc, BDRVQcowState.runSectors]
  omega

/-- `get_cluster_offset` looks the guest map up and reports a run of it. -/
theorem getClusterOffset_ok (hr : s.Reliable) (hc : s.L2CacheOk) (hl1 : s.L1Ok) {num : ℕ}
    (hnum : num < 2 ^ 30) (hidx : sectorNum / s.clusterSectors / s.l2Size < 2 ^ 31) :
    ∃ c o n t, getClusterOffset (sectorNum * 512) num s =
      ((clearCopied (s.guestEntry (sectorNum / s.clusterSectors)), s.runSectors sectorNum num),
        s.l2Cached c o n t) ∧ (s.l2Cached c o n t).L2CacheOk := by
  have hpos := Nat.sub_pos_of_lt (Nat.mod_lt (sectorNum / s.clusterSectors) s.l2Size_pos)
  have h512 : sectorNum * 512 / 512 = sectorNum := Nat.mul_div_cancel _ (by norm_num)
  rw [getClusterOffset, bind_apply, get_apply]
  simp only [h512, needed_eq hg sectorNum hnum, l1IndexOf_sector hg sectorNum hidx,
    Int.toNat_natCast]
  by_cases h1 : s.l1Size ≤ sectorNum / s.clusterSectors / s.l2Size
  · have hz : ∀ k < s.l2Size - sectorNum / s.clusterSectors % s.l2Size,
        s.guestEntry (sectorNum / s.clusterSectors + k) = 0 := fun k hk => by
      rw [s.guestEntry_table hk, if_pos h1]
    refine ⟨_, _, _, s.hd.tick, ?_, hc⟩
    rw [if_pos (by exact_mod_cast h1), runSectors_no_table hg sectorNum hz,
      show s.guestEntry (sectorNum / s.clusterSectors) = 0 from hz 0 hpos]
    rfl
  by_cases h2 : s.l1Table (sectorNum / s.clusterSectors / s.l2Size) = 0
  · have hz : ∀ k < s.l2Size - sectorNum / s.clusterSectors % s.l2Size,
        s.guestEntry (sectorNum / s.clusterSectors + k) = 0 := fun k hk => by
      rw [s.guestEntry_table hk, if_neg h1, if_pos h2]
    refine ⟨_, _, _, s.hd.tick, ?_, hc⟩
    rw [if_neg (by exact_mod_cast h1), if_pos h2, runSectors_no_table hg sectorNum hz,
      show s.guestEntry (sectorNum / s.clusterSectors) = 0 from hz 0 hpos]
    rfl
  obtain ⟨slot, c, o, n, t, hload, hslot, hoff, hok⟩ := l2Load_ok hr hg hc
    (clearCopied (s.l1Table (sectorNum / s.clusterSectors / s.l2Size)))
  refine ⟨c, o, n, t, ?_, hok⟩
  have htable : ∀ k < s.l2Size - sectorNum / s.clusterSectors % s.l2Size,
      c slot (sectorNum / s.clusterSectors % s.l2Size + k) =
        s.guestEntry (sectorNum / s.clusterSectors + k) := fun k hk => by
    have hne : o slot ≠ 0 := by
      rw [hoff]
      exact hl1 _ (by omega) h2
    rw [s.guestEntry_table hk, if_neg h1, if_neg h2, ← hoff]
    exact hok slot hslot hne _ (show _ < s.l2Size by omega)
  have h0 := htable 0 hpos
  rw [if_neg (by exact_mod_cast h1), if_neg h2, bind_apply, hload]
  have hcache : (s.l2Cached c o n t).l2Cache = c := rfl
  have hrun := runSectors_table hg sectorNum num htable
  simp only [Nat.add_zero] at h0 hrun
  simp only [bind_apply, get_apply, l2IndexOf_sector hg, pure_apply, hcache, Nat.add_zero]
  rw [hrun, h0]

end Lookup

/-! ### What a run means -/

section Run

variable {s : BDRVQcowState} {sectorNum num : ℕ}

theorem runSectors_le (s : BDRVQcowState) (sectorNum num : ℕ) :
    s.runSectors sectorNum num ≤ num := by
  have : s.runNeeded sectorNum num ≤ num + sectorNum % s.clusterSectors := min_le_left _ _
  rw [BDRVQcowState.runSectors]
  omega

theorem runClusters_pos {g n : ℕ} (he : s.guestEntry g ≠ 0 → clearCopied (s.guestEntry g) ≠ 0)
    (hn : 0 < n) : 0 < s.runClusters g n := by
  rw [BDRVQcowState.runClusters]
  split_ifs with h0
  · exact countRun_pos (by simpa using h0) hn
  · rw [countContiguousClusters, Nat.add_zero, if_neg (he h0)]
    have hlt : clearCopied (s.guestEntry g) < 2 ^ 63 := Nat.mod_lt _ (by norm_num)
    apply countRun_pos _ hn
    rw [Nat.zero_mul, Nat.add_zero, Nat.add_zero, Nat.mod_eq_of_lt (by omega)]
    exact decide_eq_true rfl

theorem runSectors_pos (hnum : 0 < num)
    (he : s.guestEntry (sectorNum / s.clusterSectors) ≠ 0 →
      clearCopied (s.guestEntry (sectorNum / s.clusterSectors)) ≠ 0) :
    0 < s.runSectors sectorNum num := by
  have hcs := s.clusterSectors_pos
  have hx := Nat.mod_lt sectorNum hcs
  have hleft : s.clusterSectors ≤
      (s.l2Size - sectorNum / s.clusterSectors % s.l2Size) * s.clusterSectors :=
    Nat.le_mul_of_pos_left _ (Nat.sub_pos_of_lt (Nat.mod_lt _ s.l2Size_pos))
  have hneeded : sectorNum % s.clusterSectors < s.runNeeded sectorNum num := by
    rw [BDRVQcowState.runNeeded]
    omega
  have hc := runClusters_pos (g := sectorNum / s.clusterSectors) he
    (n := (s.runNeeded sectorNum num + s.clusterSectors - 1) / s.clusterSectors)
    (Nat.div_pos (by omega) hcs)
  have hmul := Nat.le_mul_of_pos_left s.clusterSectors hc
  rw [BDRVQcowState.runSectors]
  omega

theorem cluster_split {cs sectorNum k m : ℕ} (hcs : 0 < cs) (hk : sectorNum % cs + k < m * cs) :
    ∃ j, (sectorNum + k) / cs = sectorNum / cs + j ∧
      sectorNum % cs + k = j * cs + (sectorNum + k) % cs ∧ j < m := by
  have hdm := Nat.div_add_mod sectorNum cs
  have hsum : sectorNum + k = sectorNum % cs + k + cs * (sectorNum / cs) := by omega
  refine ⟨(sectorNum % cs + k) / cs, ?_, ?_, ?_⟩
  · rw [hsum, Nat.add_mul_div_left _ _ hcs, Nat.add_comm]
  · rw [hsum, Nat.add_mul_mod_self_left, Nat.mul_comm, Nat.div_add_mod]
  · rwa [Nat.div_lt_iff_lt_mul hcs]

theorem runSectors_cluster {k : ℕ} (hk : k < s.runSectors sectorNum num) :
    ∃ j, (sectorNum + k) / s.clusterSectors = sectorNum / s.clusterSectors + j ∧
      sectorNum % s.clusterSectors + k = j * s.clusterSectors + (sectorNum + k) % s.clusterSectors ∧
      j < s.runClusters (sectorNum / s.clusterSectors)
        ((s.runNeeded sectorNum num + s.clusterSectors - 1) / s.clusterSectors) := by
  apply cluster_split s.clusterSectors_pos
  rw [BDRVQcowState.runSectors] at hk
  omega

/-- The entries under a run: all free, or at consecutive host clusters. -/
theorem runSectors_entry (hg : s.Geometry) {k : ℕ} (hk : k < s.runSectors sectorNum num) :
    ∃ j, (sectorNum + k) / s.clusterSectors = sectorNum / s.clusterSectors + j ∧
      sectorNum % s.clusterSectors + k = j * s.clusterSectors + (sectorNum + k) % s.clusterSectors ∧
      clearCopied (s.guestEntry ((sectorNum + k) / s.clusterSectors)) =
        if s.guestEntry (sectorNum / s.clusterSectors) = 0 then 0
        else clearCopied (s.guestEntry (sectorNum / s.clusterSectors)) + j * s.clusterSize := by
  obtain ⟨j, h1, h2, hj⟩ := runSectors_cluster hk
  refine ⟨j, h1, h2, ?_⟩
  rw [h1]
  rw [BDRVQcowState.runClusters] at hj
  split_ifs at hj ⊢ with h0
  · have := countRun_spec _ hj
    rw [Nat.zero_add] at this
    have hz : s.guestEntry (sectorNum / s.clusterSectors + j) = 0 := of_decide_eq_true this
    rw [hz]
    rfl
  · have hle := s.runNeeded_clusters_le sectorNum num
    have hbound := hg.clusters_le (hle.trans (Nat.sub_le _ _))
    rw [countContiguousClusters_clearCopied (by omega), Nat.add_zero] at hj
    split_ifs at hj with h00
    · exact absurd hj (Nat.not_lt_zero _)
    · have := countRun_spec _ hj
      rw [Nat.zero_add] at this
      exact (of_decide_eq_true this).symm

end Run

end Ar7Qemu.Qcow2
