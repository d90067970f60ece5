import Ar7Qemu.Qcow2.Refcount

/-! The two-level cluster map of `block-qcow2.c`: the L2 table cache, growing the
L1 table, allocating and copying L2 tables, and looking a guest offset up. A
pointer to a cached L2 table is the number of its cache slot. -/

namespace Ar7Qemu.Qcow2

open Lib Block

def l2CacheReset : Qcow Unit := modify fun s => { s with
  l2Cache := fun _ _ => 0
  l2CacheOffsets := fun _ => 0
  l2CacheCounts := fun _ => 0 }

/-- The search loop of `l2_cache_new_entry`: slot `i` on, with the least used
slot so far. -/
def l2CacheMin (counts : ℕ → ℕ) : ℕ → ℕ → ℕ → ℕ → ℕ
  | 0, _, _, minIndex => minIndex
  | n + 1, i, minCount, minIndex =>
    if counts i < minCount then l2CacheMin counts n (i + 1) (counts i) i
    else l2CacheMin counts n (i + 1) minCount minIndex

/-- `l2_cache_new_entry`: the least used slot. -/
def l2CacheNewEntry (s : BDRVQcowState) : ℕ := l2CacheMin s.l2CacheCounts l2CacheSize 0 0xffffffff 0

/-- `seek_l2_table`: the slot of a cached table; a hit counts, and the counters
are halved before one overflows. -/
def seekL2Table (l2Offset : ℕ) : Qcow (Option ℕ) := do
  let s ← get
  match (List.range l2CacheSize).find? (fun i => l2Offset = s.l2CacheOffsets i) with
  | none => return none
  | some i =>
    let counts := Function.update s.l2CacheCounts i (s.l2CacheCounts i + 1)
    modify fun s => { s with
      l2CacheCounts := if counts i = 0xffffffff then fun j => counts j / 2 else counts }
    return some i

/-- `l2_load`. A failed read leaves the slot's offset as it was. -/
def l2Load (l2Offset : ℕ) : Qcow (Option ℕ) := do
  match ← seekL2Table l2Offset with
  | some i => return some i
  | none =>
    let s ← get
    let i := l2CacheNewEntry s
    let (ok, t) ← preadTable 8 l2Offset s.l2Size (s.l2Cache i)
    modify fun s => { s with l2Cache := Function.update s.l2Cache i t }
    if !ok then return none
    modify fun s => { s with
      l2CacheOffsets := Function.update s.l2CacheOffsets i l2Offset
      l2CacheCounts := Function.update s.l2CacheCounts i 1 }
    return some i

/-- `l2_allocate`: a new L2 table for `l1Index`, a copy of the old one if there
is one. -/
def l2Allocate (l1Index : ℕ) : Qcow (Option ℕ) := do
  let s ← get
  let oldL2Offset := s.l1Table l1Index
  let l2Offset ← allocClusters (s.l2Size * 8)
  modify fun s => { s with l1Table := Function.update s.l1Table l1Index (setCopied l2Offset) }
  if !(← pwrite (s.l1TableOffset + l1Index * 8) 8 (Bytes.beByte 8 (setCopied l2Offset))) then
    return none
  let i := l2CacheNewEntry (← get)
  if oldL2Offset = 0 then
    modify fun s => { s with l2Cache := Function.update s.l2Cache i fun _ => 0 }
  else
    let (ok, t) ← preadTable 8 oldL2Offset s.l2Size ((← get).l2Cache i)
    modify fun s => { s with l2Cache := Function.update s.l2Cache i t }
    if !ok then return none
  if !(← pwriteTable 8 l2Offset s.l2Size ((← get).l2Cache i)) then return none
  modify fun s => { s with
    l2CacheOffsets := Function.update s.l2CacheOffsets i l2Offset
    l2CacheCounts := Function.update s.l2CacheCounts i 1 }
  return some i

def alignOffset (offset n : ℕ) : ℕ := (offset + n - 1) / n * n

/-- The loop that sizes the new table in `grow_l1_table`. -/
def newL1Size (minSize : ℕ) : ℕ → ℕ → ℕ
  | 0, size => size
  | fuel + 1, size => if size < minSize then newL1Size minSize fuel ((size * 3 + 1) / 2) else size

/-- Offset of `l1_size` in the header; `l1_table_offset` follows. -/
def l1SizeField : ℕ := 36

/-- `grow_l1_table`. The failure path frees the live table. -/
def growL1Table (minSize : ℕ) : Qcow ℤ := do
  let s ← get
  if minSize ≤ s.l1Size then return 0
  let newSize := newL1Size minSize minSize s.l1Size
  let newTable := fun i => if i < s.l1Size then s.l1Table i else 0
  let newOffset ← allocClusters (8 * newSize)
  if !(← pwriteTable 8 newOffset newSize newTable) then
    modify fun s => { s with l1Freed := true }
    return -eio
  let data : Bytes := fun i => if i < 4 then Bytes.beByte 4 newSize i
    else Bytes.beByte 8 newOffset (i - 4)
  if !(← pwrite l1SizeField 12 data) then
    modify fun s => { s with l1Freed := true }
    return -eio
  let old ← get
  freeClusters old.l1TableOffset (old.l1Size * 8)
  modify fun s => { s with l1TableOffset := newOffset, l1Table := newTable, l1Size := newSize }
  return 0

/-- Length of the longest run from `start` on, at most `n` long, that satisfies
`p`. -/
def countRun (p : ℕ → Bool) (start : ℕ) : ℕ → ℕ
  | 0 => 0
  | n + 1 => if p start then countRun p (start + 1) n + 1 else 0

/-- `count_contiguous_clusters`; the entry mask is the copied flag or none. The
sum is a `uint64_t`. -/
def countContiguousClusters (nbClusters clusterSize : ℕ) (l2Table : ℕ → ℕ) (start : ℕ)
    (mask : ℕ → ℕ) : ℕ :=
  let offset := mask (l2Table 0)
  if offset = 0 then 0
  else countRun (fun i => (offset + i * clusterSize) % 2 ^ 64 = mask (l2Table i)) start nbClusters

def countContiguousFreeClusters (nbClusters : ℕ) (l2Table : ℕ → ℕ) : ℕ :=
  countRun (fun i => l2Table i = 0) 0 nbClusters

/-- The L1 index of a guest offset, as the `int` the driver keeps. -/
def l1IndexOf (s : BDRVQcowState) (offset : ℕ) : ℤ := toInt32 (offset / 2 ^ s.l1Bits)

def l2IndexOf (s : BDRVQcowState) (offset : ℕ) : ℕ := offset / s.clusterSize % s.l2Size

/-- `get_cluster_offset`: the host offset of a guest offset with its flags, zero
when unallocated, and how many of the `num` sectors follow the same way. A failed
L2 read returns zero and leaves the count alone. -/
def getClusterOffset (offset num : ℕ) : Qcow (ℕ × ℕ) := do
  let s ← get
  let indexInCluster := offset / 512 % s.clusterSectors
  let nbLeft : ℤ := ((2 ^ s.l1Bits - offset % 2 ^ s.l1Bits) / 512 : ℕ) + indexInCluster
  let nbNeeded := min (toInt32 (num + indexInCluster)) nbLeft
  let l1Index := l1IndexOf s offset
  if s.l1Size ≤ l1Index then return (0, (min nbLeft nbNeeded - indexInCluster).toNat)
  let l2Offset := s.l1Table l1Index.toNat
  if l2Offset = 0 then return (0, (min nbLeft nbNeeded - indexInCluster).toNat)
  match ← l2Load (clearCopied l2Offset) with
  | none => return (0, num)
  | some slot =>
    let l2Index := l2IndexOf s offset
    let s' ← get
    let l2Table := fun k => s'.l2Cache slot (l2Index + k)
    let clusterOffset := l2Table 0
    let nbClusters := toUInt64 (s.sizeToClustersInt (nbNeeded * 512))
    let c := if clusterOffset = 0 then countContiguousFreeClusters nbClusters l2Table
      else countContiguousClusters nbClusters s.clusterSize l2Table 0 clearCopied
    return (clearCopied clusterOffset,
      (min (c * s.clusterSectors : ℤ) nbNeeded - indexInCluster).toNat)

end Ar7Qemu.Qcow2
