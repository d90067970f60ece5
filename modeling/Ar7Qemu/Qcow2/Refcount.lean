import Ar7Qemu.Qcow2.State

/-! Refcount handling of `block-qcow2.c`: looking a count up through the
one-block cache, searching free clusters, and updating counts, which may create
a refcount block or move the refcount table and so calls itself. The recursion
is cut at a fixed depth that is never reached on a consistent image. -/

namespace Ar7Qemu.Qcow2

open Lib Block

def loadRefcountBlock (refcountBlockOffset : ℕ) : Qcow Bool := do
  let s ← get
  let (ok, t) ← preadTable 2 refcountBlockOffset s.refcountsPerBlock s.refcountBlockCache
  modify fun s => { s with refcountBlockCache := t }
  if ok then
    modify fun s => { s with refcountBlockCacheOffset := refcountBlockOffset }
  return ok

/-- `get_refcount`. A block that cannot be read counts as allocated. -/
def getRefcount (clusterIndex : ℕ) : Qcow ℕ := do
  let s ← get
  let tableIndex := clusterIndex / s.refcountsPerBlock
  let blockIndex := clusterIndex % s.refcountsPerBlock
  if s.refcountTableSize ≤ tableIndex then return 0
  let refcountBlockOffset := s.refcountTable tableIndex
  if refcountBlockOffset = 0 then return 0
  if refcountBlockOffset ≠ s.refcountBlockCacheOffset then
    if !(← loadRefcountBlock refcountBlockOffset) then return 1
  return (← get).refcountBlockCache blockIndex

/-- The search loop of `alloc_clusters_noref`: `need` clusters are still missing
from a run of `nbClusters`; a used cluster restarts the run. -/
def allocScan (nbClusters : ℕ) : ℕ → ℕ → Qcow Bool
  | _, 0 => return true
  | 0, _ + 1 => return false
  | fuel + 1, need + 1 => do
    let i := (← get).freeClusterIndex
    modify fun s => { s with freeClusterIndex := i + 1 }
    if (← getRefcount i) ≠ 0 then allocScan nbClusters fuel nbClusters
    else allocScan nbClusters fuel need

/-- `alloc_clusters_noref`. Past the clusters that the refcount table covers
every cluster is free, which bounds the search. -/
def allocClustersNoref (size : ℕ) : Qcow ℕ := do
  let s ← get
  let nbClusters := s.sizeToClusters size
  let _ ← allocScan nbClusters (s.refcountTableSize * s.refcountsPerBlock + nbClusters) nbClusters
  return ((← get).freeClusterIndex - nbClusters) * s.clusterSize

/-- The loop of `update_refcount` over `n` clusters from `c` on. -/
def updateClusters (upd : ℕ → ℤ → Qcow ℤ) (addend : ℤ) : ℕ → ℕ → Qcow Unit
  | 0, _ => return ()
  | n + 1, c => do
    let _ ← upd c addend
    updateClusters upd addend n (c + 1)

/-- `update_refcount`, given `update_cluster_refcount`. -/
def updateRefcountWith (upd : ℕ → ℤ → Qcow ℤ) (offset length : ℕ) (addend : ℤ) : Qcow Unit := do
  let s ← get
  if length = 0 then return ()
  let start := offset / s.clusterSize
  let last := (offset + length - 1) / s.clusterSize
  updateClusters upd addend (last + 1 - start) start

/-- The loop that sizes the new table in `grow_refcount_table`, in clusters. -/
def newTableClusters (minSize entries : ℕ) : ℕ → ℕ → ℕ
  | 0, clusters => clusters
  | fuel + 1, clusters =>
    let clusters' := if clusters = 0 then 1 else (clusters * 3 + 1) / 2
    if minSize ≤ clusters' * entries then clusters'
    else newTableClusters minSize entries fuel clusters'

/-- Offset of `refcount_table_offset` in the header; `refcount_table_clusters`
follows. -/
def refcountTableField : ℕ := 48

/-- `grow_refcount_table`, given `update_cluster_refcount`. -/
def growRefcountTableWith (upd : ℕ → ℤ → Qcow ℤ) (minSize : ℕ) : Qcow ℤ := do
  let s ← get
  if minSize ≤ s.refcountTableSize then return 0
  let entries := 2 ^ (s.clusterBits - 3)
  let clusters := newTableClusters minSize entries minSize (s.refcountTableSize / entries)
  let newTableSize := clusters * entries
  let newTable := fun i => if i < s.refcountTableSize then s.refcountTable i else 0
  -- the refcount cannot be updated now, to avoid recursion
  let tableOffset ← allocClustersNoref (newTableSize * 8)
  if !(← pwriteTable 8 tableOffset newTableSize newTable) then
    updateRefcountWith upd tableOffset (newTableSize * 8) (-1)
    return -eio
  let data : Bytes := fun i => if i < 8 then Bytes.beByte 8 tableOffset i
    else Bytes.beByte 4 clusters (i - 8)
  if !(← pwrite refcountTableField 12 data) then
    updateRefcountWith upd tableOffset (newTableSize * 8) (-1)
    return -eio
  let old ← get
  set { old with
    refcountTable := newTable
    refcountTableSize := newTableSize
    refcountTableOffset := tableOffset }
  updateRefcountWith upd tableOffset (newTableSize * 8) 1
  updateRefcountWith upd old.refcountTableOffset (old.refcountTableSize * 8) (-1)
  return 0

/-- The part of `update_cluster_refcount` that creates a missing refcount block
or loads the existing one. It returns the block's offset, or an error. -/
def refcountBlockFor (upd : ℕ → ℤ → Qcow ℤ) (tableIndex : ℕ) (addend : ℤ) :
    Qcow (Except ℤ ℕ) := do
  let s ← get
  let refcountBlockOffset := s.refcountTable tableIndex
  if refcountBlockOffset = 0 then
    if addend < 0 then return .error (-einval)
    -- the refcount cannot be updated now, to avoid recursion
    let offset ← allocClustersNoref s.clusterSize
    modify fun s => { s with refcountBlockCache := fun _ => 0 }
    if !(← pwriteTable 2 offset s.refcountsPerBlock fun _ => 0) then return .error (-einval)
    modify fun s => { s with refcountTable := Function.update s.refcountTable tableIndex offset }
    if !(← pwrite ((← get).refcountTableOffset + tableIndex * 8) 8 (Bytes.beByte 8 offset)) then
      return .error (-einval)
    modify fun s => { s with refcountBlockCacheOffset := offset }
    updateRefcountWith upd offset s.clusterSize 1
    return .ok offset
  else
    if refcountBlockOffset ≠ s.refcountBlockCacheOffset then
      if !(← loadRefcountBlock refcountBlockOffset) then return .error (-eio)
    return .ok refcountBlockOffset

/-- The part of `update_cluster_refcount` that changes the cached count and
writes it to the block. -/
def storeRefcount (refcountBlockOffset clusterIndex : ℕ) (addend : ℤ) : Qcow ℤ := do
  let s ← get
  let blockIndex := clusterIndex % s.refcountsPerBlock
  let refcount : ℤ := s.refcountBlockCache blockIndex + addend
  if refcount < 0 ∨ 0xffff < refcount then return -einval
  if refcount = 0 ∧ clusterIndex < s.freeClusterIndex then
    modify fun s => { s with freeClusterIndex := clusterIndex }
  modify fun s => { s with
    refcountBlockCache := Function.update s.refcountBlockCache blockIndex refcount.toNat }
  if !(← pwrite (refcountBlockOffset + 2 * blockIndex) 2 (Bytes.beByte 2 refcount.toNat)) then
    return -eio
  return refcount

/-- `update_cluster_refcount`, given itself for the nested updates. -/
def updateClusterRefcountWith (upd : ℕ → ℤ → Qcow ℤ) (clusterIndex : ℕ) (addend : ℤ) :
    Qcow ℤ := do
  let s ← get
  let tableIndex := clusterIndex / s.refcountsPerBlock
  if s.refcountTableSize ≤ tableIndex then
    if addend < 0 then return -einval
    let ret ← growRefcountTableWith upd (tableIndex + 1)
    if ret < 0 then return ret
  match ← refcountBlockFor upd tableIndex addend with
  | .error e => return e
  | .ok refcountBlockOffset => storeRefcount refcountBlockOffset clusterIndex addend

/-- Nested updates modelled before the recursion is cut. -/
def updateDepth : ℕ := 8

/-- `update_cluster_refcount`, nested at most `depth` times. -/
def updateNested : ℕ → ℕ → ℤ → Qcow ℤ
  | 0 => fun _ _ => return -eio
  | depth + 1 => updateClusterRefcountWith (updateNested depth)

def updateClusterRefcount : ℕ → ℤ → Qcow ℤ := updateNested updateDepth

def updateRefcount (offset length : ℕ) (addend : ℤ) : Qcow Unit :=
  updateRefcountWith updateClusterRefcount offset length addend

def allocClusters (size : ℕ) : Qcow ℕ := do
  let offset ← allocClustersNoref size
  updateRefcount offset size 1
  return offset

def freeClusters (offset size : ℕ) : Qcow Unit := updateRefcount offset size (-1)

/-- The branch of `alloc_bytes` with enough space in the current cluster. -/
def allocBytesHere (size : ℕ) : Qcow ℕ := do
  let s ← get
  let offset := s.freeByteOffset
  let freeInCluster := s.clusterSize - offset % s.clusterSize
  modify fun s => { s with freeByteOffset := if freeInCluster = size then 0 else offset + size }
  if offset % s.clusterSize ≠ 0 then
    let _ ← updateClusterRefcount (offset / s.clusterSize) 1
  return offset

/-- `alloc_bytes`: compressed sectors, kept contiguous when the next cluster
allows it. -/
def allocBytes (size : ℕ) : Qcow ℕ := do
  if (← get).freeByteOffset = 0 then
    let offset ← allocClusters (← get).clusterSize
    modify fun s => { s with freeByteOffset := offset }
  let s ← get
  if size ≤ s.clusterSize - s.freeByteOffset % s.clusterSize then allocBytesHere size
  else
    let offset ← allocClusters s.clusterSize
    let s ← get
    let clusterOffset := s.freeByteOffset / s.clusterSize * s.clusterSize
    if clusterOffset + s.clusterSize = offset then
      -- contiguous data
      let _ ← updateClusterRefcount (s.freeByteOffset / s.clusterSize) 1
      modify fun s => { s with freeByteOffset := s.freeByteOffset + size }
      return s.freeByteOffset
    else
      -- `goto redo`: a fresh cluster has room for any `size` up to a cluster
      modify fun s => { s with freeByteOffset := offset }
      allocBytesHere size

end Ar7Qemu.Qcow2
