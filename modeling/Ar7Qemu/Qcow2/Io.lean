import Ar7Qemu.Qcow2.Cluster

/-! Guest reads and writes of `block-qcow2.c`: the synchronous read loop over
unallocated, compressed and plain clusters, run allocation with copy-on-write,
linking a written run into its L2 table, and compressed writes. A loop whose run
length is zero never ends; it returns `none` here. -/

namespace Ar7Qemu.Qcow2

open Lib Block

/-- `encrypt_sectors` with either direction of the cipher. -/
def encryptSectors (f : ℕ → (Fin 512 → UInt8) → Fin 512 → UInt8) (sectorNum : ℕ) (b : Bytes) :
    Bytes := fun k =>
  f (sectorNum + k / 512) (fun j => b (k / 512 * 512 + j)) ⟨k % 512, Nat.mod_lt _ (by decide)⟩

def freeAnyClusters (clusterOffset nbClusters : ℕ) : Qcow Unit := do
  let s ← get
  if isCompressed clusterOffset then
    let nbCsectors := s.csizeMask (clusterOffset / 2 ^ s.csizeShift) + 1
    freeClusters (s.clusterOffsetMask clusterOffset / 512 * 512) (nbCsectors * 512)
  else freeClusters clusterOffset (nbClusters * s.clusterSize)

/-- `get_cluster_table`: the slot of the L2 table for a guest offset, allocated
or copied if it is not exclusive, its offset and the index in it. -/
def getClusterTable (offset : ℕ) : Qcow (Option (ℕ × ℕ × ℕ)) := do
  let s ← get
  let l1Index := l1IndexOf s offset
  let grown ← if s.l1Size ≤ l1Index then growL1Table (l1Index + 1).toNat else pure 0
  if grown < 0 then return none
  let l2Offset := (← get).l1Table l1Index.toNat
  if isCopied l2Offset then
    match ← l2Load (clearCopied l2Offset) with
    | none => return none
    | some slot => return some (slot, clearCopied l2Offset, l2IndexOf s offset)
  else
    if l2Offset ≠ 0 then freeClusters l2Offset (s.l2Size * 8)
    match ← l2Allocate l1Index.toNat with
    | none => return none
    | some slot =>
      return some (slot, clearCopied ((← get).l1Table l1Index.toNat), l2IndexOf s offset)

/-- The compressed descriptor of `size` bytes at `offset`: the offset, the
compressed flag, and the sectors beyond the first that they touch, in a
`uint64_t`. -/
def compressedEntry (s : BDRVQcowState) (offset size : ℕ) : ℕ :=
  (offset ||| oflagCompressed |||
    ((offset + size - 1) / 512 - offset / 512) * 2 ^ s.csizeShift) % 2 ^ 64

/-- `alloc_compressed_cluster_offset`, zero on failure. -/
def allocCompressedClusterOffset (offset compressedSize : ℕ) : Qcow ℕ := do
  match ← getClusterTable offset with
  | none => return 0
  | some (slot, l2Offset, l2Index) =>
    let clusterOffset := (← get).l2Cache slot l2Index
    if isCopied clusterOffset then return clearCopied clusterOffset
    if clusterOffset ≠ 0 then freeAnyClusters clusterOffset 1
    let offset ← allocBytes compressedSize
    let entry := compressedEntry (← get) offset compressedSize
    modify fun s => { s with
      l2Cache := Function.update s.l2Cache slot (Function.update (s.l2Cache slot) l2Index entry) }
    if !(← pwrite (l2Offset + l2Index * 8) 8 (Bytes.beByte 8 entry)) then return 0
    return entry

structure QCowL2Meta where
  offset : ℕ
  nStart : ℕ
  nbAvailable : ℕ
  nbClusters : ℕ

/-- The search loop of `alloc_cluster_offset` for a run that can be replaced
together, from entry `i` on. -/
def allocRun (l2Table : ℕ → ℕ) (clusterSize nbClusters : ℕ) : ℕ → ℕ → ℕ
  | 0, i => i
  | fuel + 1, i =>
    if nbClusters ≤ i then i
    else
      let i := i + countContiguousClusters (nbClusters - i) clusterSize l2Table i id
      if l2Table i ≠ 0 then i
      else
        let i := i + countContiguousFreeClusters (nbClusters - i) fun k => l2Table (i + k)
        if isCopied (l2Table i) || isCompressed (l2Table i) then i
        else allocRun l2Table clusterSize nbClusters fuel i

/-- `alloc_cluster_offset`: the host offset for a write, zero on failure, the
sectors it covers, and what linking it later needs. -/
def allocClusterOffset (offset nStart nEnd : ℕ) (m : QCowL2Meta) :
    Qcow (ℕ × ℕ × QCowL2Meta) := do
  match ← getClusterTable offset with
  | none => return (0, 0, m)
  | some (slot, _, l2Index) =>
    let s ← get
    let nbClusters := min (s.sizeToClustersInt (toInt32 (nEnd * 512))) (s.l2Size - l2Index)
    let l2Table := fun k => s.l2Cache slot (l2Index + k)
    let clusterOffset := l2Table 0
    if isCopied clusterOffset then
      -- every cluster with the copied flag is kept
      let n := countContiguousClusters (toUInt64 nbClusters) s.clusterSize l2Table 0 id
      let nbAvailable := min (n * s.clusterSectors) nEnd
      return (clearCopied clusterOffset, nbAvailable - nStart,
        { m with nbClusters := 0, nbAvailable })
    else
      let nbClusters := if isCompressed clusterOffset then 1 else nbClusters
      let n := allocRun l2Table s.clusterSize nbClusters.toNat (nbClusters.toNat + 1) 0
      let hostOffset ← allocClusters (n * s.clusterSize)
      let nbAvailable := min (n * s.clusterSectors) nEnd
      return (hostOffset, nbAvailable - nStart, { offset, nStart, nbAvailable, nbClusters := n })

/-- `decompress_cluster`: whether `cluster_cache` now holds the cluster. -/
def decompressCluster (clusterOffset : ℕ) : Qcow Bool := do
  let s ← get
  let coffset := s.clusterOffsetMask clusterOffset
  if s.clusterCacheOffset = coffset then return true
  let nbCsectors := s.csizeMask (clusterOffset / 2 ^ s.csizeShift) + 1
  let sectorOffset := coffset % 512
  let csize := nbCsectors * 512 - sectorOffset
  let (ok, d) ← pread (coffset / 512 * 512) (nbCsectors * 512) fun _ => 0
  if !ok then return false
  let r := s.codec.inflate s.clusterSize ((List.range csize).map fun i => d (sectorOffset + i))
  -- the memory behind `cluster_cache` stays as it is
  let out : Bytes := fun i => if h : i < s.clusterSize then r.2 ⟨i, h⟩ else s.clusterCache i
  modify fun s => { s with clusterCache := out }
  if r.1 then
    modify fun s => { s with clusterCacheOffset := coffset }
  return r.1

/-- `backing_read1`: how many of the sectors the backing file has. -/
def backingRead1 (totalSectors sectorNum nbSectors : ℕ) : ℕ :=
  if sectorNum + nbSectors ≤ totalSectors then nbSectors
  else if totalSectors ≤ sectorNum then 0
  else totalSectors - sectorNum

/-- `bs->total_sectors` of a backing file. -/
def backingSectors (f : HostFile) : ℕ := f.len / 512

/-- `bdrv_read` on the backing file: it does not grow, so a request past its end
is refused. -/
def backingRead (f : HostFile) (sectorNum nbSectors : ℕ) (buf : Bytes) : Qcow (Bool × Bytes) :=
  fun s =>
    if f.len < (sectorNum + nbSectors) * 512 then ((false, buf), s)
    else
      let r := f.bdrvPread (sectorNum * 512) (nbSectors * 512) buf
      (r.1, { s with backingHd := some r.2 })

/-- The buffer `buf` whose first `n` sectors are replaced by those of `d`. -/
def putSectors (n : ℕ) (d buf : Bytes) : Bytes := buf.write 0 (512 * n) d

/-- One pass of the loop of `qcow_read`: `n` sectors of the kind found at
`clusterOffset` into the front of `buf`. -/
def readRun (clusterOffset sectorNum n : ℕ) (buf : Bytes) : Qcow (Bool × Bytes) := do
  let s ← get
  let indexInCluster := sectorNum % s.clusterSectors
  if clusterOffset = 0 then
    match s.backingHd with
    | none => return (true, putSectors n (fun _ => 0) buf)
    | some f =>
      let n1 := backingRead1 (backingSectors f) sectorNum n
      -- `backing_read1` clears the part past the end
      let buf := buf.write (512 * n1) (512 * (n - n1)) fun _ => 0
      if n1 = 0 then return (true, buf)
      else backingRead f sectorNum n1 buf
  else if isCompressed clusterOffset then
    if !(← decompressCluster clusterOffset) then return (false, buf)
    return (true, putSectors n ((← get).clusterCache.drop (indexInCluster * 512)) buf)
  else
    let (ok, buf) ← pread (clusterOffset + indexInCluster * 512) (n * 512) buf
    if !ok then return (false, buf)
    if s.cryptMethod ≠ 0 then
      return (true, putSectors n (encryptSectors s.codec.decrypt sectorNum buf) buf)
    return (true, buf)

/-- The loop of `qcow_read`, with the buffer from the current sector on. -/
def qcowReadLoop : ℕ → ℕ → ℕ → Bytes → Qcow (Option ℤ × Bytes)
  | _, _, 0, buf => return (some 0, buf)
  | 0, _, _ + 1, buf => return (none, buf)
  | fuel + 1, sectorNum, nbSectors + 1, buf => do
    let (clusterOffset, n) ← getClusterOffset (sectorNum * 512) (nbSectors + 1)
    let (ok, buf) ← readRun clusterOffset sectorNum n buf
    if !ok then return (some (-1), buf)
    let (ret, rest) ← qcowReadLoop fuel (sectorNum + n) (nbSectors + 1 - n) (buf.drop (512 * n))
    return (ret, fun i => if i < 512 * n then buf i else rest (i - 512 * n))

def qcowRead (sectorNum nbSectors : ℕ) (buf : Bytes) : Qcow (Option ℤ × Bytes) :=
  qcowReadLoop nbSectors sectorNum nbSectors buf

/-- `copy_sectors`: sectors `nStart` to `nEnd` of a guest cluster into a host
cluster. -/
def copySectors (startSect clusterOffset nStart nEnd : ℕ) : Qcow Bool := do
  if nEnd ≤ nStart then return true
  let n := nEnd - nStart
  let (ret, d) ← qcowRead (startSect + nStart) n fun _ => 0
  if ret ≠ some 0 then return false
  let s ← get
  let d := if s.cryptMethod ≠ 0 then encryptSectors s.codec.encrypt (startSect + nStart) d else d
  pwrite ((clusterOffset / 512 + nStart) * 512) (n * 512) d

def freeOldClusters : List ℕ → Qcow Unit
  | [] => return ()
  | e :: es => do
    freeAnyClusters e 1
    freeOldClusters es

/-- `alloc_cluster_link_l2`: copy the unmodified head and tail of the run, enter
the run into the L2 table and free what it replaces. -/
def allocClusterLinkL2 (clusterOffset : ℕ) (m : QCowL2Meta) : Qcow Bool := do
  if m.nbClusters = 0 then return true
  let s ← get
  let startSect := m.offset / s.clusterSize * s.clusterSize / 512
  if m.nStart ≠ 0 then
    if !(← copySectors startSect clusterOffset 0 m.nStart) then return false
  if m.nbAvailable % s.clusterSectors ≠ 0 then
    let tail := m.nbAvailable / s.clusterSectors * s.clusterSectors
    if !(← copySectors (startSect + tail) (clusterOffset + tail * 512) (m.nbAvailable - tail)
        s.clusterSectors) then return false
  match ← getClusterTable m.offset with
  | none => return false
  | some (slot, l2Offset, l2Index) =>
    let old := (← get).l2Cache slot
    let new := fun j => if l2Index ≤ j ∧ j < l2Index + m.nbClusters
      then setCopied (clusterOffset + (j - l2Index) * s.clusterSize) else old j
    modify fun s => { s with l2Cache := Function.update s.l2Cache slot new }
    if !(← pwriteTable 8 (l2Offset + l2Index * 8) m.nbClusters fun i => new (l2Index + i)) then
      return false
    freeOldClusters
      (((List.range m.nbClusters).map fun i => old (l2Index + i)).filter fun e => e ≠ 0)
    return true

/-- `QCOW_MAX_CRYPT_CLUSTERS`. -/
def maxCryptClusters : ℕ := 32

/-- The end of the part of a write that one pass takes: the encryption buffer
holds a fixed number of clusters. -/
def writeEnd (s : BDRVQcowState) (sectorNum nbSectors : ℕ) : ℕ :=
  let nEnd := sectorNum % s.clusterSectors + nbSectors
  if s.cryptMethod ≠ 0 then min nEnd (maxCryptClusters * s.clusterSectors) else nEnd

/-- The bytes a write stores for a guest buffer. -/
def storedSectors (s : BDRVQcowState) (sectorNum : ℕ) (buf : Bytes) : Bytes :=
  if s.cryptMethod ≠ 0 then encryptSectors s.codec.encrypt sectorNum buf else buf

/-- The loop of `qcow_write`. -/
def qcowWriteLoop : ℕ → ℕ → ℕ → Bytes → Qcow (Option ℤ)
  | _, _, 0, _ => do
    -- disable the compressed cache
    modify fun s => { s with clusterCacheOffset := noOffset }
    return some 0
  | 0, _, _ + 1, _ => return none
  | fuel + 1, sectorNum, nbSectors + 1, buf => do
    let s ← get
    let indexInCluster := sectorNum % s.clusterSectors
    let nEnd := writeEnd s sectorNum (nbSectors + 1)
    let (clusterOffset, n, m) ← allocClusterOffset (sectorNum * 512) indexInCluster nEnd ⟨0, 0, 0, 0⟩
    if clusterOffset = 0 then return some (-1)
    let ok ← pwrite (clusterOffset + indexInCluster * 512) (n * 512) (storedSectors s sectorNum buf)
    let linked ← if ok then allocClusterLinkL2 clusterOffset m else pure false
    if !linked then
      freeAnyClusters clusterOffset m.nbClusters
      return some (-1)
    qcowWriteLoop fuel (sectorNum + n) (nbSectors + 1 - n) (buf.drop (512 * n))

def qcowWrite (sectorNum nbSectors : ℕ) (buf : Bytes) : Qcow (Option ℤ) :=
  qcowWriteLoop nbSectors sectorNum nbSectors buf

/-- `qcow_write_compressed`. The result of the write of an incompressible
cluster is not looked at. -/
def qcowWriteCompressed (sectorNum nbSectors : ℕ) (buf : Bytes) : Qcow (Option ℤ) := do
  let s ← get
  if nbSectors = 0 then
    -- align the end of the file to a sector boundary
    modify fun s => { s with hd := { s.hd with len := HostFile.alignSector s.hd.len } }
    return some 0
  if nbSectors ≠ s.clusterSectors then return some (-einval)
  let writeNormal : Qcow (Option ℤ) := do
    match ← qcowWrite sectorNum s.clusterSectors buf with
    | none => return none
    | some _ => return some 0
  match s.codec.deflate s.clusterSize fun i => buf i with
  | .error => return some (-1)
  | .full => writeNormal
  | .streamEnd out =>
    if s.clusterSize ≤ out.length then writeNormal
    else
      let clusterOffset ← allocCompressedClusterOffset (sectorNum * 512) out.length
      if clusterOffset = 0 then return some (-1)
      let hostOffset := s.clusterOffsetMask clusterOffset
      if !(← pwrite hostOffset out.length fun i => out.getD i 0) then return some (-1)
      return some 0

end Ar7Qemu.Qcow2
