import Ar7Qemu.Qcow2.Io

/-! Internal snapshots of `block-qcow2.c`: the pass that adjusts the refcounts
and copied flags of everything an L1 table reaches, reading and writing the
snapshot table, and creating, loading and deleting a snapshot. Strings are lists
of their bytes without the terminating NUL. -/

namespace Ar7Qemu.Qcow2

open Lib Block

/-- The refcount of one cluster in `update_snapshot_refcount`: changed by
`addend`, or only looked up. -/
def adjustRefcount (clusterIndex : ℕ) (addend : ℤ) : Qcow ℤ := do
  if addend ≠ 0 then updateClusterRefcount clusterIndex addend
  else return (← getRefcount clusterIndex : ℕ)

/-- The body of the inner loop of `update_snapshot_refcount`: the new value of
one L2 entry. -/
def updateL2Entry (addend : ℤ) (entry : ℕ) : Qcow ℕ := do
  if entry = 0 then return 0
  let s ← get
  let offset := clearCopied entry
  if isCompressed offset then
    if addend ≠ 0 then
      let nbCsectors := s.csizeMask (offset / 2 ^ s.csizeShift) + 1
      updateRefcount (s.clusterOffsetMask offset / 512 * 512) (nbCsectors * 512) addend
    -- compressed clusters are never modified
    return offset
  else
    let refcount ← adjustRefcount (offset / s.clusterSize) addend
    return if refcount = 1 then setCopied offset else offset

/-- The inner loop of `update_snapshot_refcount` over `n` entries from `j` on. -/
def updateL2Entries (addend : ℤ) : ℕ → ℕ → (ℕ → ℕ) → Qcow (ℕ → ℕ)
  | 0, _, l2Table => return l2Table
  | n + 1, j, l2Table => do
    let e ← updateL2Entry addend (l2Table j)
    updateL2Entries addend n (j + 1) (Function.update l2Table j e)

/-- Whether two tables differ in one of their first `n` entries. -/
def tableModified (old new : ℕ → ℕ) (n : ℕ) : Bool :=
  (List.range n).any fun j => old j ≠ new j

/-- The body of the outer loop of `update_snapshot_refcount`: the new value of
one L1 entry, `none` on an I/O error. -/
def updateL1Entry (addend : ℤ) (entry : ℕ) : Qcow (Option ℕ) := do
  if entry = 0 then return some 0
  let s ← get
  let l2Offset := clearCopied entry
  let (ok, l2Table) ← preadTable 8 l2Offset s.l2Size fun _ => 0
  if !ok then return none
  let l2Table' ← updateL2Entries addend s.l2Size 0 l2Table
  if tableModified l2Table l2Table' s.l2Size then
    if !(← pwriteTable 8 l2Offset s.l2Size l2Table') then return none
  let refcount ← adjustRefcount (l2Offset / s.clusterSize) addend
  return some (if refcount = 1 then setCopied l2Offset else l2Offset)

/-- The outer loop of `update_snapshot_refcount` over `n` entries from `i` on,
and whether it ran to the end. `live` says that the table is the active one, so
that its entries change in place. -/
def updateL1Entries (live : Bool) (addend : ℤ) : ℕ → ℕ → (ℕ → ℕ) → Qcow (Bool × (ℕ → ℕ))
  | 0, _, l1Table => return (true, l1Table)
  | n + 1, i, l1Table => do
    match ← updateL1Entry addend (l1Table i) with
    | none => return (false, l1Table)
    | some e =>
      let l1Table := Function.update l1Table i e
      if live then
        modify fun s => { s with l1Table }
      updateL1Entries live addend n (i + 1) l1Table

def updateSnapshotRefcount (l1TableOffset l1Size : ℕ) (addend : ℤ) : Qcow Bool := do
  l2CacheReset
  let s ← get
  let live : Bool := l1TableOffset = s.l1TableOffset
  let (ok, l1Table) ← if live then pure (true, s.l1Table)
    else preadTable 8 l1TableOffset l1Size fun _ => 0
  if !ok then return false
  let (ok, l1Table') ← updateL1Entries live addend l1Size 0 l1Table
  if !ok then return false
  if tableModified l1Table l1Table' l1Size then pwriteTable 8 l1TableOffset l1Size l1Table'
  else return true

/-- `sizeof(QCowSnapshotHeader)`. -/
def snapshotHeaderSize : ℕ := 40

/-- `QCowSnapshotHeader` of a snapshot in its on-disk byte order. -/
def snapshotHeader (sn : QCowSnapshot) : Bytes := fun i =>
  if i < 8 then Bytes.beByte 8 sn.l1TableOffset i
  else if i < 12 then Bytes.beByte 4 sn.l1Size (i - 8)
  else if i < 14 then Bytes.beByte 2 sn.idStr.length (i - 12)
  else if i < 16 then Bytes.beByte 2 sn.name.length (i - 14)
  else if i < 20 then Bytes.beByte 4 sn.dateSec (i - 16)
  else if i < 24 then Bytes.beByte 4 sn.dateNsec (i - 20)
  else if i < 32 then Bytes.beByte 8 sn.vmClockNsec (i - 24)
  else if i < 36 then Bytes.beByte 4 sn.vmStateSize (i - 32)
  else 0

def strBytes (l : List UInt8) : Bytes := fun i => l.getD i 0

/-- The bytes of a C string buffer up to its NUL. -/
def cstring (n : ℕ) (b : Bytes) : List UInt8 := ((List.range n).map b).takeWhile (· ≠ 0)

/-- The first loop of `qcow_write_snapshots`: the size of the table. -/
def snapshotsSizeOf : List QCowSnapshot → ℕ → ℕ
  | [], offset => offset
  | sn :: sns, offset =>
    snapshotsSizeOf sns
      (alignOffset offset 8 + snapshotHeaderSize + sn.idStr.length + sn.name.length)

/-- The second loop of `qcow_write_snapshots`. -/
def writeSnapshotEntries : List QCowSnapshot → ℕ → Qcow Bool
  | [], _ => return true
  | sn :: sns, offset => do
    let offset := alignOffset offset 8
    if !(← pwrite offset snapshotHeaderSize (snapshotHeader sn)) then return false
    let offset := offset + snapshotHeaderSize
    if !(← pwrite offset sn.idStr.length (strBytes sn.idStr)) then return false
    let offset := offset + sn.idStr.length
    if !(← pwrite offset sn.name.length (strBytes sn.name)) then return false
    writeSnapshotEntries sns (offset + sn.name.length)

/-- Offsets of `snapshots_offset` and `nb_snapshots` in the header. -/
def snapshotsOffsetField : ℕ := 64
def nbSnapshotsField : ℕ := 60

/-- `alloc_clusters` of a size that may have wrapped below zero: nothing is
searched or counted then. -/
def allocClustersInt (size : ℤ) : Qcow ℕ := do
  if 0 ≤ size then allocClusters size.toNat
  else
    let s ← get
    return (s.freeClusterIndex - s.sizeToClustersInt size).toNat * s.clusterSize

/-- `qcow_write_snapshots`: a new table, then the header fields, then the old
table is freed. The size of the table is kept in an `int`. -/
def qcowWriteSnapshots : Qcow Bool := do
  let s ← get
  let snapshotsSize := toInt32 (snapshotsSizeOf s.snapshots 0)
  let snapshotsOffset ← allocClustersInt snapshotsSize
  if !(← writeSnapshotEntries s.snapshots snapshotsOffset) then return false
  if !(← pwrite snapshotsOffsetField 8 (Bytes.beByte 8 snapshotsOffset)) then return false
  if !(← pwrite nbSnapshotsField 4 (Bytes.beByte 4 s.snapshots.length)) then return false
  freeClusters s.snapshotsOffset s.snapshotsSize.toNat
  modify fun s => { s with snapshotsOffset, snapshotsSize }
  return true

/-- The loop of `qcow_read_snapshots` over `n` entries, with the offset after
the last one. -/
def readSnapshotEntries : ℕ → ℕ → Qcow (Option (List QCowSnapshot × ℕ))
  | 0, offset => return some ([], offset)
  | n + 1, offset => do
    let offset := alignOffset offset 8
    let (ok, h) ← pread offset snapshotHeaderSize fun _ => 0
    if !ok then return none
    let idStrSize := h.word 2 12
    let nameSize := h.word 2 14
    let offset := offset + snapshotHeaderSize + h.word 4 36
    let (ok, idStr) ← pread offset idStrSize fun _ => 0
    if !ok then return none
    let offset := offset + idStrSize
    let (ok, name) ← pread offset nameSize fun _ => 0
    if !ok then return none
    match ← readSnapshotEntries n (offset + nameSize) with
    | none => return none
    | some (sns, stop) =>
      return some ({
        l1TableOffset := h.word 8 0
        l1Size := h.word 4 8
        idStr := cstring idStrSize idStr
        name := cstring nameSize name
        vmStateSize := h.word 4 32
        dateSec := h.word 4 16
        dateNsec := h.word 4 20
        vmClockNsec := h.word 8 24 } :: sns, stop)

/-- `qcow_read_snapshots`, given `nb_snapshots`. -/
def qcowReadSnapshots (nbSnapshots : ℕ) : Qcow Bool := do
  if nbSnapshots = 0 then
    modify fun s => { s with snapshots := [], snapshotsSize := 0 }
    return true
  let s ← get
  match ← readSnapshotEntries nbSnapshots s.snapshotsOffset with
  | none =>
    modify fun s => { s with snapshots := [] }
    return false
  | some (snapshots, stop) =>
    modify fun s => { s with snapshots, snapshotsSize := toInt32 (stop - s.snapshotsOffset) }
    return true

/-- `strtoul(p, NULL, 10)`: white space, a sign, then decimal digits, saturated
at `ULONG_MAX`. -/
def strtoul (p : List UInt8) : ℕ :=
  let isSpace (c : UInt8) : Bool := c = 32 || (9 ≤ c && c ≤ 13)
  let p := p.dropWhile isSpace
  let neg : Bool := p.head? = some 45
  let p := if neg || p.head? = some 43 then p.tail else p
  let digits := p.takeWhile fun c => 48 ≤ c && c ≤ 57
  let v := digits.foldl (fun a c => a * 10 + (c.toNat - 48)) 0
  if 2 ^ 64 ≤ v then 2 ^ 64 - 1 else if neg then (2 ^ 64 - v) % 2 ^ 64 else v

/-- The loop of `find_new_snapshot_id`. -/
def maxSnapshotId : List QCowSnapshot → ℤ → ℤ
  | [], idMax => idMax
  | sn :: sns, idMax =>
    let id := toInt32 (strtoul sn.idStr)
    maxSnapshotId sns (if idMax < id then id else idMax)

/-- `snprintf("%d", ...)`. -/
def decimal (n : ℤ) : List UInt8 := (toString n).toList.map fun c => UInt8.ofNat c.toNat

def findNewSnapshotId (snapshots : List QCowSnapshot) : List UInt8 :=
  decimal (toInt32 (maxSnapshotId snapshots 0 + 1).toNat)

def findSnapshotById (snapshots : List QCowSnapshot) (idStr : List UInt8) : Option ℕ :=
  snapshots.findIdx? fun sn => sn.idStr = idStr

def findSnapshotByIdOrName (snapshots : List QCowSnapshot) (name : List UInt8) : Option ℕ :=
  match findSnapshotById snapshots name with
  | some i => some i
  | none => snapshots.findIdx? fun sn => sn.name = name

/-- `QEMUSnapshotInfo`. -/
structure SnapshotInfo where
  idStr : List UInt8
  name : List UInt8
  vmStateSize : ℕ
  dateSec : ℕ
  dateNsec : ℕ
  vmClockNsec : ℕ

def qcowSnapshotCreate (info : SnapshotInfo) : Qcow ℤ := do
  let s ← get
  let idStr := if info.idStr = [] then findNewSnapshotId s.snapshots else info.idStr
  if (findSnapshotById s.snapshots idStr).isSome then return -enoent
  if !(← updateSnapshotRefcount s.l1TableOffset s.l1Size 1) then return -1
  let l1TableOffset ← allocClusters (s.l1Size * 8)
  if !(← pwriteTable 8 l1TableOffset s.l1Size (← get).l1Table) then return -1
  let sn : QCowSnapshot := {
    l1TableOffset
    l1Size := s.l1Size
    idStr
    name := info.name
    vmStateSize := info.vmStateSize
    dateSec := info.dateSec
    dateNsec := info.dateNsec
    vmClockNsec := info.vmClockNsec }
  modify fun s => { s with snapshots := s.snapshots ++ [sn] }
  if !(← qcowWriteSnapshots) then return -1
  return 0

/-- `qcow_snapshot_goto`. The header keeps the size of a longer active table. -/
def qcowSnapshotGoto (snapshotId : List UInt8) : Qcow ℤ := do
  let s ← get
  match (findSnapshotByIdOrName s.snapshots snapshotId).bind (s.snapshots[·]?) with
  | none => return -enoent
  | some sn =>
    if !(← updateSnapshotRefcount s.l1TableOffset s.l1Size (-1)) then return -eio
    if (← growL1Table sn.l1Size) < 0 then return -eio
    modify fun s => { s with l1Size := sn.l1Size }
    let (ok, l1Table) ← preadTable 8 sn.l1TableOffset sn.l1Size (← get).l1Table
    modify fun s => { s with l1Table }
    if !ok then return -eio
    let s ← get
    if !(← pwriteTable 8 s.l1TableOffset sn.l1Size s.l1Table) then return -eio
    if !(← updateSnapshotRefcount s.l1TableOffset sn.l1Size 1) then return -eio
    return 0

def qcowSnapshotDelete (snapshotId : List UInt8) : Qcow ℤ := do
  let s ← get
  match findSnapshotByIdOrName s.snapshots snapshotId with
  | none => return -enoent
  | some i =>
    match s.snapshots[i]? with
    | none => return -enoent
    | some sn =>
      if !(← updateSnapshotRefcount sn.l1TableOffset sn.l1Size (-1)) then return -eio
      -- the copied flags of the active tables follow the new counts
      if !(← updateSnapshotRefcount s.l1TableOffset s.l1Size 0) then return -eio
      freeClusters sn.l1TableOffset (sn.l1Size * 8)
      modify fun s => { s with snapshots := s.snapshots.eraseIdx i }
      if !(← qcowWriteSnapshots) then return -1
      return 0

end Ar7Qemu.Qcow2
