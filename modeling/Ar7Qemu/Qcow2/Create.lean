import Ar7Qemu.Qcow2.Snapshot

/-! Creating and opening an image. `qcow_create2` lays out the header, the
backing format extension, the backing file name, the L1 table, one cluster of
refcount table and the refcount blocks; `qcow_open` reads them back. -/

namespace Ar7Qemu.Qcow2

open Lib Block

/-- `QCOW_MAGIC`: `QFI\xfb`. -/
def qcowMagic : ℕ := 0x514649fb
def qcowVersion : ℕ := 2
def qcowCryptAes : ℕ := 1
def extMagicEnd : ℕ := 0
def extMagicBackingFormat : ℕ := 0xE2792ACA

structure QCowHeader where
  magic : ℕ
  version : ℕ
  backingFileOffset : ℕ
  backingFileSize : ℕ
  clusterBits : ℕ
  size : ℕ
  cryptMethod : ℕ
  l1Size : ℕ
  l1TableOffset : ℕ
  refcountTableOffset : ℕ
  refcountTableClusters : ℕ
  nbSnapshots : ℕ
  snapshotsOffset : ℕ

/-- `sizeof(QCowHeader)`. -/
def headerLength : ℕ := 72

namespace QCowHeader

def bytes (h : QCowHeader) : Bytes := fun i =>
  if i < 4 then Bytes.beByte 4 h.magic i
  else if i < 8 then Bytes.beByte 4 h.version (i - 4)
  else if i < 16 then Bytes.beByte 8 h.backingFileOffset (i - 8)
  else if i < 20 then Bytes.beByte 4 h.backingFileSize (i - 16)
  else if i < 24 then Bytes.beByte 4 h.clusterBits (i - 20)
  else if i < 32 then Bytes.beByte 8 h.size (i - 24)
  else if i < 36 then Bytes.beByte 4 h.cryptMethod (i - 32)
  else if i < 40 then Bytes.beByte 4 h.l1Size (i - 36)
  else if i < 48 then Bytes.beByte 8 h.l1TableOffset (i - 40)
  else if i < 56 then Bytes.beByte 8 h.refcountTableOffset (i - 48)
  else if i < 60 then Bytes.beByte 4 h.refcountTableClusters (i - 56)
  else if i < 64 then Bytes.beByte 4 h.nbSnapshots (i - 60)
  else Bytes.beByte 8 h.snapshotsOffset (i - 64)

def ofBytes (b : Bytes) : QCowHeader where
  magic := b.word 4 0
  version := b.word 4 4
  backingFileOffset := b.word 8 8
  backingFileSize := b.word 4 16
  clusterBits := b.word 4 20
  size := b.word 8 24
  cryptMethod := b.word 4 32
  l1Size := b.word 4 36
  l1TableOffset := b.word 8 40
  refcountTableOffset := b.word 8 48
  refcountTableClusters := b.word 4 56
  nbSnapshots := b.word 4 60
  snapshotsOffset := b.word 8 64

end QCowHeader

/-- `n` rounded up to a multiple of 8 in `uint32_t` arithmetic. -/
def pad8 (n : ℕ) : ℕ := (n + 7) % 2 ^ 32 / 8 * 8

/-- The arguments of `qcow_create2`. -/
structure CreateOptions where
  totalSize : ℕ
  backingFile : Option (List UInt8)
  backingFormat : Option (List UInt8)
  encrypt : Bool

/-- The local variables of `qcow_create2`: where everything goes. -/
structure CreateLayout where
  /-- Length of the padded format name in the extension. -/
  extLen : ℕ
  backingFileOffset : ℕ
  backingFileSize : ℕ
  headerSize : ℕ
  l1Size : ℤ
  l1TableOffset : ℕ
  refcountTableOffset : ℕ
  refcountBlockOffset : ℕ
  refClusters : ℕ

/-- `cluster_bits` of a new image. -/
def createClusterBits : ℕ := 12

/-- `l1_size` of a new image, as the `int` it is kept in. The product wraps in
64 bits. -/
def createL1Size (totalSize : ℕ) : ℤ :=
  let bytes : ℤ := (totalSize * 512 : ℕ)
  let wrapped := (bytes + 2 ^ 63) % 2 ^ 64 - 2 ^ 63
  toInt32 (((wrapped + 2 ^ 21 - 1) / 2 ^ 21) % 2 ^ 32).toNat

/-- The layout that `qcow_create2` computes. A negative `l1_size` leaves no room
for the table. -/
def createLayout (o : CreateOptions) : CreateLayout :=
  let clusterSize := 2 ^ createClusterBits
  let formatLen := (o.backingFormat.getD []).length
  let extLen := if o.backingFile.isSome then (formatLen + 7) / 8 * 8 else 0
  let extSize := if o.backingFile.isSome ∧ o.backingFormat.isSome
    then (8 + extLen + 7) / 8 * 8 else 0
  let nameLen := (o.backingFile.getD []).length
  let headerSize := (headerLength + extSize + nameLen + 7) / 8 * 8
  let l1Size := createL1Size o.totalSize
  let l1TableOffset := alignOffset headerSize clusterSize
  let refcountTableOffset := l1TableOffset + alignOffset (l1Size.toNat * 8) clusterSize
  let refcountBlockOffset := refcountTableOffset + clusterSize
  -- the blocks themselves are not counted
  let refClusters := refcountBlockOffset / clusterSize / 2 ^ (createClusterBits - 1) + 1
  { extLen
    backingFileOffset := if o.backingFile.isSome then headerLength + extSize else 0
    backingFileSize := nameLen
    headerSize, l1Size, l1TableOffset, refcountTableOffset, refcountBlockOffset, refClusters }

/-- The clusters whose count `create_refcount_update` increments. -/
def createRefcountUpdate (offset size : ℕ) : List ℕ :=
  let clusterSize := 2 ^ createClusterBits
  let start := offset / clusterSize
  if offset + size = 0 then []
  else (List.range ((offset + size - 1) / clusterSize + 1 - start)).map (start + ·)

/-- All increments that `qcow_create2` makes, in order. -/
def createUpdates (l : CreateLayout) : List ℕ :=
  let clusterSize := 2 ^ createClusterBits
  createRefcountUpdate 0 l.headerSize ++
  createRefcountUpdate l.l1TableOffset (l.l1Size.toNat * 8) ++
  createRefcountUpdate l.refcountTableOffset clusterSize ++
  createRefcountUpdate l.refcountBlockOffset (l.refClusters * clusterSize)

/-- The header that `qcow_create2` writes. -/
def createHeader (o : CreateOptions) (l : CreateLayout) : QCowHeader where
  magic := qcowMagic
  version := qcowVersion
  backingFileOffset := l.backingFileOffset
  backingFileSize := l.backingFileSize
  clusterBits := createClusterBits
  size := o.totalSize * 512
  cryptMethod := if o.encrypt then qcowCryptAes else 0
  l1Size := (l.l1Size % 2 ^ 32).toNat
  l1TableOffset := l.l1TableOffset
  refcountTableOffset := l.refcountTableOffset
  refcountTableClusters := 1
  nbSnapshots := 0
  snapshotsOffset := 0

/-- What follows the header: the format extension and the backing file name. -/
def createNames (o : CreateOptions) (l : CreateLayout) : List UInt8 :=
  match o.backingFile with
  | none => []
  | some name =>
    match o.backingFormat with
    | none => name
    | some [] => name
    | some format =>
      (List.range 4).map (Bytes.beByte 4 extMagicBackingFormat) ++
      (List.range 4).map (Bytes.beByte 4 l.extLen) ++
      format ++ List.replicate (l.extLen - format.length) 0 ++ name

/-- `qcow_create2`: the file it leaves. -/
def qcowCreate2 (o : CreateOptions) : HostFile :=
  let clusterSize := 2 ^ createClusterBits
  let l := createLayout o
  let names := createNames o l
  let counts := fun k => (createUpdates l).count k
  let table := fun i => if i < l.refClusters then l.refcountBlockOffset + i * clusterSize else 0
  let zero : Bytes := fun _ => 0
  let d := zero.write 0 headerLength (createHeader o l).bytes
  let d := d.write headerLength names.length (strBytes names)
  let d := d.write l.l1TableOffset (l.l1Size.toNat * 8) zero
  let d := d.write l.refcountTableOffset clusterSize (Bytes.table 8 table)
  let d := d.write l.refcountBlockOffset (l.refClusters * clusterSize) (Bytes.table 2 counts)
  { data := d
    len := l.refcountBlockOffset + l.refClusters * clusterSize
    io := fun _ => none
    tick := 0 }

/-- The loop of `qcow_read_extensions`: the return code and the backing format. -/
def readExtensions (endOffset : ℕ) : ℕ → ℕ → List UInt8 → Qcow (ℤ × List UInt8)
  | 0, _, format => return (0, format)
  | fuel + 1, offset, format => do
    if endOffset ≤ offset then return (0, format)
    let (ok, ext) ← pread offset 8 fun _ => 0
    if !ok then return (1, format)
    let magic := ext.word 4 0
    let len := ext.word 4 4
    let offset := offset + 8
    if magic = extMagicEnd then return (0, format)
    else if magic = extMagicBackingFormat then
      -- `sizeof(bs->backing_format)`
      if 16 ≤ len then return (2, format)
      let (ok, name) ← pread offset len fun _ => 0
      if !ok then return (3, format)
      readExtensions endOffset fuel (offset + pad8 len) (cstring len name)
    else readExtensions endOffset fuel (offset + pad8 len) format

/-- What `qcow_open` leaves in the `BlockDriverState` beside the driver state. -/
structure OpenResult where
  state : BDRVQcowState
  backingFile : List UInt8
  backingFormat : List UInt8

/-- The driver state before `qcow_open`: the zeroed `bs->opaque`. -/
def blankState (hd : HostFile) (codec : Codec) : BDRVQcowState where
  hd
  backingHd := none
  codec
  totalSectors := 0
  clusterBits := 0
  l1Size := 0
  l1VmStateIndex := 0
  l1TableOffset := 0
  l1Table := fun _ => 0
  l1Freed := false
  l2Cache := fun _ _ => 0
  l2CacheOffsets := fun _ => 0
  l2CacheCounts := fun _ => 0
  clusterCache := fun _ => 0
  clusterCacheOffset := noOffset
  refcountTable := fun _ => 0
  refcountTableOffset := 0
  refcountTableSize := 0
  refcountBlockCacheOffset := 0
  refcountBlockCache := fun _ => 0
  freeClusterIndex := 0
  freeByteOffset := 0
  cryptMethod := 0
  cryptMethodHeader := 0
  snapshotsOffset := 0
  snapshotsSize := 0
  snapshots := []

/-- The checks of `qcow_open` on the header before it allocates anything. -/
def headerAccepted (h : QCowHeader) : Bool :=
  h.magic = qcowMagic && h.version = qcowVersion && 1 < h.size &&
    9 ≤ h.clusterBits && h.clusterBits ≤ 16 && h.cryptMethod ≤ qcowCryptAes

/-- `l1_vm_state_index`: the L1 entries that `header.size` needs, in an `int`. -/
def vmStateIndex (h : QCowHeader) : ℤ :=
  let shift := h.clusterBits + (h.clusterBits - 3)
  toInt32 ((h.size + 2 ^ shift - 1) % 2 ^ 64 / 2 ^ shift)

/-- The fields that `qcow_open` takes from the header. -/
def headerState (h : QCowHeader) (s : BDRVQcowState) : BDRVQcowState :=
  { s with
    cryptMethodHeader := h.cryptMethod
    clusterBits := h.clusterBits
    totalSectors := h.size / 512
    refcountTableOffset := h.refcountTableOffset
    refcountTableSize := h.refcountTableClusters * 2 ^ (h.clusterBits - 3) % 2 ^ 32
    snapshotsOffset := h.snapshotsOffset
    l1Size := h.l1Size
    l1VmStateIndex := vmStateIndex h
    l1TableOffset := h.l1TableOffset
    clusterCacheOffset := noOffset }

/-- The first part of `qcow_open`: the header, the L1 table and, through
`refcount_init`, the refcount table. A table with a negative size cannot be
allocated. -/
def openTables : Qcow (Option QCowHeader) := do
  let (ok, b) ← pread 0 headerLength fun _ => 0
  if !ok then return none
  let h := QCowHeader.ofBytes b
  if !headerAccepted h then return none
  modify (headerState h)
  if toInt32 h.l1Size < vmStateIndex h ∨ toInt32 h.l1Size < 0 then return none
  let (ok, l1Table) ← preadTable 8 h.l1TableOffset h.l1Size fun _ => 0
  if !ok then return none
  modify fun s => { s with l1Table }
  let s ← get
  let (ok, refcountTable) ← preadTable 8 s.refcountTableOffset s.refcountTableSize fun _ => 0
  if !ok then return none
  modify fun s => { s with refcountTable }
  return some h

/-- The second part of `qcow_open`: the header extensions, the backing file name
and the snapshots. -/
def openNames (h : QCowHeader) : Qcow (Option (List UInt8 × List UInt8)) := do
  let s ← get
  let extEnd := if h.backingFileOffset ≠ 0 then h.backingFileOffset else s.clusterSize
  let (ret, format) ← readExtensions extEnd extEnd headerLength []
  if ret ≠ 0 then return none
  let len := min h.backingFileSize 1023
  let (ok, name) ← if h.backingFileOffset ≠ 0 then pread h.backingFileOffset len fun _ => 0
    else pure (true, fun _ => 0)
  if !ok then return none
  if !(← qcowReadSnapshots h.nbSnapshots) then return none
  return some (if h.backingFileOffset ≠ 0 then cstring len name else [], format)

/-- `qcow_open` on an opened file: the names it recovers, or failure. -/
def qcowOpenBody : Qcow (Option (List UInt8 × List UInt8)) := do
  match ← openTables with
  | none => return none
  | some h => openNames h

def qcowOpen (hd : HostFile) (codec : Codec) : Option OpenResult :=
  match qcowOpenBody (blankState hd codec) with
  | (none, _) => none
  | (some (backingFile, backingFormat), state) => some { state, backingFile, backingFormat }

end Ar7Qemu.Qcow2
