import Ar7Qemu.Block.HostFile

/-! The driver state of `block-qcow2.c`: image geometry, the in-memory copies of
the L1 and refcount tables, the L2 and refcount block caches, and the host file
they are read from. Tables are functions with an explicit size, so that a table
read from disk is the decoded store. -/

namespace Ar7Qemu.Qcow2

open Lib Block

def eio : ℤ := 5
def einval : ℤ := 22
def enoent : ℤ := 2

/-- `QCOW_OFLAG_COMPRESSED`: the cluster is compressed. -/
def oflagCompressed : ℕ := 2 ^ 62

/-- `e & QCOW_OFLAG_COPIED`: the refcount of the referenced cluster is exactly one. -/
def isCopied (e : ℕ) : Bool := e / 2 ^ 63 % 2 = 1

/-- `e & QCOW_OFLAG_COMPRESSED`. -/
def isCompressed (e : ℕ) : Bool := e / 2 ^ 62 % 2 = 1

/-- `e & ~QCOW_OFLAG_COPIED`. -/
def clearCopied (e : ℕ) : ℕ := e % 2 ^ 63

/-- `e | QCOW_OFLAG_COPIED`. -/
def setCopied (e : ℕ) : ℕ := e % 2 ^ 63 + 2 ^ 63

/-- Outcome of `deflate` with a cluster of room: an error, out of room, or the
finished stream. -/
inductive DeflateResult where
  | error
  | full
  | streamEnd (out : List UInt8)

/-- What the driver calls outside its own file: zlib on one cluster and AES in
CBC mode on one sector, under the key set by `qcow_set_key`. `inflate` says
whether a whole cluster came out and what it left in the output buffer. -/
structure Codec where
  deflate : (n : ℕ) → (Fin n → UInt8) → DeflateResult
  inflate : (n : ℕ) → List UInt8 → Bool × (Fin n → UInt8)
  encrypt : ℕ → (Fin 512 → UInt8) → Fin 512 → UInt8
  decrypt : ℕ → (Fin 512 → UInt8) → Fin 512 → UInt8

structure QCowSnapshot where
  l1TableOffset : ℕ
  l1Size : ℕ
  idStr : List UInt8
  name : List UInt8
  vmStateSize : ℕ
  dateSec : ℕ
  dateNsec : ℕ
  vmClockNsec : ℕ
  deriving DecidableEq

/-- `BDRVQcowState` with the fields of its `BlockDriverState` that it uses. -/
structure BDRVQcowState where
  hd : HostFile
  backingHd : Option HostFile
  codec : Codec
  totalSectors : ℕ
  clusterBits : ℕ
  l1Size : ℕ
  l1VmStateIndex : ℤ
  l1TableOffset : ℕ
  l1Table : ℕ → ℕ
  /-- `s->l1_table` points to freed memory. -/
  l1Freed : Bool
  l2Cache : ℕ → ℕ → ℕ
  l2CacheOffsets : ℕ → ℕ
  l2CacheCounts : ℕ → ℕ
  clusterCache : Bytes
  clusterCacheOffset : ℕ
  refcountTable : ℕ → ℕ
  refcountTableOffset : ℕ
  refcountTableSize : ℕ
  refcountBlockCacheOffset : ℕ
  refcountBlockCache : ℕ → ℕ
  freeClusterIndex : ℕ
  freeByteOffset : ℕ
  cryptMethod : ℕ
  cryptMethodHeader : ℕ
  snapshotsOffset : ℕ
  /-- Size of the snapshot table in bytes, an `int`. -/
  snapshotsSize : ℤ
  snapshots : List QCowSnapshot

namespace BDRVQcowState

variable (s : BDRVQcowState)

def clusterSize : ℕ := 2 ^ s.clusterBits
def clusterSectors : ℕ := 2 ^ (s.clusterBits - 9)
def l2Bits : ℕ := s.clusterBits - 3
def l2Size : ℕ := 2 ^ s.l2Bits
def csizeShift : ℕ := 62 - (s.clusterBits - 8)

/-- `x & csize_mask`. -/
def csizeMask (x : ℕ) : ℕ := x % 2 ^ (s.clusterBits - 8)

/-- `x & cluster_offset_mask`. -/
def clusterOffsetMask (x : ℕ) : ℕ := x % 2 ^ s.csizeShift

/-- Refcounts in one block: `1 << (cluster_bits - REFCOUNT_SHIFT)`. -/
def refcountsPerBlock : ℕ := 2 ^ (s.clusterBits - 1)

def sizeToClusters (size : ℕ) : ℕ := (size + (s.clusterSize - 1)) / s.clusterSize

/-- `size_to_clusters` on a size that may have wrapped below zero. -/
def sizeToClustersInt (size : ℤ) : ℤ := (size + (s.clusterSize - 1)) / s.clusterSize

/-- Guest bytes mapped by one L1 entry: `1 << (l2_bits + cluster_bits)`. -/
def l1Bits : ℕ := s.l2Bits + s.clusterBits

end BDRVQcowState

def l2CacheSize : ℕ := 16

/-- `(uint64_t)-1`. -/
def noOffset : ℕ := 2 ^ 64 - 1

/-- `n` stored into an `int`. -/
def toInt32 (n : ℕ) : ℤ :=
  if n % 2 ^ 32 < 2 ^ 31 then (n % 2 ^ 32 : ℕ) else (n % 2 ^ 32 : ℕ) - 2 ^ 32

/-- A signed value passed as `uint64_t`. -/
def toUInt64 (n : ℤ) : ℕ := (n % 2 ^ 64).toNat

/-- A call of a driver function. -/
abbrev Qcow := StateM BDRVQcowState

/-- `bdrv_pread(s->hd, ...)`. -/
def pread (off n : ℕ) (buf : Bytes) : Qcow (Bool × Bytes) := fun s =>
  let r := s.hd.bdrvPread off n buf
  (r.1, { s with hd := r.2 })

/-- `bdrv_pwrite(s->hd, ...)`. -/
def pwrite (off n : ℕ) (d : Bytes) : Qcow Bool := fun s =>
  let r := s.hd.bdrvPwrite off n d
  (r.1, { s with hd := r.2 })

/-- Read `n` big-endian words of `w` bytes over the table `old`. -/
def preadTable (w off n : ℕ) (old : ℕ → ℕ) : Qcow (Bool × (ℕ → ℕ)) := do
  let (ok, b) ← pread off (w * n) (Bytes.table w old)
  return (ok, fun j => if j < n then b.word w (w * j) else old j)

/-- Write `n` big-endian words of `w` bytes. -/
def pwriteTable (w off n : ℕ) (t : ℕ → ℕ) : Qcow Bool := pwrite off (w * n) (Bytes.table w t)

end Ar7Qemu.Qcow2
