import Ar7Qemu.Lib.Record
import Ar7Qemu.Block.HostFile
import Mathlib.Logic.Function.Basic

/-! The driver for dynamic VHD images of `block-vpc.c`. An image starts with a copy of its footer, a
header and the block allocation table; blocks follow, each behind its bitmap, and the footer is the
last sector. A block is allocated where the footer was. -/

namespace Ar7Qemu.Vpc

open Lib Block

def headerSize : ℕ := 512

/-- A table entry that refers to no block. -/
def unused : ℕ := 0xffffffff

/-- `BDRVVPCState`, with the size of the visible disk. -/
structure VpcState where
  hd : HostFile
  footerBuf : Bytes
  freeDataBlockOffset : ℕ
  maxTableEntries : ℕ
  pagetable : ℕ → ℕ
  batOffset : ℕ
  lastBitmapOffset : Option ℕ
  blockSize : ℕ
  bitmapSize : ℕ
  totalSectors : ℕ

def byteSum (buf : Bytes) : ℕ → ℕ
  | 0 => 0
  | n + 1 => byteSum buf n + (buf n).toNat

def vpcChecksum (buf : Bytes) (size : ℕ) : ℕ := 2 ^ 32 - 1 - byteSum buf size % 2 ^ 32

/-! ### Creation -/

/-- The number of cylinders, heads and sectors per cylinder. -/
structure Geometry where
  cyls : ℕ
  heads : ℕ
  secsPerCyl : ℕ

def Geometry.sectors (g : Geometry) : ℕ := g.cyls * g.heads * g.secsPerCyl

/-- The cylinders are rounded up. -/
def geometryOf (cylsTimesHeads heads secsPerCyl : ℕ) : Geometry :=
  ⟨(cylsTimesHeads + heads - 1) / heads % 2 ^ 16, heads, secsPerCyl⟩

def calculateGeometry (totalSectors : ℕ) : Option Geometry :=
  if 65535 * 16 * 255 < totalSectors then none
  else if 65535 * 16 * 63 < totalSectors then some (geometryOf (totalSectors / 255) 16 255)
  else
    let heads := (totalSectors / 17 + 1023) / 1024 % 256
    let heads := if heads < 4 then 4 else heads
    if heads * 1024 ≤ totalSectors / 17 ∨ 16 < heads then
      if 16 * 1024 ≤ totalSectors / 31 then some (geometryOf (totalSectors / 63) 16 63)
      else some (geometryOf (totalSectors / 31) 16 31)
    else some (geometryOf (totalSectors / 17) heads 17)

/-- The fields of the footer, less its checksum. The names are "conectix", "qemu" and "Wi2k". -/
def footerFields (g : Geometry) (timestamp : ℕ) : List Field :=
  [⟨0, 8, 0x636f6e6563746978⟩, ⟨8, 4, 0x02⟩, ⟨12, 4, 0x00010000⟩, ⟨16, 8, headerSize⟩, ⟨24, 4, timestamp⟩,
   ⟨28, 4, 0x71656d75⟩, ⟨32, 2, 0x0005⟩, ⟨34, 2, 0x0003⟩, ⟨36, 4, 0x5769326b⟩, ⟨40, 8, g.sectors * 512⟩,
   ⟨48, 8, g.sectors * 512⟩, ⟨56, 2, g.cyls⟩, ⟨58, 1, g.heads⟩, ⟨59, 1, g.secsPerCyl⟩, ⟨60, 4, 3⟩]

def checksumOffset : ℕ := 64

def withChecksum (buf : Bytes) (checksum : ℕ) : Bytes := buf.write checksumOffset 4 (Bytes.beByte 4 checksum)

def footer (g : Geometry) (timestamp : ℕ) : Bytes :=
  withChecksum (Bytes.record (footerFields g timestamp)) (vpcChecksum (Bytes.record (footerFields g timestamp)) headerSize)

def numBatEntries (g : Geometry) : ℕ := (g.sectors + 0x200000 / 512) / (0x200000 / 512)

/-- The fields of the dynamic disk header, less its checksum. The name is "cxsparse". -/
def dyndiskFields (g : Geometry) : List Field :=
  [⟨0, 8, 0x6378737061727365⟩, ⟨8, 8, 0xffffffff⟩, ⟨16, 8, 3 * 512⟩, ⟨24, 4, 0x00010000⟩,
   ⟨28, 4, numBatEntries g⟩, ⟨32, 4, 0x200000⟩]

def dyndiskHeader (g : Geometry) : Bytes :=
  (Bytes.record (dyndiskFields g)).write 36 4 (Bytes.beByte 4 (vpcChecksum (Bytes.record (dyndiskFields g)) 1024))

/-- The length of the table in whole sectors. -/
def batLen (g : Geometry) : ℕ := (numBatEntries g * 4 + 511) / 512 * 512

/-- The file that `vpc_create` leaves, with `timestamp` the time of its creation. -/
def vpcCreate (totalSectors timestamp : ℕ) (io : ℕ → Option (ℕ → Bool)) : Option HostFile :=
  (calculateGeometry totalSectors).map fun g =>
    let file : Bytes := Bytes.write (fun _ => 0) 0 512 (footer g timestamp)
    let file := file.write (1536 + batLen g) 512 (footer g timestamp)
    let file := file.write 1536 (batLen g) (fun _ => 0xff)
    ⟨file.write 512 1024 (dyndiskHeader g), 1536 + batLen g + 512, io, 0⟩

/-! ### Opening -/

def lastBlockEnd (pagetable : ℕ → ℕ) (start len : ℕ) : ℕ → ℕ
  | 0 => start
  | n + 1 =>
    let free := lastBlockEnd pagetable start len n
    if pagetable n ≠ unused ∧ free < 512 * pagetable n + len then 512 * pagetable n + len else free

/-- `vpc_open`. The checksum of the footer is cleared in the buffer; when it does not match, the user
is only warned. The number of table entries is an `int`: the size of the table is its product modulo
`2 ^ 32`, a negative size cannot be allocated, and a negative number makes the loop empty. -/
def vpcOpen (hd : HostFile) : Option VpcState :=
  match hd.bdrvPread 0 headerSize fun _ => 0 with
  | ((false, _), _) => none
  | ((true, footerBuf), hd) =>
    if footerBuf.word 8 0 ≠ 0x636f6e6563746978 then none
    else
      match hd.bdrvPread (footerBuf.word 8 16) headerSize fun _ => 0 with
      | ((false, _), _) => none
      | ((true, buf), hd) =>
        if buf.word 8 0 ≠ 0x6378737061727365 then none
        else
          let blockSize := buf.word 4 32
          let bitmapSize := (blockSize / (8 * 512) + 511) / 512 * 512
          let maxTableEntries := buf.word 4 28
          let batOffset := buf.word 8 16
          let tableSize := maxTableEntries * 4 % 2 ^ 32
          match hd.bdrvPread batOffset tableSize fun _ => 0 with
          | ((false, _), _) => none
          | ((true, table), hd) =>
            let pagetable := fun i => table.word 4 (4 * i)
            some {
              hd := hd
              footerBuf := withChecksum footerBuf 0
              freeDataBlockOffset := lastBlockEnd pagetable ((batOffset + tableSize + 511) % 2 ^ 64 / 512 * 512)
                (bitmapSize + blockSize) (HostFile.intCount maxTableEntries)
              maxTableEntries := maxTableEntries
              pagetable := pagetable
              batOffset := batOffset
              lastBitmapOffset := none
              blockSize := blockSize
              bitmapSize := bitmapSize
              totalSectors := footerBuf.word 2 56 * footerBuf.word 1 58 * footerBuf.word 1 59 }

/-! ### Reading and writing -/

def tableIndex (s : VpcState) (sectorNum : ℕ) : ℕ := sectorNum * 512 / s.blockSize % 2 ^ 32

def Unallocated (s : VpcState) (sectorNum : ℕ) : Prop :=
  s.maxTableEntries ≤ tableIndex s sectorNum ∨ s.pagetable (tableIndex s sectorNum) = unused

instance (s : VpcState) (sectorNum : ℕ) : Decidable (Unallocated s sectorNum) := inferInstanceAs (Decidable (_ ∨ _))

def bitmapOffset (s : VpcState) (sectorNum : ℕ) : ℕ := 512 * s.pagetable (tableIndex s sectorNum)

def blockOffset (s : VpcState) (sectorNum : ℕ) : ℕ :=
  bitmapOffset s sectorNum + s.bitmapSize + 512 * (sectorNum * 512 % s.blockSize / 512)

/-- Before the first write to a block its bitmap is set; whether that succeeds is not looked at. -/
def setBitmap (s : VpcState) (sectorNum : ℕ) : VpcState :=
  if s.lastBitmapOffset ≠ some (bitmapOffset s sectorNum) then
    { s with lastBitmapOffset := some (bitmapOffset s sectorNum)
             hd := (s.hd.bdrvPwrite (bitmapOffset s sectorNum) s.bitmapSize fun _ => 0xff).2 }
  else s

def getSectorOffset (s : VpcState) (sectorNum : ℕ) (write : Bool) : Option ℕ × VpcState :=
  if Unallocated s sectorNum then (none, s)
  else (some (blockOffset s sectorNum), if write then setBitmap s sectorNum else s)

def rewriteFooter (s : VpcState) : Bool × VpcState :=
  let (ok, hd) := s.hd.bdrvPwrite s.freeDataBlockOffset headerSize s.footerBuf
  (ok, { s with hd := hd })

def allocBlock (s : VpcState) (sectorNum : ℕ) : Option ℕ × VpcState :=
  let index := tableIndex s sectorNum
  if s.totalSectors < sectorNum then (none, s)
  else if s.pagetable index ≠ unused then (none, s)
  else
    let s₁ := { s with pagetable := Function.update s.pagetable index (s.freeDataBlockOffset / 512 % 2 ^ 32)
                       hd := (s.hd.bdrvPwrite s.freeDataBlockOffset s.bitmapSize fun _ => 0xff).2
                       freeDataBlockOffset := (s.freeDataBlockOffset + (s.blockSize + s.bitmapSize) % 2 ^ 32) % 2 ^ 64 }
    let (footerOk, s₂) := rewriteFooter s₁
    if footerOk then
      let (batOk, hd) := s₂.hd.bdrvPwrite (s.batOffset + 4 * index % 2 ^ 32) 4 (Bytes.beByte 4 (s₂.pagetable index))
      if batOk then getSectorOffset { s₂ with hd := hd } sectorNum false
      else (none, { s₂ with hd := hd, freeDataBlockOffset := s.freeDataBlockOffset })
    else (none, { s₂ with freeDataBlockOffset := s.freeDataBlockOffset })

/-- One round of `vpc_write`. -/
def writeSector (s : VpcState) (sectorNum : ℕ) (buf : Bytes) : Bool × VpcState :=
  let (offset, s) := match getSectorOffset s sectorNum true with
    | (none, s) => allocBlock s sectorNum
    | (some offset, s) => (some offset, s)
  match offset with
  | none => (false, s)
  | some offset =>
    let (ok, hd) := s.hd.bdrvPwrite offset 512 buf
    (ok, { s with hd := hd })

def vpcWrite (s : VpcState) (sectorNum : ℕ) (buf : Bytes) : ℕ → Bool × VpcState
  | 0 => (true, s)
  | nb + 1 =>
    match writeSector s sectorNum buf with
    | (false, s) => (false, s)
    | (true, s) => vpcWrite s (sectorNum + 1) (buf.drop 512) nb

/-- One round of `vpc_read`: whether it succeeds, and the sector. -/
def readSector (s : VpcState) (sectorNum : ℕ) : (Bool × Bytes) × VpcState :=
  match getSectorOffset s sectorNum false with
  | (none, s) => ((true, fun _ => 0), s)
  | (some offset, s) =>
    let (r, hd) := s.hd.bdrvPread offset 512 fun _ => 0
    (r, { s with hd := hd })

/-- `vpc_read`: whether it succeeds, and the buffer from the first sector on. -/
def vpcRead (s : VpcState) (sectorNum : ℕ) : ℕ → (Bool × Bytes) × VpcState
  | 0 => ((true, fun _ => 0), s)
  | nb + 1 =>
    match readSector s sectorNum with
    | ((false, buf), s) => ((false, buf), s)
    | ((true, buf), s) =>
      let ((ok, rest), s) := vpcRead s (sectorNum + 1) nb
      ((ok, fun k => if k < 512 then buf k else rest (k - 512)), s)

end Ar7Qemu.Vpc
