import Ar7Qemu.Lib.ByteStore
import Ar7Qemu.Lib.Run

/-! The NAND flash of `nand.c`. Its content is held in memory, on a block device with the spare areas in
memory, or on a block device with every spare area behind its page; three operations with their own
arithmetic for each page size program a page, erase a block and load a page. The commands that come over
the pins are the same for all of them. Block I/O succeeds. -/

namespace Ar7Qemu.Nand

open Lib

/-! ### Addresses -/

/-- The page sizes that the three operations are compiled for. -/
inductive PageSize
  | p256 | p512 | p2048
  deriving DecidableEq

namespace PageSize

def pageShift : PageSize → ℕ
  | p256 => 8
  | p512 => 9
  | p2048 => 11

def pageSectors : PageSize → ℕ
  | p256 => 1
  | p512 => 1
  | p2048 => 4

def addrShift : PageSize → ℕ
  | p256 => 8
  | p512 => 8
  | p2048 => 16

variable (g : PageSize)

def pageSize : ℕ := 2 ^ g.pageShift

def oobShift : ℕ := g.pageShift - 5

def oobSize : ℕ := 2 ^ g.oobShift

def page (addr : ℕ) : ℕ := addr >>> g.addrShift

/-- `PAGE_START`, of type `uint32_t`. -/
def pageStart (addr : ℕ) : ℕ := g.page addr * (g.pageSize + g.oobSize) % 2 ^ 32

/-- An address with `PAGE_MASK`. -/
def column (addr : ℕ) : ℕ := addr &&& (2 ^ g.addrShift - 1)

def sector (addr : ℕ) : ℕ := addr >>> (9 + g.addrShift - g.pageShift)

def sectorOffset (addr : ℕ) : ℕ := addr &&& ((511 >>> g.pageShift) <<< 8)

end PageSize

/-- What `nand_init` sets for a chip. Its size is an `int`, and its pages are whole blocks. -/
structure Config where
  pageSize : PageSize
  eraseShift : ℕ
  pages : ℕ
  manfId : UInt8
  chipId : UInt8
  erase_ge : 4 ≤ eraseShift
  erase_le : eraseShift ≤ 6
  pages_dvd : 2 ^ eraseShift ∣ pages
  size_lt : pages * pageSize.pageSize < 2 ^ 31

namespace Config

variable (c : Config)

/-- The `NAND_SAMSUNG_LP` option, which is that of the chips with large pages. -/
def samsungLp : Bool := c.pageSize = .p2048

def cycles : ℕ := if c.samsungLp then 4 else 3

def recordSize : ℕ := c.pageSize.pageSize + c.pageSize.oobSize

def blockAddr (addr : ℕ) : ℕ :=
  addr >>> (c.pageSize.addrShift + c.eraseShift) <<< (c.pageSize.addrShift + c.eraseShift)

end Config

/-! ### The chip -/

def cmdRead0 : UInt8 := 0x00
def cmdRead1 : UInt8 := 0x01
def cmdRead2 : UInt8 := 0x50
def cmdLpRead2 : UInt8 := 0x30
def cmdNoSerialRead2 : UInt8 := 0x35
def cmdRandomRead1 : UInt8 := 0x05
def cmdRandomRead2 : UInt8 := 0xe0
def cmdReadId : UInt8 := 0x90
def cmdReset : UInt8 := 0xff
def cmdPageProgram1 : UInt8 := 0x80
def cmdPageProgram2 : UInt8 := 0x10
def cmdBlockErase1 : UInt8 := 0x60
def cmdBlockErase2 : UInt8 := 0xd0
def cmdReadStatus : UInt8 := 0x70
def cmdCopybackPrg1 : UInt8 := 0x85

def ioStatusUnprotct : UInt8 := 0x80

/-- The size of `io`. -/
def ioSize : ℕ := 0x800 + 0x40 + 0x400

/-- The pins and registers of `nand_flash_s`. -/
structure Control where
  cle : Bool
  ale : Bool
  ce : Bool
  wp : Bool
  gnd : Bool
  iolen : ℤ
  cmd : UInt8
  /-- Of type `uint32_t`. -/
  addr : ℕ
  addrlen : ℕ
  status : UInt8
  offset : ℕ

/-- `nand_flash_s`, over what holds the content. -/
structure NandFlash (σ : Type) extends Control where
  store : σ
  io : Bytes
  ioaddr : ℕ

/-- The operations that the chip calls: `blk_write`, `blk_erase` and `blk_load`. They fail where they leave
the bounds of an array. -/
structure Backend (σ : Type) where
  blkWrite : NandFlash σ → Option (NandFlash σ)
  blkErase : NandFlash σ → Option (NandFlash σ)
  blkLoad : NandFlash σ → ℕ → ℕ → Option (NandFlash σ)

section Chip

variable {σ : Type} (c : Config) (b : Backend σ)

def nandReset (s : NandFlash σ) : NandFlash σ :=
  { s with cmd := cmdRead0, addr := 0, addrlen := 0, iolen := 0, offset := 0, status := s.status &&& ioStatusUnprotct }

/-- What `NAND_CMD_READID` puts into `io`. -/
def idBytes : Bytes := fun k => ([c.manfId, c.chipId, 0x51, if c.samsungLp then 0x15 else 0xc0] : List UInt8).getD k 0

def nandCommand (s : NandFlash σ) : Option (NandFlash σ) :=
  if s.cmd = cmdRead0 then some { s with iolen := 0 }
  else if s.cmd = cmdReadId then some { s with io := s.io.write 0 4 (idBytes c), ioaddr := 0, iolen := 4 }
  else if s.cmd = cmdRandomRead2 ∨ s.cmd = cmdNoSerialRead2 then
    if c.samsungLp then b.blkLoad s s.addr (c.pageSize.column s.addr) else some s
  else if s.cmd = cmdReset then some (nandReset s)
  else if s.cmd = cmdPageProgram1 then some { s with ioaddr := 0, iolen := 0 }
  else if s.cmd = cmdPageProgram2 then if s.wp then b.blkWrite s else some s
  else if s.cmd = cmdBlockErase2 then
    let s := { s with addr := s.addr <<< (if c.samsungLp then 16 else 8) % 2 ^ 32 }
    if s.wp then b.blkErase s else some s
  else if s.cmd = cmdReadStatus then some { s with io := s.io.write 0 1 fun _ => s.status, ioaddr := 0, iolen := 1 }
  else some s

def nandSetpins (cle ale ce wp gnd : Bool) (s : NandFlash σ) : NandFlash σ :=
  { s with
    cle, ale, ce, wp, gnd
    status := if wp then s.status ||| ioStatusUnprotct else s.status &&& ~~~ioStatusUnprotct }

/-- The commands that take effect at once. -/
def isImmediate (cmd : UInt8) : Prop :=
  cmd = cmdReadStatus ∨ cmd = cmdPageProgram2 ∨ cmd = cmdBlockErase1 ∨ cmd = cmdBlockErase2 ∨ cmd = cmdNoSerialRead2 ∨
    cmd = cmdRandomRead2 ∨ cmd = cmdReset

instance (cmd : UInt8) : Decidable (isImmediate cmd) := inferInstanceAs (Decidable (_ ∨ _))

/-- A command byte. The pointer commands are reads with an offset. -/
def pointer (value : UInt8) (offset : ℕ) : UInt8 × ℕ :=
  if value = cmdRead0 then (value, 0)
  else if value = cmdRead1 then (cmdRead0, 0x100)
  else if value = cmdRead2 then (cmdRead0, c.pageSize.pageSize)
  else (value, offset)

/-- The part of `nand_setio` for a command. -/
def commandCycle (value : UInt8) (s : NandFlash σ) : Option (NandFlash σ) :=
  let s := { s with cmd := (pointer c value s.offset).1, offset := (pointer c value s.offset).2 }
  (if isImmediate s.cmd then nandCommand c b s else some s).map fun s =>
    if s.cmd ≠ cmdRandomRead2 then { s with addrlen := 0, addr := 0 } else s

/-- The part of `nand_setio` for an address. -/
def addressCycle (value : UInt8) (s : NandFlash σ) : Option (NandFlash σ) :=
  if s.ale then
    let s := { s with addr := (s.addr ||| value.toNat <<< (s.addrlen * 8)) % 2 ^ 32, addrlen := s.addrlen + 1 }
    if s.addrlen = 1 ∧ s.cmd = cmdReadId then nandCommand c b s
    else if s.addrlen = c.cycles ∧ (s.cmd = cmdRead0 ∨ s.cmd = cmdPageProgram1) then nandCommand c b s
    else some s
  else some s

/-- The part of `nand_setio` for data. -/
def dataCycle (value : UInt8) (s : NandFlash σ) : Option (NandFlash σ) :=
  if ¬ s.cle ∧ ¬ s.ale ∧ s.cmd = cmdPageProgram1 then
    if s.iolen < c.recordSize then
      if s.iolen < 0 then none
      else some { s with io := s.io.write s.iolen.toNat 1 fun _ => value, iolen := s.iolen + 1 }
    else some s
  else if ¬ s.cle ∧ ¬ s.ale ∧ s.cmd = cmdCopybackPrg1 then
    if c.pageSize.column s.addr < c.recordSize then
      if s.iolen + c.pageSize.column s.addr < 0 ∨ ioSize ≤ s.iolen + c.pageSize.column s.addr then none
      else some { s with
        io := s.io.write (s.iolen + c.pageSize.column s.addr).toNat 1 fun _ => value
        addr := (s.addr + 1) % 2 ^ 32 }
    else some s
  else some s

def nandSetio (value : UInt8) (s : NandFlash σ) : Option (NandFlash σ) :=
  if ¬ s.ce ∧ s.cle then
    if c.samsungLp ∧ s.cmd = cmdRead0 ∧ value = cmdLpRead2 then some s
    else if c.samsungLp ∧ value = cmdRandomRead1 then
      some { s with addr := s.addr >>> c.pageSize.addrShift <<< c.pageSize.addrShift, addrlen := 0 }
    else
      ((commandCycle c b value s).bind (addressCycle c b (pointer c value s.offset).1)).bind
        (dataCycle c (pointer c value s.offset).1)
  else (addressCycle c b value s).bind (dataCycle c value)

/-- The load of `nand_getio`. -/
def sequentialLoad (s : NandFlash σ) : Option (NandFlash σ) :=
  if s.iolen = 0 ∧ s.cmd = cmdRead0 then
    let offset := c.pageSize.column s.addr + s.offset
    (b.blkLoad { s with offset := 0 } s.addr offset).map fun s =>
      { s with iolen := (if s.gnd then c.pageSize.pageSize else c.recordSize : ℕ) - (offset : ℤ) }
  else some s

def nandGetio (s : NandFlash σ) : Option (NandFlash σ × UInt8) :=
  (sequentialLoad c b s).bind fun s =>
    if s.ce ∨ s.iolen ≤ 0 then some (s, 0)
    else if ioSize ≤ s.ioaddr then none
    else some ({ s with iolen := s.iolen - 1, ioaddr := s.ioaddr + 1 }, s.io s.ioaddr)

end Chip

/-! ### The three layouts -/

/-- What holds the content. -/
inductive Store
  | ram (storage : Bytes)
  /-- With `mem_oob`. -/
  | split (bdrv storage : Bytes)
  | block (bdrv : Bytes)

/-- `memcpy` between arrays. -/
def memcpy (dst : Bytes) (dstSize at_ : ℕ) (src : Bytes) (srcSize from_ n : ℕ) : Option Bytes :=
  if at_ + n ≤ dstSize ∧ from_ + n ≤ srcSize then some (dst.write at_ n (src.drop from_)) else none

/-- `memset` of an array to 0xff. -/
def memset (dst : Bytes) (dstSize at_ n : ℕ) : Option Bytes :=
  if at_ + n ≤ dstSize then some (dst.write at_ n fun _ => 0xff) else none

def bdrvRead (bdrv : Bytes) (sector : ℕ) : Bytes := bdrv.drop (sector * 0x200)

def bdrvWrite (bdrv : Bytes) (sector : ℕ) (buf : Bytes) (n : ℕ) : Bytes := bdrv.write (sector * 0x200) (n * 0x200) buf

def eraseSectors (bdrv : Bytes) (sector : ℕ) : ℕ → Bytes
  | 0 => bdrv
  | n + 1 => eraseSectors (bdrvWrite bdrv sector (fun _ => 0xff) 1) (sector + 1) n

section Layouts

variable (c : Config)

/-- The writes of `nand_blk_write`. Differences of type `uint32_t` wrap. -/
def Store.program (addr offset n : ℕ) (io : Bytes) : Store → Option Store
  | ram storage =>
    (memcpy storage (c.pages * c.recordSize) (c.pageSize.pageStart addr + c.pageSize.column addr + offset) io ioSize 0 n).map ram
  | split bdrv storage => do
    let sector := c.pageSize.sector addr
    let off := c.pageSize.column addr + offset
    let soff := c.pageSize.sectorOffset addr
    let iobuf := bdrvRead bdrv sector
    let left := (c.pageSize.pageSize + 2 ^ 32 - off) % 2 ^ 32
    let iobuf ← memcpy iobuf ((c.pageSize.pageSectors + 2) * 0x200) (soff ||| off) io ioSize 0 (min n left)
    let storage ← if c.pageSize.pageSize < off + n then
        memcpy storage (c.pages * c.pageSize.oobSize) (c.pageSize.page addr <<< c.pageSize.oobShift) io ioSize left
          (min c.pageSize.oobSize (off + n - c.pageSize.pageSize))
      else some storage
    return split (bdrvWrite bdrv sector iobuf c.pageSize.pageSectors) storage
  | block bdrv => do
    let off := c.pageSize.pageStart addr + c.pageSize.column addr + offset
    let sector := off >>> 9
    let soff := off &&& 0x1ff
    let iobuf ← memcpy (bdrvRead bdrv sector) ((c.pageSize.pageSectors + 2) * 0x200) soff io ioSize 0 n
    return block (bdrvWrite bdrv sector iobuf (c.pageSize.pageSectors + 2))

/-- The writes of `nand_blk_erase`, of a block with an address. -/
def Store.erase (addr : ℕ) : Store → Option Store
  | ram storage =>
    (memset storage (c.pages * c.recordSize) (c.pageSize.pageStart addr) (c.recordSize <<< c.eraseShift)).map ram
  | split bdrv storage => do
    let storage ← memset storage (c.pages * c.pageSize.oobSize) (c.pageSize.page addr <<< c.pageSize.oobShift)
      (c.pageSize.oobSize <<< c.eraseShift)
    let i := c.pageSize.sector addr
    let page := c.pageSize.sector (addr + (c.pageSize.addrShift + c.eraseShift))
    return split (eraseSectors bdrv i (page - i)) storage
  | block bdrv => do
    let addr := c.pageSize.pageStart addr
    let page := addr >>> 9
    let iobuf ← memset (bdrvRead bdrv page) 0x200 (addr &&& 0x1ff) (0x1ff - (addr &&& 0x1ff) + 1)
    let bdrv := bdrvWrite bdrv page iobuf 1
    let i := addr >>> 9 <<< 9 + 0x200
    let addr := addr + (c.recordSize <<< c.eraseShift) - 0x200
    let turns := (addr - i + 0x1ff) / 0x200
    let bdrv := eraseSectors bdrv (i >>> 9) turns
    let page := (i + turns * 0x200) >>> 9
    let iobuf ← memset (bdrvRead bdrv page) 0x200 0 (((addr - 1) &&& 0x1ff) + 1)
    return block (bdrvWrite bdrv page iobuf 1)

/-- The reads of `nand_blk_load`, with `ioaddr`. -/
def Store.load (addr offset : ℕ) (io : Bytes) : Store → Option (Bytes × ℕ)
  | split bdrv storage => do
    let io := io.write 0 (c.pageSize.pageSectors * 0x200) (bdrvRead bdrv (c.pageSize.sector addr))
    let io ← memcpy io ioSize (c.pageSize.sectorOffset addr + c.pageSize.pageSize) storage (c.pages * c.pageSize.oobSize)
      (c.pageSize.page addr <<< c.pageSize.oobShift) c.pageSize.oobSize
    return (io, c.pageSize.sectorOffset addr + offset)
  | block bdrv =>
    some (io.write 0 ((c.pageSize.pageSectors + 2) * 0x200) (bdrvRead bdrv (c.pageSize.pageStart addr >>> 9)),
      (c.pageSize.pageStart addr &&& 0x1ff) + offset)
  | ram storage =>
    if c.recordSize < offset then none
    else (memcpy io ioSize 0 storage (c.pages * c.recordSize) (c.pageSize.pageStart addr + offset) (c.recordSize - offset)).map
      fun io => (io, 0)

/-- `nand_blk_write`. -/
def blkWrite (s : NandFlash Store) : Option (NandFlash Store) :=
  if c.pages ≤ c.pageSize.page s.addr then some s
  else if s.iolen < 0 then none
  else (s.store.program c s.addr s.offset s.iolen.toNat s.io).map fun store => { s with store, offset := 0 }

/-- `nand_blk_erase`. -/
def blkErase (s : NandFlash Store) : Option (NandFlash Store) :=
  if c.pages ≤ c.pageSize.page (c.blockAddr s.addr) then some s
  else (s.store.erase c (c.blockAddr s.addr)).map fun store => { s with store }

def nextAddr (addr : ℕ) : ℕ := (addr &&& (c.pageSize.pageSize - 1)) + c.pageSize.pageSize

/-- `nand_blk_load`. Both its callers give it the address of the chip. -/
def blkLoad (s : NandFlash Store) (addr offset : ℕ) : Option (NandFlash Store) :=
  if c.pages ≤ c.pageSize.page addr then some s
  else (s.store.load c addr offset s.io).map fun (io, ioaddr) => { s with io, ioaddr, addr := nextAddr c s.addr }

def device : Backend Store := ⟨blkWrite c, blkErase c, blkLoad c⟩

end Layouts

/-! ### The content -/

/-- The bytes of every page, its spare area behind them. -/
abbrev Content := ℕ → ℕ → UInt8

section Plain

variable (c : Config)

def Content.program (content : Content) (page column n : ℕ) (io : Bytes) : Content := fun p k =>
  if p = page ∧ column ≤ k ∧ k < column + n then io (k - column) else content p k

/-- The block of a page erased with its spare areas, and nothing else. -/
def Content.erase (content : Content) (page : ℕ) : Content := fun p k =>
  if p / 2 ^ c.eraseShift = page / 2 ^ c.eraseShift then 0xff else content p k

/-- The operations on the content itself. -/
def plain : Backend Content where
  blkWrite s := some (if c.pages ≤ c.pageSize.page s.addr then s
    else { s with
      store := s.store.program (c.pageSize.page s.addr) (c.pageSize.column s.addr + s.offset) s.iolen.toNat s.io
      offset := 0 })
  blkErase s := some (if c.pages ≤ c.pageSize.page (c.blockAddr s.addr) then s
    else { s with store := s.store.erase c (c.pageSize.page s.addr) })
  blkLoad s addr offset := some (if c.pages ≤ c.pageSize.page addr then s
    else { s with io := fun k => s.store (c.pageSize.page addr) (offset + k), ioaddr := 0, addr := nextAddr c s.addr })

end Plain

/-! ### Runs -/

inductive Call
  | setpins (cle ale ce wp gnd : Bool)
  | setio (value : UInt8)
  | getio

/-- One call, with the bytes that are returned. -/
def step {σ : Type} (c : Config) (b : Backend σ) (s : NandFlash σ × List UInt8) : Call → Option (NandFlash σ × List UInt8)
  | .setpins cle ale ce wp gnd => some (nandSetpins cle ale ce wp gnd s.1, s.2)
  | .setio value => (nandSetio c b value s.1).map fun t => (t, s.2)
  | .getio => (nandGetio c b s.1).map fun (t, byte) => (t, s.2 ++ [byte])

/-- The chip that `nand_init` allocates. -/
def init {σ : Type} (store : σ) : NandFlash σ where
  cle := false
  ale := false
  ce := false
  wp := false
  gnd := false
  iolen := 0
  cmd := 0
  addr := 0
  addrlen := 0
  status := 0
  offset := 0
  store := store
  io := fun _ => 0
  ioaddr := 0

/-- A program has its address, so that data goes to the start of `io`. -/
def Programming (c : Config) (s : Control) : Prop := s.cmd = cmdPageProgram1 ∧ c.cycles ≤ s.addrlen

/-- A call is part of a read, a page program or a block erase: the page of a load is inside the chip, what
is read or programmed is inside the page and its spare area, a program has its address before its data,
and nothing is read between them. -/
def Permitted (c : Config) (s : Control) : Call → Prop
  | .setpins .. => True
  | .getio =>
    (s.iolen = 0 ∧ s.cmd = cmdRead0 →
      c.pageSize.page s.addr < c.pages ∧ c.pageSize.column s.addr + s.offset ≤ c.recordSize) ∧
    (Programming c s → s.ce = true ∨ s.iolen ≤ 0)
  | .setio value =>
    (¬ s.ce ∧ s.cle → value = cmdPageProgram2 → s.wp →
      Programming c s ∧ c.pageSize.column s.addr + s.offset + s.iolen ≤ c.recordSize) ∧
    (¬ s.ce ∧ s.cle → c.samsungLp → value = cmdRandomRead2 ∨ value = cmdNoSerialRead2 →
      c.pageSize.page s.addr < c.pages ∧ c.pageSize.column s.addr ≤ c.recordSize ∧
        c.pageSize.column s.addr + s.iolen ≤ c.recordSize) ∧
    (s.ale → s.addrlen < 4) ∧
    (¬ s.cle ∧ ¬ s.ale → (s.cmd = cmdPageProgram1 → Programming c s) ∧ s.cmd ≠ cmdCopybackPrg1)

instance (c : Config) (s : Control) : Decidable (Programming c s) := inferInstanceAs (Decidable (_ ∧ _))

set_option synthInstance.maxSize 512 in
instance (c : Config) (s : Control) : ∀ call, Decidable (Permitted c s call)
  | .setpins .. => instDecidableTrue
  | .getio => inferInstanceAs (Decidable (_ ∧ _))
  | .setio _ => inferInstanceAs (Decidable (_ ∧ _))

/-- What a call must meet where the spare areas are apart from the pages: a program starts before the
spare area or at its first byte, and the pages of a block that is erased hold 0xff already. -/
def KeepsSplit (c : Config) (s : NandFlash Content) : Call → Prop
  | .setio value =>
    ¬ s.ce ∧ s.cle → s.wp →
      (value = cmdPageProgram2 → c.pageSize.page s.addr < c.pages →
        c.pageSize.column s.addr + s.offset ≤ c.pageSize.pageSize) ∧
      (value = cmdBlockErase2 → ∀ p k, p < c.pages → k < c.pageSize.pageSize →
        p / 2 ^ c.eraseShift = c.pageSize.page (s.addr <<< (if c.samsungLp then 16 else 8) % 2 ^ 32) / 2 ^ c.eraseShift →
        s.store p k = 0xff)
  | _ => True

def Store.isSplit : Store → Bool
  | split _ _ => true
  | _ => false

def Store.Holds (c : Config) (content : Content) : Store → Prop
  | ram storage => ∀ p < c.pages, ∀ k < c.recordSize, storage (p * c.recordSize + k) = content p k
  | split bdrv storage => ∀ p < c.pages,
    (∀ k < c.pageSize.pageSize, bdrv (p * c.pageSize.pageSize + k) = content p k) ∧
    ∀ k < c.pageSize.oobSize, storage (p * c.pageSize.oobSize + k) = content p (c.pageSize.pageSize + k)
  | block bdrv => ∀ p < c.pages, ∀ k < c.recordSize, bdrv (p * c.recordSize + k) = content p k

end Ar7Qemu.Nand
