import Ar7Qemu.Lib.FlashArray

/-! The flash with the Intel command set of `pflash_cfi01.c`. The memory layer of `exec.c` gives a
handler the offset in the region; the handlers take it for an address and subtract the base of the
region, or in ROM mode the address of the storage. A failed assertion and an access outside an array
are faults. Beside the device the system holds the guest's writes, the newest first. -/

namespace Ar7Qemu.PflashCfi01

open Lib

/-- The chips that `pflash_cfi01_register` knows. -/
inductive Chip
  | i28f160c3b
  | i28f160s5

/-- The arguments of `pflash_cfi01_register`. The total length is 2, 4, 8, 16, 32 or 64 MiB and is a
multiple of the length of a sector, which is then a power of two, too. -/
structure Config where
  base : ℕ
  /-- The host's address of the storage. -/
  storageAddr : ℕ
  sectorBits : ℕ
  totalBits : ℕ
  sector_le : sectorBits ≤ totalBits
  two_mib_le : 21 ≤ totalBits
  le_64_mib : totalBits ≤ 26
  width : ℕ
  width_pos : 0 < width
  chip : Chip
  bigEndian : Bool

def Config.sectorLen (c : Config) : ℕ := 2 ^ c.sectorBits

def Config.totalLen (c : Config) : ℕ := 2 ^ c.totalBits

def Config.nbBlocs (c : Config) : ℕ := 2 ^ (c.totalBits - c.sectorBits)

/-- `pflash_t`, less what registration fixes; `bs` is the content of the block device. -/
structure Pflash where
  bs : Option Bytes
  rom : Bool
  cmd : UInt8
  status : UInt8
  timer : Bool
  storage : Bytes

def manufacturerIntel : ℕ := 0x89

def Chip.ident : Chip → ℕ
  | .i28f160c3b => 0x88c3
  | .i28f160s5 => 0x00d0

/-- The CFI table from entry `0x10` on. -/
def Chip.data : Chip → List UInt8
  | .i28f160c3b =>
    [0x51, 0x52, 0x59, 0x03, 0x00, 0x35, 0x00, 0x00, 0x00, 0x00, 0x00, 0x27, 0x36, 0xb4, 0xc6, 0x05,
     0x00, 0x0a, 0x00, 0x04, 0x00, 0x03, 0x00, 0x15, 0x01, 0x00, 0x00, 0x00, 0x02, 0x07, 0x00, 0x20,
     0x00, 0x1e, 0x00, 0x00, 0x01, 0x50, 0x52, 0x49, 0x31, 0x30, 0x6a, 0x00, 0x00, 0x00, 0x01, 0x03,
     0x00, 0x33, 0xc0, 0x01, 0x80, 0x00, 0x03, 0x03]
  | .i28f160s5 =>
    [0x51, 0x52, 0x59, 0x01, 0x00, 0x31, 0x00, 0x00, 0x00, 0x00, 0x00, 0x27, 0x55, 0x27, 0x55, 0x03,
     0x06, 0x0a, 0x0f, 0x04, 0x04, 0x04, 0x04, 0x15, 0x02, 0x00, 0x05, 0x00, 0x01, 0x1f, 0x00, 0x00,
     0x01, 0x50, 0x52, 0x49, 0x31, 0x30, 0x0f, 0x00, 0x00, 0x00, 0x01, 0x03, 0x00, 0x50, 0x50, 0x00]

/-- The CFI table; the device size and the second erase region are those of the flash. The size of
the flash is a power of two, of which `ctz32` counts the trailing zeroes. -/
def cfiTable (c : Config) : List UInt8 :=
  let table := (List.replicate 0x10 0 ++ c.chip.data ++ List.replicate 0x52 0).take 0x52
  match c.chip with
  | .i28f160c3b =>
    ((((table.set 0x27 (UInt8.ofNat c.totalBits)).set 0x31 (UInt8.ofNat (c.nbBlocs - 2))).set 0x32
      (UInt8.ofNat ((c.nbBlocs - 2) / 256))).set 0x33 (UInt8.ofNat (c.sectorLen / 256))).set 0x34
      (UInt8.ofNat (c.sectorLen / 65536))
  | .i28f160s5 => table

/-- The difference of two `uint32_t`. -/
def sub32 (a b : ℕ) : ℕ := (a % 2 ^ 32 + 2 ^ 32 - b % 2 ^ 32) % 2 ^ 32

/-- `pflash_read_data`, with its assertions on the alignment. -/
def pflashReadData (c : Config) (offset w : ℕ) (s : Pflash) : Option ℕ :=
  if w ∣ offset ∧ offset + w ≤ c.totalLen then some (Bytes.value c.bigEndian w (s.storage.drop offset)) else none

/-- The commands under which a read gets the status. -/
def isStatusCmd (cmd : UInt8) : Bool :=
  cmd = 0x10 || cmd = 0x30 || cmd = 0x01 || cmd = 0x28 || cmd = 0x70 || cmd = 0xd0 || cmd = 0x40

def pflashRead (c : Config) (offset w : ℕ) (s : Pflash) : Option (ℕ × Pflash) :=
  let offset := sub32 offset c.base
  let boff := offset / c.width
  if s.cmd = 0x00 then (pflashReadData c offset w s).map fun ret => (ret, s)
  else if s.cmd = 0x90 then
    if boff = 0 then some (manufacturerIntel, s)
    else if boff = 1 then some (c.chip.ident, s)
    else none
  else if isStatusCmd s.cmd then some (s.status.toNat, s)
  else if s.cmd = 0x98 then some ((((cfiTable c)[boff]?).getD 0).toNat, s)
  else (pflashReadData c offset w s).map fun ret => (ret, { s with cmd := 0 })

/-- `pflash_update`; `ok` says whether the block device takes the write. -/
def pflashUpdate (c : Config) (ok : Bool) (offset size : ℕ) (s : Pflash) : Option Pflash :=
  match s.bs with
  | none => some s
  | some disk =>
    if (offset + size + 511) / 512 * 512 ≤ c.totalLen then
      some (if ok then { s with bs := some (Bytes.writeBack 512 disk s.storage offset size) } else s)
    else none

def resetFlash (s : Pflash) : Pflash := { s with rom := true, cmd := 0 }

/-- A command in ROM mode: those that are known switch to I/O mode. -/
def romCommand (cmd : UInt8) (s : Pflash) : Pflash :=
  if cmd = 0x20 ∨ cmd = 0x28 then { s with cmd := 0x28, rom := false }
  else if cmd = 0x60 ∨ cmd = 0x70 ∨ cmd = 0x90 ∨ cmd = 0x98 then { s with cmd := cmd, rom := false }
  else s

def writeData (c : Config) (ok : Bool) (offset value w : ℕ) (s : Pflash) : Option Pflash :=
  if offset + w ≤ c.totalLen then
    (pflashUpdate c ok offset w { s with storage := s.storage.clear offset w (Bytes.ofValue c.bigEndian w value) }).map
      fun s => { s with cmd := 0x70, status := s.status ||| 0x80 }
  else none

def eraseSector (c : Config) (ok : Bool) (offset : ℕ) (s : Pflash) : Option Pflash :=
  let offset := offset - (offset &&& (c.sectorLen - 1))
  if offset + c.sectorLen ≤ c.totalLen then
    (pflashUpdate c ok offset c.sectorLen { s with storage := s.storage.fill offset c.sectorLen 0xff }).map
      fun s => { s with status := 0, timer := true, cmd := 0x70 }
  else none

/-- The offset that `pflash_write` goes on with. -/
def writeOffset (c : Config) (offset : ℕ) (s : Pflash) : ℕ :=
  if s.rom then sub32 offset c.storageAddr else sub32 offset c.base

def pflashWrite (c : Config) (ok : Bool) (offset value w : ℕ) (s : Pflash) : Option Pflash :=
  let cmd := UInt8.ofNat value
  let offset := writeOffset c offset s
  if s.cmd = 0x40 then writeData c ok offset value w s
  else if cmd = 0xff then some (resetFlash s)
  else if cmd = 0x10 ∨ cmd = 0x40 then some { s with cmd := 0x40, rom := false }
  else if cmd = 0x50 then some { s with status := 0, rom := true }
  else if s.rom then some (romCommand cmd s)
  else if s.cmd = 0x28 ∧ cmd = 0xd0 then eraseSector c ok offset s
  else if s.cmd = 0x60 then
    if cmd = 0x01 ∨ cmd = 0xd0 then some { s with cmd := cmd, status := s.status ||| 0x80 } else some (resetFlash s)
  else some (resetFlash s)

def pflashTimer (s : Pflash) : Pflash := { s with status := s.status ||| 0x80 }

/-! ### Runs -/

/-- An access of the guest, at an offset in the region. -/
structure Access (c : Config) where
  width : Width
  offset : ℕ
  inside : offset < c.totalLen

/-- A write of the guest. -/
structure Cycle where
  offset : ℕ
  bytes : ℕ
  value : ℕ

def Cycle.cmd (k : Cycle) : UInt8 := UInt8.ofNat k.value

structure Sys where
  pfl : Pflash
  /-- The guest's writes, the newest first. -/
  cycles : List Cycle
  /-- The storage before the last operation. -/
  before : Bytes
  /-- An assertion failed, or an access went outside an array. -/
  fault : Bool
  /-- A handler went on with an offset that is not in the flash. -/
  stray : Bool
  /-- What the last read of the array returned, and what it had to return. -/
  ret : ℕ
  want : ℕ

inductive Op (c : Config)
  | read (a : Access c)
  | write (a : Access c) (value : ℕ) (ok : Bool)
  | timer

/-- A read reaches the array: in ROM mode without the device. -/
def arrayMode (p : Pflash) : Prop := p.rom = true ∨ p.cmd = 0x00

instance (p : Pflash) : Decidable (arrayMode p) := inferInstanceAs (Decidable (_ ∨ _))

def readOutcome (c : Config) (offset w : ℕ) (p : Pflash) : Option (ℕ × Pflash) :=
  if p.rom then some (Bytes.value c.bigEndian w (p.storage.drop offset), p) else pflashRead c offset w p

def Sys.step {c : Config} (s : Sys) : Op c → Sys
  | .read a =>
    match readOutcome c a.offset a.width.bytes s.pfl with
    | none => { s with fault := true }
    | some (ret, p) =>
      let want := if arrayMode s.pfl then Bytes.value false a.width.bytes (s.pfl.storage.drop a.offset) else ret
      { s with pfl := p, before := s.pfl.storage, ret := ret, want := want
               stray := s.stray || (!s.pfl.rom && decide (c.totalLen ≤ sub32 a.offset c.base)) }
  | .write a value ok =>
    match pflashWrite c ok a.offset value a.width.bytes s.pfl with
    | none => { s with fault := true }
    | some p =>
      { s with pfl := p, cycles := ⟨a.offset, a.width.bytes, value⟩ :: s.cycles, before := s.pfl.storage
               stray := s.stray || decide (c.totalLen ≤ writeOffset c a.offset s.pfl) }
  | .timer =>
    { s with before := s.pfl.storage
             pfl := if s.pfl.timer then pflashTimer { s.pfl with timer := false } else s.pfl }

/-- The flash after `pflash_cfi01_register`; `ram` is the memory it is given, and `ok` says whether
the block device lets itself be read. -/
def Sys.init (c : Config) (ram : Bytes) (bs : Option Bytes) (ok : Bool) : Sys :=
  let storage := match bs with
    | none => ram
    | some disk => if ok then ram.write 0 (c.totalLen / 512 * 512) disk else ram
  ⟨⟨bs, true, 0, 0, false, storage⟩, [], storage, false, false, 0, 0⟩

/-! ### The command protocol -/

/-- The last write is a program command; a write that follows one is its data. -/
def programPending : List Cycle → Bool
  | [] => false
  | k :: h => !programPending h && (k.cmd = 0x10 || k.cmd = 0x40)

def erasePending : List Cycle → Bool
  | [] => false
  | k :: h => !programPending h && (k.cmd = 0x20 || k.cmd = 0x28)

/-- The last write is the data of a program command. -/
def Programs (c : Config) (cycles : List Cycle) (before after : Bytes) : Prop :=
  ∃ k h, cycles = k :: h ∧ programPending h = true ∧
    after = before.clear k.offset k.bytes (Bytes.ofValue c.bigEndian k.bytes k.value)

/-- The last write confirms an erase command. -/
def Erases (c : Config) (cycles : List Cycle) (before after : Bytes) : Prop :=
  ∃ k h, cycles = k :: h ∧ erasePending h = true ∧ k.cmd = 0xd0 ∧
    after = before.fill (k.offset / c.sectorLen * c.sectorLen) c.sectorLen 0xff

/-- What the guest relies on. -/
structure Right (c : Config) (s : Sys) : Prop where
  inside : s.fault = false
  offsets : s.stray = false
  reads : s.ret = s.want
  changes : s.pfl.storage = s.before ∨ Programs c s.cycles s.before s.pfl.storage ∨
    Erases c s.cycles s.before s.pfl.storage
  mirrors : ∀ disk, s.pfl.bs = some disk → Bytes.Mirrors disk s.pfl.storage c.totalLen

/-- The region of a device that is not in ROM mode starts at address 0, and the offset that is
computed in ROM mode is in the flash; the array is read aligned and by a little-endian guest, the
identity at its two words; a program does not leave the flash, and what changes is written back. -/
def OpSafe (c : Config) (s : Sys) : Op c → Prop
  | .read a =>
    (arrayMode s.pfl → c.bigEndian = false) ∧
      (s.pfl.rom = false → c.base % 2 ^ 32 = 0 ∧ (s.pfl.cmd = 0x00 ∨ s.pfl.cmd = 0x60 → a.width.bytes ∣ a.offset) ∧
        (s.pfl.cmd = 0x90 → a.offset / c.width ≤ 1))
  | .write a value ok =>
    (s.pfl.rom = true → sub32 a.offset c.storageAddr < c.totalLen) ∧ (s.pfl.rom = false → c.base % 2 ^ 32 = 0) ∧
      (s.pfl.cmd = 0x40 → a.offset + a.width.bytes ≤ c.totalLen ∧ (s.pfl.bs ≠ none → ok = true)) ∧
      (s.pfl.rom = false → s.pfl.cmd = 0x28 → UInt8.ofNat value = 0xd0 → s.pfl.bs ≠ none → ok = true)
  | .timer => True

end Ar7Qemu.PflashCfi01
