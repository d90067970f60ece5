import Ar7Qemu.Lib.FlashArray

/-! The flash with the AMD command set of `pflash_cfi02.c`. The guest's writes drive an automaton of
write cycles; its reads see the array, the identity, the status or the CFI table, and in ROM mode
they go to the array without the device. An access outside an array is a fault. Beside the device
the system holds the guest's writes, the newest first. -/

namespace Ar7Qemu.PflashCfi02

open Lib

/-- The arguments of `pflash_cfi02_register`, with powers of two for the lengths of a sector and of
the chip, which is kept in an `int32_t`. -/
structure Config where
  sectorBits : ℕ
  chipBits : ℕ
  sector_le : sectorBits ≤ chipBits
  chip_lt : chipBits < 31
  width : ℕ
  id0 : ℕ
  id1 : ℕ
  id2 : ℕ
  id3 : ℕ
  unlockAddr0 : ℕ
  unlockAddr1 : ℕ
  bigEndian : Bool

def Config.sectorLen (c : Config) : ℕ := 2 ^ c.sectorBits

def Config.chipLen (c : Config) : ℕ := 2 ^ c.chipBits

def Config.nbBlocs (c : Config) : ℕ := 2 ^ (c.chipBits - c.sectorBits)

/-- An offset counted in units of the flash's width. -/
def Config.unit (c : Config) (offset : ℕ) : ℕ :=
  if c.width = 2 then offset / 2 else if c.width = 4 then offset / 4 else offset

/-- A naturally aligned access of the guest. -/
structure Access where
  width : Width
  offset : ℕ
  aligned : width.bytes ∣ offset

/-- `pflash_t`, less what registration fixes; `bs` is the content of the block device. -/
structure Pflash where
  bs : Option Bytes
  wcycle : ℕ
  bypass : Bool
  cmd : UInt8
  status : UInt8
  timer : Bool
  romMode : Bool
  storage : Bytes

def ctz32 (n : ℕ) : ℕ :=
  let cut := fun (k : ℕ) (p : ℕ × ℕ) => if p.2 % 2 ^ k = 0 then (p.1 + k, p.2 / 2 ^ k) else p
  (cut 1 (cut 2 (cut 4 (cut 8 (cut 16 (0, n)))))).1

def cfiLen : ℕ := 0x52

/-- The CFI table, which has `0x52` entries. -/
def cfiTable (c : Config) : List UInt8 :=
  List.replicate 0x10 0 ++
  [ -- 0x10: "QRY", command set, extended table, alternate command set
   0x51, 0x52, 0x59, 0x02, 0x00, 0x31, 0x00, 0x00, 0x00, 0x00, 0x00,
   -- 0x1b: supply voltages and timeouts
   0x27, 0x36, 0x00, 0x00, 0x07, 0x00, 0x09, 0x0c, 0x01, 0x00, 0x0a, 0x0d,
   -- 0x27: device size and interface, write buffer, erase regions
   UInt8.ofNat (ctz32 c.chipLen), 0x02, 0x00, 0x00, 0x00, 0x01,
   UInt8.ofNat (c.nbBlocs - 1), UInt8.ofNat ((c.nbBlocs - 1) / 256),
   UInt8.ofNat (c.sectorLen / 256), UInt8.ofNat (c.sectorLen / 65536),
   -- 0x31: "PRI", "10"
   0x50, 0x52, 0x49, 0x31, 0x30, 0x00, 0x00, 0x00, 0x00, 0x00, 0x00, 0x00] ++
  List.replicate 0x15 0

def flashRead (c : Config) (offset w : ℕ) (s : Pflash) : Option ℕ :=
  if offset + w ≤ c.chipLen then some (Bytes.value c.bigEndian w (s.storage.drop offset)) else none

def identValue (c : Config) (boff : ℕ) : Option ℕ :=
  if boff = 0x00 then some c.id0
  else if boff = 0x01 then some c.id1
  else if boff = 0x02 then some 0x00
  else if boff = 0x0e then if c.id2 = 0xff then none else some c.id2
  else if boff = 0x0f then if c.id3 = 0xff then none else some c.id3
  else none

def pflashRead (c : Config) (offset w : ℕ) (s : Pflash) : Option (ℕ × Pflash) :=
  let offset := offset &&& (c.chipLen - 1)
  let boff := c.unit (offset &&& 0xff)
  if s.cmd = 0x00 ∨ s.cmd = 0x80 then (flashRead c offset w s).map fun ret => (ret, s)
  else if s.cmd = 0x90 then
    match identValue c boff with
    | some ret => some (ret, s)
    | none => (flashRead c offset w s).map fun ret => (ret, s)
  else if s.cmd = 0xa0 ∨ s.cmd = 0x10 ∨ s.cmd = 0x30 then
    some (s.status.toNat, { s with status := s.status ^^^ 0x40 })
  else if s.cmd = 0x98 then
    if cfiLen < boff then some (0, s) else (cfiTable c)[boff]?.map fun ret => (ret.toNat, s)
  else
    -- an unknown command resets the state and is read as the array
    let s := { s with wcycle := 0, cmd := 0 }
    (flashRead c offset w s).map fun ret => (ret, s)

/-- `pflash_update`; `ok` says whether the block device takes the write. -/
def pflashUpdate (c : Config) (ok : Bool) (offset size : ℕ) (s : Pflash) : Option Pflash :=
  match s.bs with
  | none => some s
  | some disk =>
    if (offset + size + 511) / 512 * 512 ≤ c.chipLen then
      some (if ok then { s with bs := some (Bytes.writeBack 512 disk s.storage offset size) } else s)
    else none

def resetFlash (s : Pflash) : Pflash := { s with bypass := false, wcycle := 0, cmd := 0 }

def doBypass (s : Pflash) : Pflash := { s with wcycle := 2, cmd := 0 }

def enterCfiMode (s : Pflash) : Pflash := { s with wcycle := 7, cmd := 0x98 }

def nextCycle (s : Pflash) : Pflash := { s with wcycle := s.wcycle + 1 }

def checkUnlock0 (c : Config) (boff : ℕ) (cmd : UInt8) (s : Pflash) : Pflash :=
  if boff = 0x55 ∧ cmd = 0x98 then enterCfiMode s
  else if boff ≠ c.unlockAddr0 ∨ cmd ≠ 0xaa then resetFlash s
  else nextCycle s

def checkUnlock1 (c : Config) (boff : ℕ) (cmd : UInt8) (s : Pflash) : Pflash :=
  if boff ≠ c.unlockAddr1 ∨ cmd ≠ 0x55 then resetFlash s else nextCycle s

def startCommand (c : Config) (boff : ℕ) (cmd : UInt8) (s : Pflash) : Pflash :=
  if s.bypass = false ∧ boff ≠ c.unlockAddr0 then resetFlash s
  else if cmd = 0x20 then doBypass { s with bypass := true }
  else if cmd = 0x80 ∨ cmd = 0x90 ∨ cmd = 0xa0 then nextCycle { s with cmd := cmd }
  else resetFlash s

def writeData (c : Config) (ok : Bool) (offset value w : ℕ) (s : Pflash) : Option Pflash :=
  if offset + w ≤ c.chipLen then
    pflashUpdate c ok offset w { s with storage := s.storage.clear offset w (Bytes.ofValue c.bigEndian w value) }
  else none

/-- The sixth cycle of an erase. -/
def eraseCycle (c : Config) (ok : Bool) (offset boff : ℕ) (cmd : UInt8) (s : Pflash) : Option Pflash :=
  let erase := fun (offset size : ℕ) =>
    if offset + size ≤ c.chipLen then
      (pflashUpdate c ok offset size { s with storage := s.storage.fill offset size 0xff }).map fun s =>
        nextCycle { s with status := 0, timer := true, cmd := cmd }
    else none
  if cmd = 0x10 then if boff ≠ c.unlockAddr0 then some (resetFlash s) else erase 0 c.chipLen
  else if cmd = 0x30 then erase (offset - (offset &&& (c.sectorLen - 1))) c.sectorLen
  else some (resetFlash s)

def pflashWrite (c : Config) (ok : Bool) (offset value w : ℕ) (s : Pflash) : Option Pflash :=
  let cmd := UInt8.ofNat value
  if s.cmd ≠ 0xa0 ∧ cmd = 0xf0 then some (resetFlash s)
  else
    let offset := offset &&& (c.chipLen - 1)
    let boff := c.unit (offset &&& (c.sectorLen - 1))
    match s.wcycle with
    | 0 => some (checkUnlock0 c boff cmd { s with romMode := false })
    | 1 => some (checkUnlock1 c boff cmd s)
    | 2 => some (startCommand c boff cmd s)
    | 3 =>
      if s.cmd = 0x80 then some (checkUnlock0 c boff cmd s)
      else if s.cmd = 0xa0 then
        (writeData c ok offset value w s).map fun s =>
          let s := { s with status := ~~~(UInt8.ofNat value &&& 0x80) }
          if s.bypass then doBypass s else resetFlash s
      else if s.cmd = 0x90 ∧ ¬ (s.bypass = true ∧ cmd = 0x00) ∧ boff = 0x55 ∧ cmd = 0x98 then some (enterCfiMode s)
      else some (resetFlash s)
    | 4 =>
      if s.cmd = 0xa0 then some s
      else if s.cmd = 0x80 then some (checkUnlock1 c boff cmd s)
      else some (resetFlash s)
    | 5 => eraseCycle c ok offset boff cmd s
    | 6 => if s.cmd = 0x10 ∨ s.cmd = 0x30 then some s else some (resetFlash s)
    | _ => some (resetFlash s)

def pflashTimer (s : Pflash) : Pflash :=
  let s := { s with status := s.status ^^^ 0x80, cmd := 0 }
  if s.bypass then { s with wcycle := 2 } else { s with romMode := true, wcycle := 0 }

/-! ### Runs -/

/-- A write of the guest. -/
structure Cycle where
  offset : ℕ
  bytes : ℕ
  value : ℕ

def Cycle.cmd (k : Cycle) : UInt8 := UInt8.ofNat k.value

/-- The offset in the chip. -/
def Cycle.place (c : Config) (k : Cycle) : ℕ := k.offset &&& (c.chipLen - 1)

/-- The offset in the sector, as the command addresses count it. -/
def Cycle.boff (c : Config) (k : Cycle) : ℕ := c.unit (k.place c &&& (c.sectorLen - 1))

structure Sys where
  pfl : Pflash
  /-- The guest's writes, the newest first. -/
  cycles : List Cycle
  /-- The storage before the last operation. -/
  before : Bytes
  /-- An access went outside an array. -/
  fault : Bool

inductive Op
  | read (a : Access)
  | write (a : Access) (value : ℕ) (ok : Bool)
  | timer

def Sys.after (s : Sys) (cycles : List Cycle) : Option Pflash → Sys
  | none => { s with fault := true }
  | some p => ⟨p, cycles, s.pfl.storage, s.fault⟩

/-- In ROM mode a read does not reach the device, and the timer expires when it was started. -/
def Sys.step (c : Config) (s : Sys) : Op → Sys
  | .read a =>
    s.after s.cycles (if s.pfl.romMode then some s.pfl else (pflashRead c a.offset a.width.bytes s.pfl).map Prod.snd)
  | .write a value ok =>
    s.after (⟨a.offset, a.width.bytes, value⟩ :: s.cycles) (pflashWrite c ok a.offset value a.width.bytes s.pfl)
  | .timer => s.after s.cycles (some (if s.pfl.timer then pflashTimer { s.pfl with timer := false } else s.pfl))

/-- The flash after `pflash_cfi02_register`; `ram` is the memory it is given, and `ok` says whether
the block device lets itself be read. -/
def Sys.init (c : Config) (ram : Bytes) (bs : Option Bytes) (ok : Bool) : Sys :=
  let storage := match bs with
    | none => ram
    | some disk => if ok then ram.write 0 (c.chipLen / 512 * 512) disk else ram
  ⟨⟨bs, 0, false, 0, 0, false, true, storage⟩, [], storage, false⟩

/-! ### The command protocol -/

section Protocol

variable (c : Config)

def Unlock0 (k : Cycle) : Prop := k.boff c = c.unlockAddr0 ∧ k.cmd = 0xaa

def Unlock1 (k : Cycle) : Prop := k.boff c = c.unlockAddr1 ∧ k.cmd = 0x55

/-- The last two writes are an unlock sequence. -/
def Unlocked (h : List Cycle) : Prop := ∃ u₁ u₀ h', h = u₁ :: u₀ :: h' ∧ Unlock1 c u₁ ∧ Unlock0 c u₀

/-- A write that has a meaning after `p` other than as a command: the data of a program, a cycle of a
second unlock sequence, or the CFI query. -/
def Continues (p k : Cycle) : Prop :=
  p.cmd = 0xa0 ∨ p.cmd = 0x80 ∧ Unlock0 c k ∨ Unlock0 c p ∧ Unlock1 c k ∨
    (p.cmd = 0x80 ∨ p.cmd = 0x90) ∧ k.boff c = 0x55 ∧ k.cmd = 0x98

/-- An unlock sequence with the bypass command was given, and since then only commands and what
continues them. Any other write ends the mode: a reset byte, and `0x00` after `0x90`, the unlock
bypass reset. -/
inductive InBypass : List Cycle → Prop
  | enter {k : Cycle} {h : List Cycle} : Unlocked c h → k.boff c = c.unlockAddr0 → k.cmd = 0x20 → InBypass (k :: h)
  | command {k : Cycle} {h : List Cycle} :
      InBypass h → k.cmd = 0x20 ∨ k.cmd = 0x80 ∨ k.cmd = 0x90 ∨ k.cmd = 0xa0 → InBypass (k :: h)
  | continued {k p : Cycle} {h : List Cycle} : InBypass (p :: h) → Continues c p k → InBypass (k :: p :: h)

/-- The last write is the data of a program command. -/
def Programs (cycles : List Cycle) (before after : Bytes) : Prop :=
  ∃ k p h, cycles = k :: p :: h ∧ p.cmd = 0xa0 ∧ (Unlocked c h ∧ p.boff c = c.unlockAddr0 ∨ InBypass c h) ∧
    after = before.clear (k.place c) k.bytes (Bytes.ofValue c.bigEndian k.bytes k.value)

/-- The last six writes are an erase of the chip or of a sector. -/
def Erases (cycles : List Cycle) (before after : Bytes) : Prop :=
  ∃ k u₁ u₀ p h, cycles = k :: u₁ :: u₀ :: p :: h ∧ Unlock1 c u₁ ∧ Unlock0 c u₀ ∧
    p.cmd = 0x80 ∧ p.boff c = c.unlockAddr0 ∧ Unlocked c h ∧
    (k.cmd = 0x10 ∧ k.boff c = c.unlockAddr0 ∧ after = before.fill 0 c.chipLen 0xff ∨
      k.cmd = 0x30 ∧ after = before.fill (k.place c / c.sectorLen * c.sectorLen) c.sectorLen 0xff)

/-- What the guest relies on. -/
structure Right (s : Sys) : Prop where
  inside : s.fault = false
  changes : s.pfl.storage = s.before ∨ Programs c s.cycles s.before s.pfl.storage ∨
    Erases c s.cycles s.before s.pfl.storage
  mirrors : ∀ disk, s.pfl.bs = some disk → Bytes.Mirrors disk s.pfl.storage c.chipLen

/-- A block device holds at least one sector, and it takes what is written back. -/
def Backed (p : Pflash) (ok : Bool) : Prop := p.bs ≠ none → 9 ≤ c.chipBits ∧ ok = true

/-- The CFI table is not read at the entry behind its last one, no erase is given in bypass mode, no
access is wider than the chip, and what changes can be written back. -/
def OpSafe (s : Sys) : Op → Prop
  | .read a =>
    s.pfl.romMode = false → a.width.bytes ≤ c.chipLen ∧
      (s.pfl.cmd = 0x98 → c.unit (a.offset &&& (c.chipLen - 1) &&& 0xff) ≠ cfiLen)
  | .write a value ok =>
    (s.pfl.wcycle = 3 → s.pfl.cmd = 0xa0 → a.width.bytes ≤ c.chipLen ∧ Backed c s.pfl ok) ∧
      (s.pfl.wcycle = 5 → UInt8.ofNat value = 0x10 ∨ UInt8.ofNat value = 0x30 →
        s.pfl.bypass = false ∧ Backed c s.pfl ok)
  | .timer => True

end Protocol

end Ar7Qemu.PflashCfi02
