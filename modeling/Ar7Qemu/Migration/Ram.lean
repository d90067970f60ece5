import Ar7Qemu.Lib.ByteStore
import Ar7Qemu.Migration.QemuFile

/-! Live migration of guest RAM: `ram_save_live` with its helpers on the source and
`ram_load` on the destination. The guest runs while pages are sent: its stores may come
between two pages and also between the steps of sending one. The TLB side of
`cpu_physical_memory_reset_dirty` is what makes a store set the dirty flags again. -/

namespace Ar7Qemu.Migration

open Lib

def targetPageSize : ℕ := 4096
def migrationDirtyFlag : BitVec 8 := 0x08
def ramSaveFlagFull : ℕ := 0x01
def ramSaveFlagCompress : ℕ := 0x02
def ramSaveFlagMemSize : ℕ := 0x04
def ramSaveFlagPage : ℕ := 0x08
def ramSaveFlagEos : ℕ := 0x10

/-- The source of a migration: guest RAM, `phys_ram_dirty` and the static cursor of
`ram_save_block`. -/
structure Source where
  ram : Bytes
  dirty : ℕ → BitVec 8
  currentAddr : ℕ

namespace Source

/-- `cpu_physical_memory_get_dirty`. -/
def getDirty (s : Source) (addr : ℕ) (flags : BitVec 8) : Bool :=
  s.dirty (addr / targetPageSize) &&& flags ≠ 0

/-- `cpu_physical_memory_set_dirty`. -/
def setDirty (s : Source) (addr : ℕ) : Source :=
  { s with dirty := Function.update s.dirty (addr / targetPageSize) 0xff }

/-- `cpu_physical_memory_reset_dirty`. -/
def resetDirty (s : Source) (start stop : ℕ) (flags : BitVec 8) : Source :=
  { s with dirty := fun p =>
      if start / targetPageSize ≤ p ∧ p < (stop + targetPageSize - 1) / targetPageSize
      then s.dirty p &&& ~~~flags else s.dirty p }

def store (s : Source) (w : ℕ × UInt8) : Source :=
  { s with ram := Function.update s.ram w.1 w.2 }.setDirty w.1

def stores (s : Source) (ws : List (ℕ × UInt8)) : Source := ws.foldl store s

end Source

def hostWord (page : Bytes) (i : ℕ) : ℕ :=
  (page (4 * i)).toNat + (page (4 * i + 1)).toNat <<< 8 + (page (4 * i + 2)).toNat <<< 16 +
    (page (4 * i + 3)).toNat <<< 24

def isDupPage (page : Bytes) (ch : UInt8) : Bool :=
  let val := ch.toNat <<< 24 + ch.toNat <<< 16 + ch.toNat <<< 8 + ch.toNat
  (List.range (targetPageSize / 4)).all fun i => hostWord page i == val

/-- The stores of the guest around one page: before `ram_save_block`, after the dirty flag
is cleared, and after the page is tested. -/
structure Turn where
  before : List (ℕ × UInt8)
  afterClear : List (ℕ × UInt8)
  afterTest : List (ℕ × UInt8)

def Turn.idle : Turn := ⟨[], [], []⟩

/-- The search of `ram_save_block` for a dirty page, with the address of the cursor. -/
def findDirty (lastRamOffset savedAddr : ℕ) (s : Source) : ℕ → ℕ → ℕ → Bool × ℕ
  | 0, _, currentAddr => (false, currentAddr)
  | n + 1, addr, currentAddr =>
    if addr < lastRamOffset then
      if s.getDirty currentAddr migrationDirtyFlag then (true, currentAddr)
      else findDirty lastRamOffset savedAddr s n (addr + targetPageSize)
        ((savedAddr + (addr + targetPageSize)) % lastRamOffset)
    else (false, currentAddr)

/-- The body of `ram_save_block` for a dirty page. -/
def sendPage (t : Turn) (s : Source) : Stream × Source :=
  let addr := s.currentAddr
  let s := s.resetDirty addr (addr + targetPageSize) migrationDirtyFlag
  let s := s.stores t.afterClear
  let dup := isDupPage (s.ram.drop addr) (s.ram addr)
  let s := s.stores t.afterTest
  if dup then (putBe64 (addr ||| ramSaveFlagCompress) ++ putByte (s.ram addr).toNat, s)
  else (putBe64 (addr ||| ramSaveFlagPage) ++ (List.range targetPageSize).map (s.ram.drop addr), s)

def ramSaveBlock (lastRamOffset : ℕ) (t : Turn) (s : Source) : Bool × Stream × Source :=
  let (found, currentAddr) :=
    findDirty lastRamOffset s.currentAddr s (lastRamOffset / targetPageSize + 1) 0 s.currentAddr
  let s := { s with currentAddr := currentAddr }
  if found then (true, sendPage t s) else (false, [], s)

def ramSaveRemaining (lastRamOffset : ℕ) (s : Source) : ℕ :=
  (List.range (lastRamOffset / targetPageSize)).countP fun p =>
    s.getDirty (p * targetPageSize) migrationDirtyFlag

/-- The loop of `ram_save_live` up to the rate limit: one turn for each time the limit is
not reached. -/
def saveLoop (lastRamOffset : ℕ) : List Turn → Source → Stream × Source
  | [], s => ([], s)
  | t :: ts, s =>
    let (found, out, s) := ramSaveBlock lastRamOffset t (s.stores t.before)
    if found then
      let (out', s) := saveLoop lastRamOffset ts s
      (out ++ out', s)
    else (out, s)

/-- The loop of stage 3 that flushes all remaining pages. There is no result when the fuel
is used up. -/
def flushLoop (lastRamOffset : ℕ) : ℕ → Source → Option (Stream × Source)
  | 0, _ => none
  | n + 1, s =>
    let (found, out, s) := ramSaveBlock lastRamOffset .idle s
    if found then (flushLoop lastRamOffset n s).map fun r => (out ++ r.1, r.2)
    else some (out, s)

/-- `ram_save_live`. Its return value asks for the last stage when few pages are left. -/
def ramSaveLive (lastRamOffset stage : ℕ) (ts : List Turn) (s : Source) :
    Option (Bool × Stream × Source) :=
  let pages := lastRamOffset / targetPageSize
  let s := if stage = 1 then
      (List.range pages).foldl (fun s p =>
        if s.getDirty (p * targetPageSize) migrationDirtyFlag then s
        else s.setDirty (p * targetPageSize)) s
    else s
  let head := if stage = 1 then putBe64 (lastRamOffset ||| ramSaveFlagMemSize) else []
  let (out, s) := saveLoop lastRamOffset ts s
  let rest := if stage = 3 then flushLoop lastRamOffset (pages + 1) s else some ([], s)
  rest.map fun r =>
    (decide (stage = 2 ∧ ramSaveRemaining lastRamOffset r.2 < 10),
      head ++ out ++ r.1 ++ putBe64 ramSaveFlagEos, r.2)

/-- A loader of an older format: it returns a result, the RAM and the rest of the stream. -/
abbrev Loader := Bytes → Stream → ℤ × Bytes × Stream

/-- The bytes of a page or of a uniform page, put at `addr`. -/
def loadPage (flags addr : ℕ) (ram : Bytes) (f : Stream) : Bytes × Stream :=
  if flags &&& ramSaveFlagCompress ≠ 0 then
    let (ch, f) := getByte f
    (ram.write addr targetPageSize fun _ => ch, f)
  else if flags &&& ramSaveFlagPage ≠ 0 then
    let (page, f) := getBuffer targetPageSize f
    (ram.write addr page.length fun i => page.getD i 0, f)
  else (ram, f)

/-- The loop of `ram_load`. There is no result when the fuel is used up. -/
def ramLoadLoop (lastRamOffset : ℕ) (ramLoadDead : Loader) :
    ℕ → Bytes → Stream → Option (ℤ × Bytes × Stream)
  | 0, _, _ => none
  | n + 1, ram, f =>
    let (word, f) := getBe64 f
    let flags := word % targetPageSize
    let addr := word - flags
    if flags &&& ramSaveFlagMemSize ≠ 0 ∧ addr ≠ lastRamOffset then some (-einval, ram, f)
    else
      let (r, ram, f) := if flags &&& ramSaveFlagFull ≠ 0 then ramLoadDead ram f else (0, ram, f)
      if r < 0 then some (-einval, ram, f)
      else
        let (ram, f) := loadPage flags addr ram f
        if flags &&& ramSaveFlagEos ≠ 0 then some (0, ram, f)
        else ramLoadLoop lastRamOffset ramLoadDead n ram f

/-- `ram_load`. Every pass of its loop reads at least one byte of the section. -/
def ramLoad (lastRamOffset : ℕ) (ramLoadV1 ramLoadDead : Loader) (version : ℕ) (ram : Bytes)
    (f : Stream) : Option (ℤ × Bytes × Stream) :=
  if version = 1 then some (ramLoadV1 ram f)
  else if version = 2 then
    let (size, f) := getBe32 f
    if size ≠ lastRamOffset then some (-einval, ram, f) else some (ramLoadDead ram f)
  else if version ≠ 3 then some (-einval, ram, f)
  else ramLoadLoop lastRamOffset ramLoadDead (f.length + 1) ram f

end Ar7Qemu.Migration
