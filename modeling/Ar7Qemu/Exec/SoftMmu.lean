import Ar7Qemu.Exec.CodeProtect
import Ar7Qemu.Lib.WordBytes

/-! The accesses of the guest to memory through the soft TLB: the loads and stores of
`softmmu_template.h`, with and without `ALIGNED_ONLY`. A host pointer into RAM is the RAM address
that it stands for, an I/O page without side effects is a page of memory, and instruction counting
is left out. -/

namespace Ar7Qemu.Exec.SoftMmu

open CodeProtect (tlbInvalidMask tlbNotdirty codeDirtyFlag)
open CodeProtect.State (tlbIndex)
open Lib.WordBytes

/-- The sizes of a guest, with those of its physical addresses. -/
structure PhysTarget extends Target where
  /-- `TARGET_PHYS_ADDR_BITS`. -/
  physBits : ℕ
  lt_physBits : pageBits < physBits

/-- The physical addresses are divided into pages of the same size. -/
def PhysTarget.phys (t : PhysTarget) : Target := ⟨t.physBits, t.pageBits, t.six_le, t.lt_physBits⟩

variable {t : PhysTarget} {Mode G : Type}

/-- `target_ulong`. -/
abbrev VirtAddr (t : PhysTarget) := Addr t.toTarget

/-- `target_phys_addr_t`. -/
abbrev PhysAddr (t : PhysTarget) := Addr t.phys

/-- A virtual address where a physical address is needed. -/
def toPhys (addr : VirtAddr t) : PhysAddr t := addr.setWidth _

/-- `is_write` of `tlb_fill`. -/
inductive AccessType where
  | read
  | write
  | code
  deriving DecidableEq

/-- An entry of `tlb_table`, with the one of `iotlb`. -/
structure CPUTLBEntry (t : PhysTarget) where
  addrRead : VirtAddr t
  addrWrite : VirtAddr t
  addrCode : VirtAddr t
  addend : PhysAddr t
  iotlb : PhysAddr t

def ioMemShift : ℕ := 3
def ioMemNbEntries (t : PhysTarget) : ℕ := 1 <<< (t.pageBits - ioMemShift)

/-- `IO_MEM_NOTDIRTY`, as an index of the tables of handlers. -/
def ioMemNotdirty : ℕ := 3

/-- The handlers of an entry of `iotlb`. -/
def ioIndex (physaddr : PhysAddr t) : ℕ := physaddr.toNat >>> ioMemShift &&& (ioMemNbEntries t - 1)

/-- Which of the branches of `__ld` and `__st` an access takes. -/
inductive Path where
  /-- The page is not in the TLB. -/
  | miss
  | io
  | unaligned
  | direct
  deriving DecidableEq

namespace CPUTLBEntry

variable (e : CPUTLBEntry t)

def tlbAddr : AccessType → VirtAddr t
  | .read => e.addrRead
  | .write => e.addrWrite
  | .code => e.addrCode

/-- The entry is that of the page of an address. -/
def Hit (acc : AccessType) (addr : VirtAddr t) : Prop :=
  page addr = e.tlbAddr acc &&& (pageMask t.toTarget ||| tlbInvalidMask)

instance (acc : AccessType) (addr : VirtAddr t) : Decidable (e.Hit acc addr) := inferInstanceAs (Decidable (_ = _))

/-- The tests that `__ld`, `slow_ld`, `__st` and `slow_st` make. -/
def path (acc : AccessType) (addr : VirtAddr t) (dataSize : ℕ) : Path :=
  if e.Hit acc addr then
    if offset (e.tlbAddr acc) ≠ 0 then
      if addr &&& BitVec.ofNat _ (dataSize - 1) ≠ 0 then .unaligned else .io
    else if t.pageSize ≤ (offset addr).toNat + dataSize - 1 then .unaligned
    else .direct
  else .miss

def tlbSetDirty1 (vaddr : VirtAddr t) : CPUTLBEntry t :=
  if e.addrWrite = vaddr ||| tlbNotdirty then { e with addrWrite := vaddr } else e

end CPUTLBEntry

/-- The state of a CPU and of the memory that it accesses, with any other state that the
refilling of the TLB and the invalidation of translated code depend on. -/
structure State (t : PhysTarget) (Mode G : Type) where
  tlbTable : Mode → ℕ → CPUTLBEntry t
  ram : Memory t.phys.longBits
  /-- The pages of I/O, by the index of their handlers. -/
  ioMem : ℕ → Memory t.phys.longBits
  physRamDirty : PhysAddr t → BitVec 8
  env : G

/-- How an access ends. -/
inductive Outcome (α : Type) where
  | done (a : α)
  /-- `tlb_fill` has raised an exception of the guest. -/
  | fault
  /-- `do_unaligned_access` has raised one. -/
  | misaligned

/-- An access of a model with fuel. -/
abbrev Run (t : PhysTarget) (Mode G α : Type) := Option (Outcome α × State t Mode G)

/-- What comes after an access that has not raised an exception. -/
def andThen {α β : Type} (r : Run t Mode G α) (f : α → State t Mode G → Run t Mode G β) : Run t Mode G β :=
  match r with
  | some (.done a, σ) => f a σ
  | some (.fault, σ) => some (.fault, σ)
  | some (.misaligned, σ) => some (.misaligned, σ)
  | none => none

/-- `tlb_fill`, which returns (`true`) or raises an exception. -/
abbrev TlbFill (t : PhysTarget) (Mode G : Type) :=
  AccessType → Mode → VirtAddr t → State t Mode G → Bool × State t Mode G

/-- What comes after a call of `tlb_fill`. -/
def afterFill {α : Type} (r : Bool × State t Mode G) (f : State t Mode G → Run t Mode G α) : Run t Mode G α :=
  if r.1 then f r.2 else some (.fault, r.2)

/-- What `tb_invalidate_phys_page_fast` does to the dirty flags and to the translated code. -/
abbrev TbInvalidate (t : PhysTarget) (G : Type) :=
  PhysAddr t → ℕ → G → (PhysAddr t → BitVec 8) → G × (PhysAddr t → BitVec 8)

/-! ### Handlers -/

namespace State

variable (σ : State t Mode G)

def tlbSetDirty (vaddr : VirtAddr t) : State t Mode G :=
  { σ with tlbTable := fun m i =>
      if i = tlbIndex (page vaddr) then (σ.tlbTable m i).tlbSetDirty1 (page vaddr) else σ.tlbTable m i }

/-- `notdirty_mem_writeb`, `notdirty_mem_writew` and `notdirty_mem_writel`, by their length. -/
def notdirtyMemWrite (bigEndian : Bool) (tbInvalidate : TbInvalidate t G) (len : ℕ) (memIoVaddr : VirtAddr t)
    (ramAddr : PhysAddr t) (val : BitVec (8 * len)) : State t Mode G :=
  let σ :=
    if σ.physRamDirty (page ramAddr) &&& codeDirtyFlag = 0 then
      let r := tbInvalidate ramAddr len σ.env σ.physRamDirty
      { σ with env := r.1, physRamDirty := r.2 }
    else σ
  let dirtyFlags := σ.physRamDirty (page ramAddr) ||| (0xff &&& ~~~ codeDirtyFlag)
  let σ := { σ with
    ram := σ.ram.store bigEndian len ramAddr val
    physRamDirty := Function.update σ.physRamDirty (page ramAddr) dirtyFlags }
  -- we remove the notdirty callback only if the code has been flushed
  if dirtyFlags = 0xff then σ.tlbSetDirty memIoVaddr else σ

/-- `io_mem_read[index]`, by its length. -/
def ioMemRead (bigEndian : Bool) (index len : ℕ) (physaddr : PhysAddr t) : BitVec (8 * len) :=
  (σ.ioMem index).load bigEndian len physaddr

/-- `io_mem_write[index]`, by its length. -/
def ioMemWrite (bigEndian : Bool) (tbInvalidate : TbInvalidate t G) (index len : ℕ) (memIoVaddr : VirtAddr t)
    (physaddr : PhysAddr t) (val : BitVec (8 * len)) : State t Mode G :=
  if index = ioMemNotdirty then σ.notdirtyMemWrite bigEndian tbInvalidate len memIoVaddr physaddr val
  else { σ with ioMem := Function.update σ.ioMem index ((σ.ioMem index).store bigEndian len physaddr val) }

/-- `io_read`: a load of 8 bytes is two of 4. -/
def ioRead (bigEndian : Bool) (shift : ℕ) (physaddr : PhysAddr t) (addr : VirtAddr t) : BitVec (8 * 2 ^ shift) :=
  let index := ioIndex physaddr
  let physaddr := page physaddr + toPhys addr
  if shift ≤ 2 then σ.ioMemRead bigEndian index (2 ^ shift) physaddr
  else
    let first := (σ.ioMemRead bigEndian index 4 physaddr).setWidth (8 * 2 ^ shift)
    let second := (σ.ioMemRead bigEndian index 4 (physaddr + 4)).setWidth (8 * 2 ^ shift)
    if bigEndian then first <<< 32 ||| second else first ||| second <<< 32

/-- `io_write`: a store of 8 bytes is two of 4. -/
def ioWrite (bigEndian : Bool) (tbInvalidate : TbInvalidate t G) (shift : ℕ) (physaddr : PhysAddr t)
    (val : BitVec (8 * 2 ^ shift)) (addr : VirtAddr t) : State t Mode G :=
  let index := ioIndex physaddr
  let physaddr := page physaddr + toPhys addr
  if shift ≤ 2 then σ.ioMemWrite bigEndian tbInvalidate index (2 ^ shift) addr physaddr val
  else
    let first := if bigEndian then val >>> 32 else val
    let second := if bigEndian then val else val >>> 32
    (σ.ioMemWrite bigEndian tbInvalidate index 4 addr physaddr (first.setWidth _)).ioMemWrite bigEndian tbInvalidate
      index 4 addr (physaddr + 4) (second.setWidth _)

end State

/-! ### Loads -/

/-- The bytes of a load that stand in two aligned words. -/
def joinWords (bigEndian : Bool) {w : ℕ} (shift : ℕ) (res1 res2 : BitVec w) : BitVec w :=
  if bigEndian then res1 <<< shift ||| res2 >>> (w - shift) else res1 >>> shift ||| res2 <<< (w - shift)

def slowLd (bigEndian : Bool) (fill : TlbFill t Mode G) (shift : ℕ) (acc : AccessType) (mmuIdx : Mode) :
    ℕ → VirtAddr t → State t Mode G → Run t Mode G (BitVec (8 * 2 ^ shift))
  | 0, _, _ => none
  | fuel + 1, addr, σ =>
    let e := σ.tlbTable mmuIdx (tlbIndex addr)
    match e.path acc addr (2 ^ shift) with
    | .io => some (.done (σ.ioRead bigEndian shift e.iotlb addr), σ)
    | .unaligned =>
      let low : VirtAddr t := BitVec.ofNat _ (2 ^ shift - 1)
      let addr1 := addr &&& ~~~ low
      let addr2 := addr1 + BitVec.ofNat _ (2 ^ shift)
      andThen (slowLd bigEndian fill shift acc mmuIdx fuel addr1 σ) fun res1 σ =>
        andThen (slowLd bigEndian fill shift acc mmuIdx fuel addr2 σ) fun res2 σ =>
          some (.done (joinWords bigEndian ((addr &&& low).toNat * 8) res1 res2), σ)
    | .direct => some (.done (σ.ram.load bigEndian (2 ^ shift) (toPhys addr + e.addend)), σ)
    | .miss => afterFill (fill acc mmuIdx addr σ) fun σ => slowLd bigEndian fill shift acc mmuIdx fuel addr σ

/-- The test on the address that `ALIGNED_ONLY` adds. -/
def misaligned (alignedOnly : Bool) (dataSize : ℕ) (addr : VirtAddr t) : Bool :=
  alignedOnly && addr &&& BitVec.ofNat _ (dataSize - 1) != 0

def ld (bigEndian alignedOnly : Bool) (fill : TlbFill t Mode G) (shift : ℕ) (acc : AccessType) (mmuIdx : Mode) :
    ℕ → VirtAddr t → State t Mode G → Run t Mode G (BitVec (8 * 2 ^ shift))
  | 0, _, _ => none
  | fuel + 1, addr, σ =>
    let e := σ.tlbTable mmuIdx (tlbIndex addr)
    match e.path acc addr (2 ^ shift) with
    | .io => some (.done (σ.ioRead bigEndian shift e.iotlb addr), σ)
    | .unaligned => if alignedOnly then some (.misaligned, σ) else slowLd bigEndian fill shift acc mmuIdx fuel addr σ
    | .direct =>
      if misaligned alignedOnly (2 ^ shift) addr then some (.misaligned, σ)
      else some (.done (σ.ram.load bigEndian (2 ^ shift) (toPhys addr + e.addend)), σ)
    | .miss =>
      if misaligned alignedOnly (2 ^ shift) addr then some (.misaligned, σ)
      else afterFill (fill acc mmuIdx addr σ) fun σ => ld bigEndian alignedOnly fill shift acc mmuIdx fuel addr σ

/-! ### Stores -/

def downLoop (body : ℕ → State t Mode G → Run t Mode G Unit) : ℕ → State t Mode G → Run t Mode G Unit
  | 0, σ => some (.done (), σ)
  | i + 1, σ => andThen (body i σ) fun _ σ => downLoop body i σ

/-- `slow_st`, for every size. -/
def slowSt (bigEndian : Bool) (fill : TlbFill t Mode G) (tbInvalidate : TbInvalidate t G) (mmuIdx : Mode) :
    ℕ → (shift : ℕ) → VirtAddr t → BitVec (8 * 2 ^ shift) → State t Mode G → Run t Mode G Unit
  | 0, _, _, _, _ => none
  | fuel + 1, shift, addr, val, σ =>
    let e := σ.tlbTable mmuIdx (tlbIndex addr)
    match e.path .write addr (2 ^ shift) with
    | .io => some (.done (), σ.ioWrite bigEndian tbInvalidate shift e.iotlb val addr)
    | .unaligned =>
      -- relies on the fact that `tlb_fill` does not remove the previous page from the TLB
      downLoop (fun i σ =>
        let down := if bigEndian then (2 ^ shift - 1) * 8 - i * 8 else i * 8
        slowSt bigEndian fill tbInvalidate mmuIdx fuel 0 (addr + BitVec.ofNat _ i) ((val >>> down).setWidth _) σ)
        (2 ^ shift) σ
    | .direct => some (.done (), { σ with ram := σ.ram.store bigEndian (2 ^ shift) (toPhys addr + e.addend) val })
    | .miss => afterFill (fill .write mmuIdx addr σ) fun σ =>
        slowSt bigEndian fill tbInvalidate mmuIdx fuel shift addr val σ

def st (bigEndian alignedOnly : Bool) (fill : TlbFill t Mode G) (tbInvalidate : TbInvalidate t G) (mmuIdx : Mode) (shift : ℕ) :
    ℕ → VirtAddr t → BitVec (8 * 2 ^ shift) → State t Mode G → Run t Mode G Unit
  | 0, _, _, _ => none
  | fuel + 1, addr, val, σ =>
    let e := σ.tlbTable mmuIdx (tlbIndex addr)
    match e.path .write addr (2 ^ shift) with
    | .io => some (.done (), σ.ioWrite bigEndian tbInvalidate shift e.iotlb val addr)
    | .unaligned =>
      if alignedOnly then some (.misaligned, σ) else slowSt bigEndian fill tbInvalidate mmuIdx fuel shift addr val σ
    | .direct =>
      if misaligned alignedOnly (2 ^ shift) addr then some (.misaligned, σ)
      else some (.done (), { σ with ram := σ.ram.store bigEndian (2 ^ shift) (toPhys addr + e.addend) val })
    | .miss =>
      if misaligned alignedOnly (2 ^ shift) addr then some (.misaligned, σ)
      else afterFill (fill .write mmuIdx addr σ) fun σ =>
        st bigEndian alignedOnly fill tbInvalidate mmuIdx shift fuel addr val σ

end Ar7Qemu.Exec.SoftMmu
