import Ar7Qemu.Exec.TbLists

/-! The protection of translated code against writes: the dirty flags of RAM pages, the
bitmaps of the code in a page, and the soft TLBs of the CPUs. The contents of RAM are left
out, and a host pointer into RAM is the RAM address that it stands for. -/

namespace Ar7Qemu.Exec.CodeProtect

open TbLists (Overlaps)

variable {t : Target} {Cpu Mode : Type}

def tlbInvalidMask : Addr t := 1#_ <<< 3
def tlbNotdirty : Addr t := 1#_ <<< 4
def tlbMmio : Addr t := 1#_ <<< 5

def codeDirtyFlag : BitVec 8 := 0x02

def cpuTlbSize : ℕ := 2 ^ 8
def smcBitmapUseThreshold : ℕ := 10
def l2Bits : ℕ := 10

/-- `phys_offset` of a physical page. -/
inductive PhysOffset (t : Target) where
  | ram (p : PhysPage t)
  | rom (p : PhysPage t)
  | romd (p : PhysPage t)
  | io

/-- The handler of the accesses that do not go to RAM, and for those that need it the
difference between its addresses and virtual addresses. -/
inductive Iotlb (t : Target) where
  | notdirty (base : Addr t)
  | watch (base : Addr t)
  | other

/-- An entry of `tlb_table`, with the one of `iotlb`. -/
structure CPUTLBEntry (t : Target) where
  addrRead : Addr t
  addrWrite : Addr t
  addrCode : Addr t
  addend : Addr t
  iotlb : Iotlb t

namespace CPUTLBEntry

variable (e : CPUTLBEntry t)

def ramPage : Addr t := page e.addrWrite + e.addend

/-- `tlb_flush_entry`, after the test. -/
def flushed : CPUTLBEntry t := { e with addrRead := noPage, addrWrite := noPage, addrCode := noPage }

def tlbFlushEntry (addr : Addr t) : CPUTLBEntry t :=
  let mask := pageMask t ||| tlbInvalidMask
  if addr = e.addrRead &&& mask ∨ addr = e.addrWrite &&& mask ∨ addr = e.addrCode &&& mask then e.flushed else e

def tlbResetDirtyRange (start length : ℕ) : CPUTLBEntry t :=
  if offset e.addrWrite = 0 ∧ start ≤ e.ramPage.toNat ∧ e.ramPage.toNat - start < length then
    { e with addrWrite := page e.addrWrite ||| tlbNotdirty }
  else e

def tlbUpdateDirty (physRamDirty : Addr t → BitVec 8) : CPUTLBEntry t :=
  if offset e.addrWrite = 0 ∧ physRamDirty (page e.ramPage) ≠ 0xff then
    { e with addrWrite := e.addrWrite ||| tlbNotdirty }
  else e

def tlbSetDirty1 (vaddr : Addr t) : CPUTLBEntry t :=
  if e.addrWrite = vaddr ||| tlbNotdirty then { e with addrWrite := vaddr } else e

end CPUTLBEntry

structure State (t : Target) (Cpu Mode : Type) where
  lists : TbLists.State t
  /-- `page_find` finds a descriptor. -/
  hasDesc : Addr t → Bool
  codeBitmap : Addr t → Option (ℕ → BitVec 8)
  codeWriteCount : Addr t → ℕ
  physRamDirty : Addr t → BitVec 8
  physOffset : Addr t → PhysOffset t
  tlbTable : Cpu → Mode → ℕ → CPUTLBEntry t

/-! ### Code bitmaps -/

/-- The loop of `set_bits` over whole bytes. -/
def fillBytes : ℕ → ℕ → (ℕ → BitVec 8) → (ℕ → BitVec 8)
  | 0, _, tab => tab
  | n + 1, i, tab => fillBytes n (i + 1) (Function.update tab i 0xff)

def setBits (tab : ℕ → BitVec 8) (start len : ℕ) : ℕ → BitVec 8 :=
  let stop := start + len
  let first := start / 8
  let last := stop / 8
  let mask : BitVec 8 := 0xff <<< (start % 8)
  let lastMask : BitVec 8 := ~~~ (0xff <<< (stop % 8))
  if first = last then
    if start < stop then Function.update tab first (tab first ||| (mask &&& lastMask)) else tab
  else
    let tab := fillBytes (last - (first + 1)) (first + 1) (Function.update tab first (tab first ||| mask))
    if 8 * last < stop then Function.update tab last (tab last ||| lastMask) else tab

/-- The offsets of the code of a part of a block in its page. -/
def codeRange (tb : TranslationBlock t) (k : ℕ) : ℕ × ℕ :=
  if k = 0 then ((offset tb.pc).toNat, min ((offset tb.pc).toNat + tb.size) t.pageSize)
  else (0, (offset (tb.pc + BitVec.ofNat _ tb.size)).toNat)

/-- The loop of `build_page_bitmap`. -/
def buildLoop (lists : TbLists.State t) : ℕ → Option (ℕ × ℕ) → (ℕ → BitVec 8) → Option (ℕ → BitVec 8)
  | 0, _, _ => none
  | _ + 1, none, tab => some tab
  | fuel + 1, some (n, k), tab =>
    let range := codeRange (lists.tbs n) k
    buildLoop lists fuel (lists.pageNext (n, k)) (setBits tab range.1 (range.2 - range.1))

namespace State

variable (σ : State t Cpu Mode)

def invalidatePageBitmap (p : Addr t) : State t Cpu Mode :=
  { σ with
    codeBitmap := Function.update σ.codeBitmap p none
    codeWriteCount := Function.update σ.codeWriteCount p 0 }

def buildPageBitmap (p : Addr t) : Option (State t Cpu Mode) :=
  (buildLoop σ.lists σ.lists.fuel (σ.lists.firstTb p) fun _ => 0).map fun tab =>
    { σ with codeBitmap := Function.update σ.codeBitmap p (some tab) }

/-! ### Dirty flags and TLBs -/

def cpuPhysicalMemoryResetDirty (start stop : ℕ) (dirtyFlags : BitVec 8) : State t Cpu Mode :=
  let start := start / t.pageSize * t.pageSize
  let stop := (stop + t.pageSize - 1) / t.pageSize * t.pageSize
  { σ with
    physRamDirty := fun p =>
      if start ≤ p.toNat ∧ p.toNat < stop then σ.physRamDirty p &&& ~~~ dirtyFlags else σ.physRamDirty p
    tlbTable := fun c m i => (σ.tlbTable c m i).tlbResetDirtyRange start (stop - start) }

def tlbProtectCode (p : Addr t) : State t Cpu Mode :=
  σ.cpuPhysicalMemoryResetDirty p.toNat (p.toNat + t.pageSize) codeDirtyFlag

def tlbUnprotectCodePhys (p : Addr t) : State t Cpu Mode :=
  { σ with physRamDirty := Function.update σ.physRamDirty p (σ.physRamDirty p ||| codeDirtyFlag) }

def tlbIndex (vaddr : Addr t) : ℕ := vaddr.toNat >>> t.pageBits &&& (cpuTlbSize - 1)

def cpuTlbUpdateDirty [DecidableEq Cpu] (cpu : Cpu) : State t Cpu Mode :=
  { σ with tlbTable := fun c m i =>
      if c = cpu then (σ.tlbTable c m i).tlbUpdateDirty σ.physRamDirty else σ.tlbTable c m i }

def tlbSetDirty [DecidableEq Cpu] (cpu : Cpu) (vaddr : Addr t) : State t Cpu Mode :=
  { σ with tlbTable := fun c m i =>
      if c = cpu ∧ i = tlbIndex (page vaddr) then (σ.tlbTable c m i).tlbSetDirty1 (page vaddr)
      else σ.tlbTable c m i }

def tlbFlush [DecidableEq Cpu] (cpu : Cpu) : State t Cpu Mode :=
  { σ with tlbTable := fun c m i => if c = cpu then (σ.tlbTable c m i).flushed else σ.tlbTable c m i }

def tlbFlushPage [DecidableEq Cpu] (cpu : Cpu) (addr : Addr t) : State t Cpu Mode :=
  { σ with tlbTable := fun c m i =>
      if c = cpu ∧ i = tlbIndex (page addr) then (σ.tlbTable c m i).tlbFlushEntry (page addr)
      else σ.tlbTable c m i }

end State

/-- `prot` of `tlb_set_page_exec`. -/
structure Prot where
  read : Bool
  write : Bool
  exec : Bool

/-- The entry that `tlb_set_page_exec` makes. -/
def tlbEntry (pd : PhysOffset t) (physRamDirty : Addr t → BitVec 8) (vaddr paddr : Addr t) (prot : Prot)
    (watchpoints : List (Addr t)) : CPUTLBEntry t :=
  let codeAddress := match pd with
    | .io => vaddr ||| tlbMmio
    | _ => vaddr
  let ram := match pd with
    | .ram p => p.addr
    | .rom p => p.addr
    | .romd p => p.addr
    | .io => 0
  let watched := watchpoints.any fun wp => vaddr = page wp
  let address := if watched then codeAddress ||| tlbMmio else codeAddress
  let iotlb := if watched then .watch (paddr - vaddr) else match pd with
    | .ram p => .notdirty (p.addr - vaddr)
    | _ => .other
  let addrWrite := match pd with
    | .rom _ => address ||| tlbMmio
    | .romd _ => address ||| tlbMmio
    | .ram p => if physRamDirty p.addr ≠ 0xff then address ||| tlbNotdirty else address
    | .io => address
  { addrRead := if prot.read then address else noPage
    addrWrite := if prot.write then addrWrite else noPage
    addrCode := if prot.exec then codeAddress else noPage
    addend := ram - vaddr
    iotlb := iotlb }

namespace State

variable (σ : State t Cpu Mode)

def tlbSetPageExec [DecidableEq Cpu] [DecidableEq Mode] (cpu : Cpu) (vaddr paddr : Addr t) (prot : Prot)
    (mmuIdx : Mode) (watchpoints : List (Addr t)) : State t Cpu Mode :=
  { σ with tlbTable := fun c m i =>
      if c = cpu ∧ m = mmuIdx ∧ i = tlbIndex vaddr then
        tlbEntry (σ.physOffset (page paddr)) σ.physRamDirty vaddr paddr prot watchpoints
      else σ.tlbTable c m i }

/-! ### Translated code -/

/-- `page_find_alloc`: the descriptors of a whole table of the second level are allocated. -/
def pageFindAlloc (p : Addr t) : State t Cpu Mode :=
  let table := fun a : Addr t => a.toNat >>> (t.pageBits + l2Bits)
  { σ with hasDesc := fun q => table q == table p || σ.hasDesc q }

def tbAllocPage (n k : ℕ) (p : Addr t) : State t Cpu Mode :=
  let lastFirstTb := σ.lists.firstTb p
  let σ := σ.pageFindAlloc p
  let σ := { σ with lists := σ.lists.tbAllocPage n k p }
  let σ := σ.invalidatePageBitmap p
  -- if some code is already present, then the page is already protected
  if lastFirstTb = none then σ.tlbProtectCode p else σ

def mapLists (f : TbLists.State t → TbLists.State t) : State t Cpu Mode := { σ with lists := f σ.lists }

def tbLinkPhys (n : ℕ) (physPc physPage2 : Addr t) : State t Cpu Mode :=
  let h := tbPhysHashFunc physPc
  let σ := σ.mapLists fun l => { l with
    physHashNext := Function.update l.physHashNext n (l.tbPhysHash h)
    tbPhysHash := Function.update l.tbPhysHash h (some n) }
  let σ := σ.tbAllocPage n 0 (page physPc)
  let σ :=
    if physPage2 ≠ noPage then σ.tbAllocPage n 1 physPage2
    else σ.mapLists fun l => { l with tbs := Function.update l.tbs n { l.tbs n with pageAddr1 := noPage } }
  σ.mapLists fun l => { l with
    jmp := Function.update (Function.update (Function.update l.jmp (n, 2) (some (n, 2))) (n, 0) none) (n, 1) none
    jmpTarget := Function.update (Function.update l.jmpTarget (n, 0) none) (n, 1) none
    live := Function.update l.live n true }

def tbFlush : State t Cpu Mode :=
  { σ with lists := σ.lists.tbFlush, codeBitmap := fun _ => none, codeWriteCount := fun _ => 0 }

/-- `invalidate_page_bitmap` for an entry of `page_addr` that is set. -/
def invalidatePageBitmapSet (p : Addr t) : State t Cpu Mode := if p ≠ noPage then σ.invalidatePageBitmap p else σ

/-- `tb_phys_invalidate`, where `page_addr` is `-1`. -/
def tbPhysInvalidate (n : ℕ) : Option (State t Cpu Mode) :=
  let tb := σ.lists.tbs n
  (σ.lists.tbPhysInvalidate n).map fun lists =>
    ({ σ with lists := lists }.invalidatePageBitmapSet tb.pageAddr0).invalidatePageBitmapSet tb.pageAddr1

/-- The loop of `tb_invalidate_phys_page_range`. -/
def rangeLoop (start stop : ℕ) : ℕ → Option (ℕ × ℕ) → State t Cpu Mode → Option (State t Cpu Mode)
  | 0, _, _ => none
  | _ + 1, none, σ => some σ
  | fuel + 1, some (n, k), σ =>
    if Overlaps (σ.lists.tbs n) k start stop then
      (σ.tbPhysInvalidate n).bind (rangeLoop start stop fuel (σ.lists.pageNext (n, k)))
    else rangeLoop start stop fuel (σ.lists.pageNext (n, k)) σ

/-- `tb_invalidate_phys_page_range` up to its loop: a page that is written to often gets a bitmap. -/
def countWrite (p : Addr t) (isCpuWriteAccess : Bool) : Option (State t Cpu Mode) :=
  if σ.codeBitmap p = none then
    let count := σ.codeWriteCount p + 1
    let σ := { σ with codeWriteCount := Function.update σ.codeWriteCount p count }
    if smcBitmapUseThreshold ≤ count ∧ isCpuWriteAccess then σ.buildPageBitmap p else some σ
  else some σ

/-- `tb_invalidate_phys_page_range` after its loop: if no code is remaining, no need to
continue to use slow writes. -/
def codeRemoved (p : Addr t) (isCpuWriteAccess : Bool) : State t Cpu Mode :=
  if σ.lists.firstTb p = none then
    let σ := σ.invalidatePageBitmap p
    if isCpuWriteAccess then σ.tlbUnprotectCodePhys p else σ
  else σ

def tbInvalidatePhysPageRange (start stop : ℕ) (isCpuWriteAccess : Bool) : Option (State t Cpu Mode) :=
  let p := page (BitVec.ofNat _ start)
  if σ.hasDesc p then
    (σ.countWrite p isCpuWriteAccess).bind fun σ =>
      (rangeLoop start stop σ.lists.fuel (σ.lists.firstTb p) σ).map fun σ => σ.codeRemoved p isCpuWriteAccess
  else some σ

def tbInvalidatePhysPageFast (start : Addr t) (len : ℕ) : Option (State t Cpu Mode) :=
  let p := page start
  if σ.hasDesc p then
    match σ.codeBitmap p with
    | some tab =>
      let off := (offset start).toNat
      let b := (tab (off / 8)).toNat >>> (off % 8)
      if b &&& (2 ^ len - 1) ≠ 0 then σ.tbInvalidatePhysPageRange start.toNat (start.toNat + len) true else some σ
    | none => σ.tbInvalidatePhysPageRange start.toNat (start.toNat + len) true
  else some σ

/-! ### Writes -/

/-- Every flag but `CODE_DIRTY_FLAG` is set. -/
def setDirtyFlags (p : Addr t) : State t Cpu Mode :=
  { σ with physRamDirty := Function.update σ.physRamDirty p (σ.physRamDirty p ||| ~~~ codeDirtyFlag) }

/-- The part of `notdirty_mem_write` that has to do with code. -/
def notdirtyInvalidate (ramAddr : Addr t) (len : ℕ) : Option (State t Cpu Mode) :=
  if σ.physRamDirty (page ramAddr) &&& codeDirtyFlag = 0 then σ.tbInvalidatePhysPageFast ramAddr len else some σ

/-- `notdirty_mem_writeb`, `notdirty_mem_writew` and `notdirty_mem_writel`, by their length. -/
def notdirtyMemWrite [DecidableEq Cpu] (cpu : Cpu) (memIoVaddr ramAddr : Addr t) (len : ℕ) :
    Option (State t Cpu Mode) :=
  (σ.notdirtyInvalidate ramAddr len).map fun σ =>
    let σ := σ.setDirtyFlags (page ramAddr)
    -- we remove the notdirty callback only if the code has been flushed
    if σ.physRamDirty (page ramAddr) = 0xff then σ.tlbSetDirty cpu memIoVaddr else σ

/-- The RAM case of `cpu_physical_memory_rw`, and that of `stl_phys`. -/
def physRamWrite (ramAddr : Addr t) (len : ℕ) : Option (State t Cpu Mode) :=
  if σ.physRamDirty (page ramAddr) ≠ 0xff then
    (σ.tbInvalidatePhysPageRange ramAddr.toNat (ramAddr.toNat + len) false).map (·.setDirtyFlags (page ramAddr))
  else some σ

/-- One round of `cpu_physical_memory_rw`. The handlers of I/O pages do not write to RAM
themselves. -/
def physPageWrite (addr : Addr t) (len : ℕ) : Option (State t Cpu Mode) :=
  match σ.physOffset (page addr) with
  | .ram p => σ.physRamWrite (p.addr + offset addr) len
  | _ => some σ

/-- The loop of `cpu_physical_memory_rw` for a write. -/
def physWriteLoop : ℕ → Addr t → ℕ → State t Cpu Mode → Option (State t Cpu Mode)
  | 0, _, _, σ => some σ
  | fuel + 1, addr, len, σ =>
    if len = 0 then some σ
    else
      let l := min (t.pageSize - (offset addr).toNat) len
      (σ.physPageWrite addr l).bind (physWriteLoop fuel (addr + BitVec.ofNat _ l) (len - l))

/-- `cpu_physical_memory_rw` for a write. Each round writes at least one byte. -/
def cpuPhysicalMemoryWrite (addr : Addr t) (len : ℕ) : Option (State t Cpu Mode) := physWriteLoop len addr len σ

end State

/-- Where a store goes. -/
inductive Access (t : Target) where
  /-- The page is not in the TLB: it is filled, and the store is tried again. -/
  | miss
  /-- The bytes are stored one by one. -/
  | unaligned
  | direct (ramAddr : Addr t)
  | notdirty (ramAddr : Addr t)
  | watch (physAddr : Addr t)
  | other

/-- The tests of `__st`. -/
def access (e : CPUTLBEntry t) (addr : Addr t) (dataSize : ℕ) : Access t :=
  if page addr = e.addrWrite &&& (pageMask t ||| tlbInvalidMask) then
    if offset e.addrWrite ≠ 0 then
      if addr.toNat % dataSize ≠ 0 then .unaligned
      else match e.iotlb with
        | .notdirty base => .notdirty (base + addr)
        | .watch base => .watch (base + addr)
        | .other => .other
    else if t.pageSize ≤ (offset addr).toNat + dataSize - 1 then .unaligned
    else .direct (addr + e.addend)
  else .miss

namespace State

variable (σ : State t Cpu Mode)

/-- `io_write`: a store of 8 bytes is two of 4. -/
def ioWrite (write : Addr t → ℕ → State t Cpu Mode → Option (State t Cpu Mode)) (a : Addr t) (shift : ℕ) :
    Option (State t Cpu Mode) :=
  if shift ≤ 2 then write a (2 ^ shift) σ else (write a 4 σ).bind (write (a + 4) 4)

/-- `__st`, for an access that is not split. -/
def st [DecidableEq Cpu] (cpu : Cpu) (mmuIdx : Mode) (addr : Addr t) (shift : ℕ) : Option (State t Cpu Mode) :=
  match access (σ.tlbTable cpu mmuIdx (tlbIndex addr)) addr (2 ^ shift) with
  | .notdirty a => σ.ioWrite (fun a len σ => σ.notdirtyMemWrite cpu addr a len) a shift
  | .watch a => σ.ioWrite (fun a len σ => σ.cpuPhysicalMemoryWrite a len) a shift
  | _ => some σ

end State

/-- What happens to the lists, the flags and the TLBs. -/
inductive Op (t : Target) (Cpu Mode : Type) where
  | alloc (maxBlocks : ℕ) (pc : Addr t) (size : ℕ) (bufferFull : Bool)
  | linkPhys (n : ℕ) (page1 : PhysPage t) (page2 : Option (PhysPage t))
  | addJump (n k next : ℕ)
  | free (n : ℕ)
  | flush
  | physInvalidate (n : ℕ)
  | invalidateRange (start stop : ℕ) (isCpuWriteAccess : Bool)
  | resetDirty (start stop : ℕ) (dirtyFlags : BitVec 8)
  | updateDirty (cpu : Cpu)
  | tlbFlush (cpu : Cpu)
  | tlbFlushPage (cpu : Cpu) (addr : Addr t)
  | setPage (cpu : Cpu) (vaddr paddr : PhysPage t) (prot : Prot) (mmuIdx : Mode) (watchpoints : List (Addr t))
  | physWrite (addr : Addr t) (len : ℕ)
  | store (cpu : Cpu) (mmuIdx : Mode) (addr : Addr t) (shift : ℕ)

def step [DecidableEq Cpu] [DecidableEq Mode] (σ : State t Cpu Mode) : Op t Cpu Mode → Option (State t Cpu Mode)
  | .alloc maxBlocks pc size bufferFull => some (σ.mapLists (·.tbAlloc maxBlocks pc size bufferFull))
  | .linkPhys n page1 page2 =>
    some (σ.tbLinkPhys n (page1.addr + offset (σ.lists.tbs n).pc) ((page2.map PhysPage.addr).getD noPage))
  | .addJump n k next => some (σ.mapLists (·.tbAddJump n k next))
  | .free n => some (σ.mapLists (·.tbFree n))
  | .flush => some σ.tbFlush
  | .physInvalidate n => σ.tbPhysInvalidate n
  | .invalidateRange start stop isCpuWriteAccess => σ.tbInvalidatePhysPageRange start stop isCpuWriteAccess
  | .resetDirty start stop dirtyFlags => some (σ.cpuPhysicalMemoryResetDirty start stop dirtyFlags)
  | .updateDirty cpu => some (σ.cpuTlbUpdateDirty cpu)
  | .tlbFlush cpu => some (σ.tlbFlush cpu)
  | .tlbFlushPage cpu addr => some (σ.tlbFlushPage cpu addr)
  | .setPage cpu vaddr paddr prot mmuIdx watchpoints =>
    some (σ.tlbSetPageExec cpu vaddr.addr paddr.addr prot mmuIdx watchpoints)
  | .physWrite addr len => σ.cpuPhysicalMemoryWrite addr len
  | .store cpu mmuIdx addr shift => σ.st cpu mmuIdx addr shift

/-- No code has been translated, all of RAM is dirty, and the TLBs are empty. -/
def State.init (physOffset : Addr t → PhysOffset t) : State t Cpu Mode where
  lists := TbLists.State.init
  hasDesc := fun _ => false
  codeBitmap := fun _ => none
  codeWriteCount := fun _ => 0
  physRamDirty := fun _ => 0xff
  physOffset := physOffset
  tlbTable := fun _ _ _ => ⟨noPage, noPage, noPage, 0, .other⟩

end Ar7Qemu.Exec.CodeProtect
