import Ar7Qemu.Mips.Cpu

/-! The R4000 memory management unit of the MIPS32 CPU: the guest TLB with the shadow
entries that `tlbwr` keeps, the soft TLB that caches its translations for each MMU mode, and
the operations that change them. The flags of soft TLB entries for the kind of memory are
left out, and so is the copy of the ASID in `CP0_TCStatus`. -/

namespace Ar7Qemu.Mips

def targetPageSize : Word := 0x1000
def targetPageMask : Word := ~~~0xfff
def tlbInvalidMask : Word := 1 <<< 3
def cpuTlbSize : ℕ := 2 ^ 8
def mipsTlbMax : ℕ := 128

/-- `address & TARGET_PAGE_MASK`. -/
def page (address : Word) : Word := address &&& targetPageMask

/-- `r4k_tlb_t`. -/
structure R4kTlb where
  vpn : Word
  pageMask : Word
  asid : BitVec 8
  g : Bool
  c0 : BitVec 3
  c1 : BitVec 3
  v0 : Bool
  v1 : Bool
  d0 : Bool
  d1 : Bool
  pfn0 : Word
  pfn1 : Word

namespace R4kTlb

variable (tlb : R4kTlb)

/-- The bits of an address in a pair of pages. 1k pages are not supported. -/
def mask : Word := tlb.pageMask ||| ~~~(targetPageMask <<< 1)

/-- Check ASID, virtual page number and size. -/
def isMatch (asid : BitVec 8) (address : Word) : Bool :=
  (tlb.g || tlb.asid == asid) && (tlb.vpn &&& ~~~tlb.mask == address &&& ~~~tlb.mask)

def odd (address : Word) : Bool := address &&& tlb.mask &&& ~~~(tlb.mask >>> 1) ≠ 0

def valid (address : Word) : Bool := if tlb.odd address then tlb.v1 else tlb.v0

def dirty (address : Word) : Bool := if tlb.odd address then tlb.d1 else tlb.d0

def physical (address : Word) : Word :=
  (if tlb.odd address then tlb.pfn1 else tlb.pfn0) ||| (address &&& tlb.mask >>> 1)

end R4kTlb

/-- An entry of `tlb_table`, with the physical page that it leads to. -/
structure SoftEntry where
  addrRead : Word
  addrWrite : Word
  addrCode : Word
  phys : Word

/-- `tlb_flush_entry`, after the test. -/
def SoftEntry.flushed (e : SoftEntry) : SoftEntry :=
  { e with addrRead := BitVec.allOnes _, addrWrite := BitVec.allOnes _, addrCode := BitVec.allOnes _ }

def SoftEntry.tlbFlushEntry (addr : Word) (e : SoftEntry) : SoftEntry :=
  let mask := targetPageMask ||| tlbInvalidMask
  if addr = e.addrRead &&& mask ∨ addr = e.addrWrite &&& mask ∨ addr = e.addrCode &&& mask then e.flushed else e

abbrev SoftTlb := Word → ℕ → SoftEntry

def tlbIndex (address : Word) : ℕ := (address >>> 12).toNat % cpuTlbSize

def tlbFlush (table : SoftTlb) : SoftTlb := fun m i => (table m i).flushed

def tlbFlushPage (addr : Word) (table : SoftTlb) : SoftTlb := fun m i =>
  if i = tlbIndex (page addr) then (table m i).tlbFlushEntry (page addr) else table m i

/-- `tlb_set_page`. What can be read can be executed. -/
def tlbSetPage (vaddr paddr : Word) (write : Bool) (mmuIdx : Word) (table : SoftTlb) : SoftTlb := fun m i =>
  if m = mmuIdx ∧ i = tlbIndex vaddr then ⟨vaddr, if write then vaddr else BitVec.allOnes _, vaddr, paddr⟩
  else table m i

/-- The loops of `r4k_invalidate_tlb`. -/
def flushWhile (test : Word → Bool) : ℕ → Word → SoftTlb → SoftTlb
  | 0, _, table => table
  | fuel + 1, addr, table =>
    if test addr then flushWhile test fuel (addr + targetPageSize) (tlbFlushPage addr table) else table

/-- What `r4k_invalidate_tlb` flushes for an entry. There are at most `mask / 4096` pages in
each half. -/
def flushPages (tlb : R4kTlb) (table : SoftTlb) : SoftTlb :=
  let fuel := tlb.mask.toNat / 4096 + 1
  let table :=
    if tlb.v0 then
      let addr := tlb.vpn &&& ~~~tlb.mask
      let stop := addr ||| tlb.mask >>> 1
      flushWhile (fun addr => decide (addr < stop)) fuel addr table
    else table
  if tlb.v1 then
    let addr := tlb.vpn &&& ~~~tlb.mask ||| (tlb.mask >>> 1) + 1
    let stop := addr ||| tlb.mask
    flushWhile (fun addr => decide (addr - 1 < stop)) fuel addr table
  else table

structure MmuState where
  cpu : CPUState
  cp0Index : Word
  cp0EntryHi : Word
  cp0EntryLo0 : Word
  cp0EntryLo1 : Word
  cp0PageMask : Word
  cp0Wired : ℕ
  cp0Context : Word
  exceptionIndex : Option Excp
  nbTlb : ℕ
  tlbInUse : ℕ
  tlb : ℕ → R4kTlb
  tlbTable : SoftTlb
  /-- A page of the shadow entry has been written to the TLB since. No code depends on it. -/
  superseded : ℕ → Bool
  /-- The entry that the last operation has written. No code depends on it. -/
  lastWrite : Option ℕ

/-- The result of `get_physical_address`: the address and `PAGE_WRITE` of `prot`. -/
inductive TlbRet where
  | match (physical : Word) (write : Bool)
  | badaddr
  | nomatch
  | invalid
  | dirty

inductive Segment where
  | useg | kseg0 | kseg1 | sseg | kseg3
  deriving DecidableEq

def segment (address : Word) : Segment :=
  if address ≤ 0x7fffffff then .useg
  else if address < 0xa0000000 then .kseg0
  else if address < 0xc0000000 then .kseg1
  else if address < 0xe0000000 then .sseg
  else .kseg3

namespace MmuState

variable (σ : MmuState)

/-- `CP0_EntryHi & 0xFF`. -/
def asid : BitVec 8 := σ.cp0EntryHi.setWidth 8

def erl : Bool := σ.cpu.cp0Status.getLsbD stERL

/-- `cpu_mmu_index`. -/
def mmuIndex : Word := σ.cpu.hflags &&& hflagKSU

/-! ### Translation -/

def r4kMapAddress (address : Word) (rw : Bool) : TlbRet :=
  match (List.range σ.tlbInUse).find? fun i => (σ.tlb i).isMatch σ.asid address with
  | none => .nomatch
  | some i =>
    let tlb := σ.tlb i
    if tlb.valid address = false then .invalid
    else if rw = false ∨ tlb.dirty address = true then .match (tlb.physical address) (tlb.dirty address)
    else .dirty

def getPhysicalAddress (address : Word) (rw : Bool) : TlbRet :=
  let mode := σ.cpu.hflags &&& (hflagDM ||| hflagKSU)
  let userMode := mode = 2
  let supervisorMode := mode = 1
  let kernelMode := ¬ userMode ∧ ¬ supervisorMode
  match segment address with
  | .useg => if σ.erl then .match address rw else σ.r4kMapAddress address rw
  | .kseg0 => if kernelMode then .match (address - 0x80000000) rw else .badaddr
  | .kseg1 => if kernelMode then .match (address - 0xa0000000) rw else .badaddr
  | .sseg => if supervisorMode ∨ kernelMode then σ.r4kMapAddress address rw else .badaddr
  | .kseg3 => if kernelMode then σ.r4kMapAddress address rw else .badaddr

/-- The exception of `cpu_mips_handle_mmu_fault`, with its error code. -/
def raise (address : Word) (exception : Excp) (errorCode : Word) : MmuState :=
  { σ with
    cpu := { σ.cpu with cp0BadVAddr := address, errorCode := errorCode }
    cp0Context := (σ.cp0Context &&& ~~~(0x007fffff : Word)) ||| (address >>> 9 &&& 0x007ffff0)
    cp0EntryHi := (σ.cp0EntryHi &&& 0xff) ||| (address &&& targetPageMask <<< 1)
    exceptionIndex := some exception }

def cpuMipsHandleMmuFault (address : Word) (rw : Bool) : MmuState :=
  match σ.getPhysicalAddress address rw with
  | .match physical write =>
    { σ with tlbTable := tlbSetPage (page address) (page physical) write σ.mmuIndex σ.tlbTable }
  | .badaddr => σ.raise address (if rw then .ades else .adel) 0
  | .nomatch => σ.raise address (if rw then .tlbs else .tlbl) 1
  | .invalid => σ.raise address (if rw then .tlbs else .tlbl) 0
  | .dirty => σ.raise address .ltlbl 0

/-! ### TLB management -/

def cpuMipsTlbFlush : MmuState := { σ with tlbTable := tlbFlush σ.tlbTable, tlbInUse := σ.nbTlb }

def r4kInvalidateTlb (idx : ℕ) (useExtra : Bool) : MmuState :=
  let tlb := σ.tlb idx
  -- the soft TLB is flushed when the ASID changes
  if tlb.g = false ∧ tlb.asid ≠ σ.asid then σ
  else if useExtra ∧ σ.tlbInUse < mipsTlbMax then
    { σ with
      tlb := Function.update σ.tlb σ.tlbInUse tlb
      superseded := Function.update σ.superseded σ.tlbInUse false
      tlbInUse := σ.tlbInUse + 1 }
  else { σ with tlbTable := flushPages tlb σ.tlbTable }

/-- The loop of `r4k_mips_tlb_flush_extra`, for a number of entries. -/
def flushExtra : ℕ → MmuState → MmuState
  | 0, σ => σ
  | n + 1, σ => flushExtra n ({ σ with tlbInUse := σ.tlbInUse - 1 }.r4kInvalidateTlb (σ.tlbInUse - 1) false)

def r4kMipsTlbFlushExtra (first : ℕ) : MmuState := flushExtra (σ.tlbInUse - first) σ

/-- The entry that `r4k_fill_tlb` writes. -/
def newEntry : R4kTlb where
  vpn := σ.cp0EntryHi &&& targetPageMask <<< 1
  asid := σ.asid
  pageMask := σ.cp0PageMask
  g := (σ.cp0EntryLo0 &&& σ.cp0EntryLo1).getLsbD 0
  v0 := σ.cp0EntryLo0.getLsbD 1
  d0 := σ.cp0EntryLo0.getLsbD 2
  c0 := (σ.cp0EntryLo0 >>> 3).setWidth 3
  pfn0 := σ.cp0EntryLo0 >>> 6 <<< 12
  v1 := σ.cp0EntryLo1.getLsbD 1
  d1 := σ.cp0EntryLo1.getLsbD 2
  c1 := (σ.cp0EntryLo1 >>> 3).setWidth 3
  pfn1 := σ.cp0EntryLo1 >>> 6 <<< 12

end MmuState

/-- Some address is in both entries, for some ASID. -/
def R4kTlb.Overlaps (tlb tlb' : R4kTlb) : Prop :=
  (tlb.g = true ∨ tlb'.g = true ∨ tlb.asid = tlb'.asid) ∧
    tlb.vpn &&& ~~~(tlb.mask ||| tlb'.mask) = tlb'.vpn &&& ~~~(tlb.mask ||| tlb'.mask)

instance (tlb tlb' : R4kTlb) : Decidable (tlb.Overlaps tlb') := inferInstanceAs (Decidable (_ ∧ _))

namespace MmuState

variable (σ : MmuState)

def r4kFillTlb (idx : ℕ) : MmuState :=
  { σ with
    tlb := Function.update σ.tlb idx σ.newEntry
    superseded := fun i => σ.superseded i || decide ((σ.tlb i).Overlaps σ.newEntry) }

/-- The entry that `CP0_Index` names. -/
def indexed : ℕ := (σ.cp0Index &&& ~~~0x80000000).toNat % σ.nbTlb

def r4kHelperTlbwi : MmuState :=
  ((σ.r4kMipsTlbFlushExtra σ.nbTlb).r4kInvalidateTlb σ.indexed false).r4kFillTlb σ.indexed

/-- `cpu_mips_get_random`, by the value of its shift register. -/
def cpuMipsGetRandom (lfsr : ℕ) : ℕ := lfsr % (σ.nbTlb - σ.cp0Wired) + σ.cp0Wired

def r4kHelperTlbwr (lfsr : ℕ) : MmuState :=
  let r := σ.cpuMipsGetRandom lfsr
  (σ.r4kInvalidateTlb r true).r4kFillTlb r

def r4kHelperTlbp : MmuState :=
  let hit := fun i => (σ.tlb i).isMatch σ.asid σ.cp0EntryHi
  match (List.range σ.nbTlb).find? hit with
  | some i => { σ with cp0Index := BitVec.ofNat _ i }
  | none =>
    let τ :=
      match (List.range' σ.nbTlb (σ.tlbInUse - σ.nbTlb)).find? hit with
      | some i => σ.r4kMipsTlbFlushExtra i
      | none => σ
    { τ with cp0Index := σ.cp0Index ||| 0x80000000 }

def loBit (b : Bool) (n : ℕ) : Word := if b then bit n else 0

def r4kHelperTlbr : MmuState :=
  let tlb := σ.tlb σ.indexed
  let τ := if σ.asid ≠ tlb.asid then σ.cpuMipsTlbFlush else σ
  let τ := τ.r4kMipsTlbFlushExtra σ.nbTlb
  { τ with
    cp0EntryHi := tlb.vpn ||| tlb.asid.setWidth 32
    cp0PageMask := tlb.pageMask
    cp0EntryLo0 := loBit tlb.g 0 ||| loBit tlb.v0 1 ||| loBit tlb.d0 2 ||| tlb.c0.setWidth 32 <<< 3 ||| tlb.pfn0 >>> 6
    cp0EntryLo1 := loBit tlb.g 0 ||| loBit tlb.v1 1 ||| loBit tlb.d1 2 ||| tlb.c1.setWidth 32 <<< 3 ||| tlb.pfn1 >>> 6 }

/-! ### Registers -/

def helperMtc0Index (arg1 : Word) : MmuState :=
  let num := BitVec.ofNat 32 (2 ^ (Nat.log2 σ.nbTlb + 1))
  { σ with cp0Index := (σ.cp0Index &&& 0x80000000) ||| (arg1 &&& (num - 1)) }

def helperMtc0EntryLo0 (arg1 : Word) : MmuState := { σ with cp0EntryLo0 := arg1 &&& 0x3fffffff }

def helperMtc0EntryLo1 (arg1 : Word) : MmuState := { σ with cp0EntryLo1 := arg1 &&& 0x3fffffff }

def helperMtc0PageMask (arg1 : Word) : MmuState :=
  { σ with cp0PageMask := arg1 &&& (0x1fffffff &&& targetPageMask <<< 1) }

def helperMtc0Wired (arg1 : Word) : MmuState := { σ with cp0Wired := arg1.toNat % σ.nbTlb }

def helperMtc0EntryHi (arg1 : Word) : MmuState :=
  let val := arg1 &&& (targetPageMask <<< 1 ||| 0xff)
  let τ := { σ with cp0EntryHi := val }
  -- if the ASID changes, flush the soft TLB
  if σ.asid ≠ τ.asid then τ.cpuMipsTlbFlush else τ

/-- `cpu_reset`, with a new TLB. -/
def reset : MmuState :=
  { σ with
    cpu := cpuReset σ.cpu
    cp0Index := 0
    cp0EntryHi := 0
    cp0EntryLo0 := 0
    cp0EntryLo1 := 0
    cp0PageMask := 0
    cp0Wired := 0
    cp0Context := 0
    exceptionIndex := none
    tlbInUse := σ.nbTlb
    tlb := fun _ => ⟨0, 0, 0, false, 0, 0, false, false, false, false, 0, 0⟩
    tlbTable := tlbFlush σ.tlbTable }

def doInterrupt (e : Excp) : MmuState :=
  if e = .reset then σ.reset else { σ with cpu := Mips.doInterrupt e σ.cpu, exceptionIndex := none }

end MmuState

/-- What happens to the MMU. -/
inductive MmuOp where
  | tlbwi
  | tlbwr (lfsr : ℕ)
  | tlbp
  | tlbr
  | mtc0Index (arg1 : Word)
  | mtc0EntryLo0 (arg1 : Word)
  | mtc0EntryLo1 (arg1 : Word)
  | mtc0PageMask (arg1 : Word)
  | mtc0Wired (arg1 : Word)
  | mtc0EntryHi (arg1 : Word)
  | mtc0Status (arg1 : Word)
  | exception (e : Excp)
  | eret
  | fill (address : Word) (rw : Bool)

namespace MmuState

variable (σ : MmuState)

def act : MmuOp → MmuState
  | .tlbwi => σ.r4kHelperTlbwi
  | .tlbwr lfsr => σ.r4kHelperTlbwr lfsr
  | .tlbp => σ.r4kHelperTlbp
  | .tlbr => σ.r4kHelperTlbr
  | .mtc0Index arg1 => σ.helperMtc0Index arg1
  | .mtc0EntryLo0 arg1 => σ.helperMtc0EntryLo0 arg1
  | .mtc0EntryLo1 arg1 => σ.helperMtc0EntryLo1 arg1
  | .mtc0PageMask arg1 => σ.helperMtc0PageMask arg1
  | .mtc0Wired arg1 => σ.helperMtc0Wired arg1
  | .mtc0EntryHi arg1 => σ.helperMtc0EntryHi arg1
  | .mtc0Status arg1 => { σ with cpu := helperMtc0Status arg1 σ.cpu }
  | .exception e => σ.doInterrupt e
  | .eret => { σ with cpu := helperEret σ.cpu }
  | .fill address rw => σ.cpuMipsHandleMmuFault address rw

def written : MmuOp → Option ℕ
  | .tlbwi => some σ.indexed
  | .tlbwr lfsr => some (σ.cpuMipsGetRandom lfsr)
  | _ => none

def step (op : MmuOp) : MmuState := { σ.act op with lastWrite := σ.written op }

end MmuState

/-- `CP0C1_MMU`. -/
def config1MMU : ℕ := 25

/-- The CPU at power on, with the size of its TLB from `CP0_Config1`. -/
def MmuState.powerOn (env : CPUState) (config1 : Word) : MmuState where
  cpu := cpuReset env
  cp0Index := 0
  cp0EntryHi := 0
  cp0EntryLo0 := 0
  cp0EntryLo1 := 0
  cp0PageMask := 0
  cp0Wired := 0
  cp0Context := 0
  exceptionIndex := none
  nbTlb := 1 + (config1 >>> config1MMU &&& (63 : Word)).toNat
  tlbInUse := 1 + (config1 >>> config1MMU &&& (63 : Word)).toNat
  tlb := fun _ => ⟨0, 0, 0, false, 0, 0, false, false, false, false, 0, 0⟩
  tlbTable := fun _ _ => ⟨BitVec.allOnes _, BitVec.allOnes _, BitVec.allOnes _, 0⟩
  superseded := fun _ => false
  lastWrite := none

end Ar7Qemu.Mips
