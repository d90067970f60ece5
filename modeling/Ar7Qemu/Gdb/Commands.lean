import Ar7Qemu.Gdb.Packet
import Ar7Qemu.Lib.CString

/-! The commands of the GDB stub. A command is a text that ends with a zero byte, and its handler works in
two arrays of `MAX_PACKET_LENGTH` bytes and in `last_packet`. A read behind the end of the text, and a
write outside of an array, is a fault. -/

namespace Ar7Qemu.Gdb

open Lib CString

def targetPageSize : ℕ := 4096

/-- A command line: the bytes before its terminating zero. -/
structure Line where
  text : List UInt8
  noNul : 0 ∉ text
  short : text.length < maxPacketLength

/-- The machine behind the stub, with the functions that commands call. The number of CPUs is an `int`. The
registers of a `g` packet are at most 127 with at most 16 bytes each. What is read from memory does not
change the map of the pages. -/
structure Target (σ : Type) where
  smpCpus : ℕ
  halted : σ → ℕ → Bool
  numGRegs : ℕ
  readRegister : σ → ℕ → ℤ → List UInt8
  writeRegister : σ → ℕ → List UInt8 → ℤ → ℕ × σ
  physPage : σ → ℕ → BitVec 32 → Option ℕ
  physRead : σ → ℕ → ℕ → Bytes × σ
  physWrite : σ → ℕ → List UInt8 → σ
  setPc : σ → ℕ → BitVec 32 → σ
  vmStart : σ → σ
  singleStep : σ → ℕ → BitVec 32 → σ
  syscall : σ → ℕ → BitVec 32 → BitVec 32 → σ
  breakpointInsert : σ → BitVec 32 → BitVec 32 → ℤ → ℤ × σ
  breakpointRemove : σ → BitVec 32 → BitVec 32 → ℤ → ℤ × σ
  breakpointRemoveAll : σ → σ
  monitor : σ → List UInt8 → σ
  featureXml : Option (List UInt8 → Option (List UInt8))
  smpCpus_lt : smpCpus < 2 ^ 31
  numGRegs_le : numGRegs ≤ 127
  readRegister_le : ∀ s cpu reg, (readRegister s cpu reg).length ≤ 16
  physPage_read : ∀ s phys len cpu page, physPage (physRead s phys len).2 cpu page = physPage s cpu page

/-- The part of `GDBState` that commands use, the flags of the stub, and the packets that have been
put. -/
structure Stub (σ : Type) where
  cCpu : ℕ
  gCpu : ℕ
  queryCpu : Option ℕ
  sstepFlags : BitVec 32
  hasXml : Bool
  exited : Bool
  sent : List (List UInt8)
  world : σ

/-! ### Texts and buffers -/

/-- `line[i]`. -/
def peek (line : List UInt8) (i : ℕ) : Option UInt8 := if i ≤ line.length then some (line.getD i 0) else none

/-- `if (*p == c) p++;`. -/
def skip (line : List UInt8) (c : UInt8) (p : ℕ) : Option ℕ := (peek line p).map fun x => if x = c then p + 1 else p

/-- `strtoull(p, &p, 16)`, and `strtoul`, which is the same on the host. -/
def number (line : List UInt8) (p : ℕ) : Option (ℕ × ℕ) :=
  if p ≤ line.length then some ((strtoull (line.drop p)).1, p + (strtoull (line.drop p)).2) else none

/-- A conversion to `int`. -/
def toInt (n : ℕ) : ℤ := (BitVec.ofNat 32 n).toInt

def store (mem : List UInt8) (v : UInt8) : Option (List UInt8) :=
  if mem.length < maxPacketLength then some (mem ++ [v]) else none

/-- The loop of `hextomem`. -/
def hextomem (line : List UInt8) : ℕ → ℕ → List UInt8 → Option (List UInt8)
  | 0, _, mem => some mem
  | count + 1, p, mem => do
    let hi ← peek line p
    let lo ← peek line (p + 1)
    let mem ← store mem (UInt8.ofNat (fromhex hi <<< 4 ||| fromhex lo))
    hextomem line count (p + 2) mem

/-- `memtohex` into `buf`, with a zero behind the digits. -/
def memtohex (mem : List UInt8) : Option (List UInt8) :=
  if 2 * mem.length + 1 ≤ maxPacketLength then
    some (mem.flatMap fun c => [tohex (c.toNat >>> 4), tohex (c.toNat &&& 0xf)])
  else none

/-- `snprintf(buf, sizeof(buf), ..)`. -/
def snprintf (text : List UInt8) : List UInt8 := text.take (maxPacketLength - 1)

section

variable {σ : Type} (m : Target σ)

/-- `put_packet`. The packet is built in `last_packet`. -/
def putPacket (s : Stub σ) (buf : List UInt8) : Option (Stub σ) :=
  if (packetBytes buf).length ≤ maxPacketLength + 4 then some { s with sent := s.sent ++ [packetBytes buf] } else none

/-- `put_packet` of `memtohex`. -/
def putHex (s : Stub σ) (mem : List UInt8) : Option (Stub σ) := (memtohex mem).bind (putPacket s)

/-! ### Memory and registers -/

/-- `addr & TARGET_PAGE_MASK`. -/
def pageOf (addr : BitVec 32) : BitVec 32 := addr - BitVec.ofNat 32 (addr.toNat % targetPageSize)

/-- One part of `cpu_memory_rw_debug`, within a page: a read into `mem_buf` or a write out of it. -/
def accessDebug (isWrite : Bool) (phys l off : ℕ) (s : σ × List UInt8) : Option (σ × List UInt8) :=
  if isWrite then some (m.physWrite s.1 phys ((s.2.drop off).take l), s.2)
  else if off + l ≤ maxPacketLength then
    let (data, world) := m.physRead s.1 phys l
    some (world, s.2 ++ (List.range l).map data)
  else none

/-- `cpu_memory_rw_debug`, page by page. -/
def cpuMemoryRwDebug (isWrite : Bool) (cpu : ℕ) (addr : BitVec 32) (len off : ℕ) (s : σ × List UInt8) :
    Option (Bool × σ × List UInt8) :=
  if len = 0 then some (true, s)
  else
    let inPage := addr.toNat % targetPageSize
    match m.physPage s.1 cpu (pageOf addr) with
    | none => some (false, s)
    | some phys =>
      let l := min (targetPageSize - inPage) len
      (accessDebug m isWrite (phys + inPage) l off s).bind
        (cpuMemoryRwDebug isWrite cpu (addr + BitVec.ofNat 32 l) (len - l) (off + l))
termination_by len
decreasing_by
  have hpage : addr.toNat % targetPageSize < targetPageSize := Nat.mod_lt _ (by decide)
  omega

/-- The loop of the `g` packet. -/
def readRegisters (s : Stub σ) : Option (List UInt8) :=
  (List.range m.numGRegs).foldlM (fun mem (reg : ℕ) =>
    let value := m.readRegister s.world s.gCpu reg
    if mem.length + value.length ≤ maxPacketLength then some (mem ++ value) else none) []

/-- The loop of the `G` packet. The length is a word and may pass zero. -/
def writeRegisters (cpu : ℕ) : List ℕ → BitVec 32 → List UInt8 → σ → σ
  | [], _, _, world => world
  | reg :: regs, len, registers, world =>
    if len = 0 then world
    else
      let (size, world) := m.writeRegister world cpu registers reg
      writeRegisters cpu regs (len - BitVec.ofNat 32 size) (registers.drop size) world

/-! ### The commands -/

/-- The commands `c` and `s`, before the machine goes on. -/
def handlePc (s : Stub σ) (line : List UInt8) : Option (Stub σ) := do
  let c ← peek line 1
  if c = 0 then return s
  let (addr, _) ← number line 1
  return { s with world := m.setPc s.world s.cCpu (BitVec.ofNat 32 addr) }

/-- The answer to a system call. -/
def handleSyscall (s : Stub σ) (line : List UInt8) : Option (Stub σ) := do
  let (ret, p) ← number line 1
  let c ← peek line p
  let (err, p) ← if c = chr ',' then number line (p + 1) else some (0, p)
  let p ← skip line (chr ',') p
  let type ← peek line p
  let s := { s with world := m.syscall s.world s.cCpu (BitVec.ofNat 32 ret) (BitVec.ofNat 32 err) }
  if type = chr 'C' then putPacket s (ascii "T02")
  else return { s with world := m.vmStart s.world }

def handleReadMemory (s : Stub σ) (line : List UInt8) : Option (Stub σ) := do
  let (addr, p) ← number line 1
  let p ← skip line (chr ',') p
  let (len, _) ← number line p
  let (ok, world, mem) ← cpuMemoryRwDebug m false s.gCpu (BitVec.ofNat 32 addr) (toInt len).toNat 0 (s.world, [])
  let s := { s with world := world }
  if ok then putHex s mem else putPacket s (ascii "E14")

def handleWriteMemory (s : Stub σ) (line : List UInt8) : Option (Stub σ) := do
  let (addr, p) ← number line 1
  let p ← skip line (chr ',') p
  let (len, p) ← number line p
  let p ← skip line (chr ':') p
  let mem ← hextomem line (toInt len).toNat p []
  let (ok, world, _) ← cpuMemoryRwDebug m true s.gCpu (BitVec.ofNat 32 addr) (toInt len).toNat 0 (s.world, mem)
  putPacket { s with world := world } (ascii (if ok then "OK" else "E14"))

def unknownCommand (s : Stub σ) : Option (Stub σ) := putPacket s []

def handleReadRegister (s : Stub σ) (line : List UInt8) : Option (Stub σ) := do
  if ¬ s.hasXml then unknownCommand s
  else
    let (reg, _) ← number line 1
    let value := m.readRegister s.world s.gCpu (toInt reg)
    if value ≠ [] then putHex s value else putPacket s (ascii "E14")

def handleWriteRegister (s : Stub σ) (line : List UInt8) : Option (Stub σ) := do
  if ¬ s.hasXml then unknownCommand s
  else
    let (reg, p) ← number line 1
    let p ← skip line (chr '=') p
    let mem ← hextomem line ((line.length - p) / 2) p []
    let (_, world) := m.writeRegister s.world s.gCpu mem (toInt reg)
    putPacket { s with world := world } (ascii "OK")

def handleBreakpoint (s : Stub σ) (insert : Bool) (line : List UInt8) : Option (Stub σ) := do
  let (type, p) ← number line 1
  let p ← skip line (chr ',') p
  let (addr, p) ← number line p
  let p ← skip line (chr ',') p
  let (len, _) ← number line p
  let set := if insert then m.breakpointInsert else m.breakpointRemove
  let (res, world) := set s.world (BitVec.ofNat 32 addr) (BitVec.ofNat 32 len) (toInt type)
  putPacket { s with world := world } (if 0 ≤ res then ascii "OK" else if res = -38 then [] else ascii "E22")

def cpuOfThread (thread : ℤ) : Option ℕ := (List.range m.smpCpus).find? fun cpu => (cpu : ℤ) + 1 = thread

def handleThread (s : Stub σ) (line : List UInt8) : Option (Stub σ) := do
  let type ← peek line 1
  let (thread, _) ← number line 2
  if toInt thread = -1 ∨ toInt thread = 0 then putPacket s (ascii "OK")
  else
    match cpuOfThread m (toInt thread) with
    | none => putPacket s (ascii "E22")
    | some cpu =>
      if type = chr 'c' then putPacket { s with cCpu := cpu } (ascii "OK")
      else if type = chr 'g' then putPacket { s with gCpu := cpu } (ascii "OK")
      else putPacket s (ascii "E22")

def handleAlive (s : Stub σ) (line : List UInt8) : Option (Stub σ) := do
  let (thread, _) ← number line 1
  putPacket s (ascii (if 0 < toInt thread ∧ toInt thread < m.smpCpus + 1 then "OK" else "E22"))

def handleReadRegisters (s : Stub σ) : Option (Stub σ) := (readRegisters m s).bind (putHex s)

def handleWriteRegisters (s : Stub σ) (line : List UInt8) : Option (Stub σ) := do
  let len := (line.length - 1) / 2
  let mem ← hextomem line len 1 []
  let world := writeRegisters m s.gCpu (List.range m.numGRegs) (BitVec.ofNat 32 len) mem s.world
  putPacket { s with world := world } (ascii "OK")

/-! ### Queries -/

/-- The setting of single steps. -/
def handleSstep (s : Stub σ) (line : List UInt8) : Option (Stub σ) := do
  let c ← peek line 11
  if c ≠ chr '=' then putPacket s (snprintf (ascii "0x" ++ hexText s.sstepFlags.toNat))
  else
    let (type, _) ← number line 12
    putPacket { s with sstepFlags := BitVec.ofNat 32 type } (ascii "OK")

def reportCpuinfo (s : Stub σ) : Option (Stub σ) :=
  match s.queryCpu with
  | none => putPacket s (ascii "l")
  | some cpu => (putPacket s (snprintf (chr 'm' :: hexText (cpu + 1)))).map fun s =>
      { s with queryCpu := if cpu + 1 < m.smpCpus then some (cpu + 1) else none }

/-- The state of a thread, as `snprintf` leaves it in `mem_buf`. -/
def handleThreadInfo (s : Stub σ) (line : List UInt8) : Option (Stub σ) := do
  let (thread, _) ← number line 17
  match cpuOfThread m (toInt thread) with
  | none => return s
  | some cpu =>
    putHex s (ascii "CPU#" ++ decimal cpu ++ ascii (if m.halted s.world cpu then " [halted ]" else " [running]"))

/-- A command for the monitor. -/
def handleRcmd (s : Stub σ) (line : List UInt8) : Option (Stub σ) := do
  let len := line.length - 6
  if len % 2 ≠ 0 then putPacket s (ascii "E01")
  else
    let mem ← hextomem line len 6 []
    let mem ← store (mem.take (len / 2)) 0
    putPacket { s with world := m.monitor s.world mem } (ascii "OK")

def memtox (mem : List UInt8) : List UInt8 :=
  mem.flatMap fun c => if c = hash ∨ c = dollar ∨ c = chr '*' ∨ c = chr '}' then [chr '}', c ^^^ 0x20] else [c]

/-- A part of a description of the registers. -/
def handleXfer (xml : List UInt8 → Option (List UInt8)) (s : Stub σ) (line : List UInt8) : Option (Stub σ) := do
  let s := { s with hasXml := true }
  let name := (line.drop 20).takeWhile (· ≠ chr ':')
  match xml name with
  | none => putPacket s (ascii "E00")
  | some xml =>
    let p ← skip line (chr ':') (20 + name.length)
    let (addr, p) ← number line p
    let p ← skip line (chr ',') p
    let (len, _) ← number line p
    let addr := addr % 2 ^ 32
    let len := min (len % 2 ^ 32) ((maxPacketLength - 5) / 2)
    if xml.length < addr then putPacket s (ascii "E00")
    else
      let whole := xml.length - addr ≤ len
      let text := (if whole then chr 'l' else chr 'm') :: memtox ((xml.drop addr).take len)
      if text.length ≤ maxPacketLength then putPacket s text else none

def handleSupported (s : Stub σ) : Option (Stub σ) :=
  putPacket s (snprintf (ascii "PacketSize=1000" ++ if m.featureXml.isSome then ascii ";qXfer:features:read+" else []))

/-- The commands `q` and `Q`. -/
def handleQuery (s : Stub σ) (line : List UInt8) : Option (Stub σ) :=
  let p := line.drop 1
  if p = ascii "qemu.sstepbits" then putPacket s (snprintf (ascii "ENABLE=1,NOIRQ=2,NOTIMER=4"))
  else if ascii "qemu.sstep" <+: p then handleSstep s line
  else if p = ascii "C" then putPacket s (ascii "QC1")
  else if p = ascii "fThreadInfo" then
    reportCpuinfo m { s with queryCpu := if 0 < m.smpCpus then some 0 else none }
  else if p = ascii "sThreadInfo" then reportCpuinfo m s
  else if ascii "ThreadExtraInfo," <+: p then handleThreadInfo m s line
  else if ascii "Rcmd," <+: p then handleRcmd m s line
  else if ascii "Supported" <+: p then handleSupported m s
  else
    match m.featureXml with
    | none => unknownCommand s
    | some xml => if ascii "Xfer:features:read:" <+: p then handleXfer xml s line else unknownCommand s

def gdbHandlePacket (s : Stub σ) (line : List UInt8) : Option (Stub σ) := do
  let ch ← peek line 0
  if ch = chr '?' then
    let s ← putPacket s (snprintf (ascii "T05thread:" ++ hexText2 (s.cCpu + 1) ++ ascii ";"))
    return { s with world := m.breakpointRemoveAll s.world }
  else if ch = chr 'c' then
    let s ← handlePc m s line
    return { s with world := m.vmStart s.world }
  else if ch = chr 'C' then
    let _ ← number line 1
    return { s with world := m.vmStart s.world }
  else if ch = chr 'k' then return { s with exited := true }
  else if ch = chr 'D' then putPacket { s with world := m.vmStart (m.breakpointRemoveAll s.world) } (ascii "OK")
  else if ch = chr 's' then
    let s ← handlePc m s line
    return { s with world := m.vmStart (m.singleStep s.world s.cCpu s.sstepFlags) }
  else if ch = chr 'F' then handleSyscall m s line
  else if ch = chr 'g' then handleReadRegisters m s
  else if ch = chr 'G' then handleWriteRegisters m s line
  else if ch = chr 'm' then handleReadMemory m s line
  else if ch = chr 'M' then handleWriteMemory m s line
  else if ch = chr 'p' then handleReadRegister m s line
  else if ch = chr 'P' then handleWriteRegister m s line
  else if ch = chr 'Z' then handleBreakpoint m s true line
  else if ch = chr 'z' then handleBreakpoint m s false line
  else if ch = chr 'H' then handleThread m s line
  else if ch = chr 'T' then handleAlive m s line
  else if ch = chr 'q' ∨ ch = chr 'Q' then handleQuery m s line
  else unknownCommand s

end

end Ar7Qemu.Gdb
