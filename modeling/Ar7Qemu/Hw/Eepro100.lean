import Ar7Qemu.Lib.GuestMem
import Ar7Qemu.Hw.Eeprom93xx

/-! The EEPRO100 network card: its register file, the interrupt line, the command unit with
its list of command blocks in guest memory, and the reception of a frame. The host is
little-endian and the addresses that the card reads and writes are guest RAM. -/

namespace Ar7Qemu.Hw.Eepro100

open Lib

abbrev Byte := BitVec 8
abbrev Word := BitVec 32

def scbStatus : ℕ := 0
def scbAck : ℕ := 1
def scbCmd : ℕ := 2
def scbIntmask : ℕ := 3
def scbPointer : ℕ := 4
def scbPort : ℕ := 8
def scbFlash : ℕ := 12
def scbEeprom : ℕ := 14
def scbCtrlMDI : ℕ := 16
def scbPmdr : ℕ := 27
def scbGstat : ℕ := 29

def pciMemSize : ℕ := 4096
def maxEthFrameSize : ℕ := 1514
def eepromSize : ℕ := 64

/-- The variants of the controller. -/
inductive Device where
  | i82551 | i82557A | i82557B | i82557C | i82558B | i82559C | i82559ER | i82562
  deriving DecidableEq

def Device.code : Device → ℕ
  | i82551 => 0x82551
  | i82557A => 0x82557a
  | i82557B => 0x82557b
  | i82557C => 0x82557c
  | i82558B => 0x82558b
  | i82559C => 0x82559c
  | i82559ER => 0x82559e
  | i82562 => 0x82562

/-- `cu_state_t`. -/
inductive CuState where
  | idle | suspended | active | hqpActive
  deriving DecidableEq

def CuState.code : CuState → Byte
  | idle => 0
  | suspended => 1
  | active => 2
  | hqpActive => 3

/-- `ru_state_t`. -/
inductive RuState where
  | idle | suspended | noResources | ready
  deriving DecidableEq

def RuState.code : RuState → Byte
  | idle => 0
  | suspended => 1
  | noResources => 2
  | ready => 4

/-- A command block, `eepro100_tx_t`. -/
structure Tcb where
  status : BitVec 16
  command : BitVec 16
  link : Word
  tbdArrayAddr : Word
  tcbBytes : BitVec 16
  txThreshold : Byte
  tbdCount : Byte

def commandEl : BitVec 16 := 0x8000
def commandS : BitVec 16 := 0x4000
def commandI : BitVec 16 := 0x2000
def commandNc : BitVec 16 := 0x0010
def commandSf : BitVec 16 := 0x0008
def commandCmd : BitVec 16 := 0x0007
def statusC : BitVec 16 := 0x8000
def statusOk : BitVec 16 := 0x2000

/-- The counters of `eepro100_stats_t` that the card counts; the others stay zero. -/
structure Statistics where
  txGoodFrames : Word
  rxGoodFrames : Word
  rxResourceErrors : Word
  rxShortFrameErrors : Word

/-- The first 64 bytes of `eepro100_stats_t`. -/
def Statistics.bytes (t : Statistics) : List Byte :=
  (List.range 16).flatMap fun i => GuestMem.bytes32
    (if i = 0 then t.txGoodFrames else if i = 9 then t.rxGoodFrames
      else if i = 12 then t.rxResourceErrors else if i = 15 then t.rxShortFrameErrors else 0)

/-- The card with the guest memory it reaches, the level of its PCI interrupt line and the
frames it has sent. `vendorId` and `deviceId` are words of its PCI configuration space,
`bigEndian` is the byte order of the emulated target. -/
structure Nic where
  mult : ℕ → Byte
  scbStat : Byte
  intStat : Bool
  irq : Bool
  macaddr : List Byte
  mdimem : ℕ → BitVec 16
  eeprom : Eeprom
  device : Device
  vendorId : BitVec 16
  deviceId : BitVec 16
  pointer : Word
  cuBase : Word
  cuOffset : Word
  ruBase : Word
  ruOffset : Word
  statsaddr : Word
  cuState : CuState
  ruState : RuState
  tx : Tcb
  cbAddress : Word
  statistics : Statistics
  configuration : ℕ → Byte
  mem : ℕ → Byte
  guest : GuestMem
  sent : List (List Byte)
  bigEndian : Bool

/-- An assertion that fails, a byte written behind the frame buffer, or a loop that is
still going when the fuel is used up. -/
inductive Fault where
  | assertion | overflow | fuel
  deriving DecidableEq

theorem bind_ok {α β : Type} {x : Except Fault α} {f : α → Except Fault β} {b : β} (h : x >>= f = .ok b) :
    ∃ a, x = .ok a ∧ f a = .ok b := by
  cases x with
  | error e => cases h
  | ok a => exact ⟨a, rfl, h⟩

/-- A copy into the register file. -/
def store (mem : ℕ → Byte) (addr : ℕ) (bs : List Byte) : ℕ → Byte :=
  fun x => if addr ≤ x ∧ x < addr + bs.length then bs.getD (x - addr) 0 else mem x

/-- The little-endian words of the register file. -/
def load16 (mem : ℕ → Byte) (addr : ℕ) : BitVec 16 := mem (addr + 1) ++ mem addr

def load32 (mem : ℕ → Byte) (addr : ℕ) : Word :=
  mem (addr + 3) ++ mem (addr + 2) ++ mem (addr + 1) ++ mem addr

/-! ### Interrupts -/

def disableInterrupt (s : Nic) : Nic :=
  if s.intStat then { s with irq := false, intStat := false } else s

def enableInterrupt (s : Nic) : Nic :=
  if s.intStat then s else { s with irq := true, intStat := true }

def eepro100Acknowledge (s : Nic) : Nic :=
  let scbStat := s.scbStat &&& ~~~s.mem scbAck
  let s := { s with scbStat := scbStat, mem := Function.update s.mem scbAck scbStat }
  if scbStat = 0 then disableInterrupt s else s

def eepro100Interrupt (s : Nic) (status : Byte) : Nic :=
  let mask := ~~~s.mem scbIntmask
  let ack := s.mem scbAck ||| status
  let s := { s with mem := Function.update s.mem scbAck ack, scbStat := ack }
  if ack &&& (mask ||| 0x0f) ≠ 0 ∧ mask &&& 1 ≠ 0 then enableInterrupt s
  else if s.intStat then disableInterrupt s
  else s

def eepro100CxInterrupt (s : Nic) : Nic := eepro100Interrupt s 0x80

def eepro100CnaInterrupt (s : Nic) : Nic := eepro100Interrupt s 0x20

def eepro100FrInterrupt (s : Nic) : Nic := eepro100Interrupt s 0x40

def eepro100MdiInterrupt (s : Nic) : Nic := eepro100Interrupt s 0x08

def eepro100SwiInterrupt (s : Nic) : Nic := eepro100Interrupt s 0x04

def setCuState (s : Nic) (state : CuState) : Nic :=
  { s with
    cuState := state
    mem := Function.update s.mem scbStatus ((s.mem scbStatus &&& 0x3f#8) + state.code <<< 6) }

def setRuState (s : Nic) (state : RuState) : Nic :=
  { s with
    ruState := state
    mem := Function.update s.mem scbStatus ((s.mem scbStatus &&& 0xc3#8) + state.code <<< 2) }

/-! ### Reset -/

/-- The words of `eeprom_i82559`. -/
def eepromI82559 : List (BitVec 16) :=
  [0x0200, 0x46b3, 0xd792, 0x020b, 0xffff, 0x0201, 0x4701, 0xffff,
   0x7517, 0x6704, 0x50a2, 0x0040, 0x8086, 0x0064, 0xffff, 0xffff,
   0xffff, 0xffff, 0xffff, 0xffff, 0xffff, 0xffff, 0xffff, 0xffff,
   0xffff, 0xffff, 0xffff, 0xffff, 0xffff, 0xffff, 0xffff, 0xffff,
   0xffff, 0xffff, 0xffff, 0x1229, 0xffff, 0xffff, 0xffff, 0xffff,
   0xffff, 0xffff, 0xffff, 0xffff, 0xffff, 0xffff, 0xffff, 0xffff,
   0x002c, 0x4000, 0x3003, 0xffff, 0xffff, 0xffff, 0xffff, 0xffff,
   0xffff, 0xffff, 0xffff, 0xffff, 0xffff, 0xffff, 0xffff, 0x1f58]

def resetContents (s : Nic) : ℕ → BitVec 16 :=
  let c : ℕ → BitVec 16 := fun i => if i < eepromSize then eepromI82559.getD i 0 else s.eeprom.contents i
  let c := fun i => if i < 3 then s.macaddr.getD (2 * i + 1) 0 ++ s.macaddr.getD (2 * i) 0 else c i
  let c := Function.update (Function.update c 0x0c s.vendorId) 0x23 s.deviceId
  let c := Function.update c 0x06 ((c 0x06 &&& 0xff00) ||| 1)
  let c := Function.update c 0x05 (c 0x05 ||| 0x4000)
  Function.update c (eepromSize - 1) (0xbaba - (List.range (eepromSize - 1)).foldl (fun sum i => sum + c i) 0)

def eepro100MdiDefault : List (BitVec 16) :=
  [0x3000, 0x780d, 0x02a8, 0x0154, 0x05e1, 0x0000, 0x0000, 0x0000,
   0x0000, 0x0000, 0x0000, 0x0000, 0x0000, 0x0000, 0x0000, 0x0000,
   0x0003, 0x0000, 0x0001, 0x0000, 0x0000, 0x0000, 0x0000, 0x0000,
   0x0000, 0x0000, 0x0000, 0x0000, 0x0000, 0x0000, 0x0000, 0x0000]

def nicSelectiveReset (s : Nic) : Nic :=
  { s with
    eeprom := { s.eeprom with contents := resetContents s }
    mem := store (fun _ => 0) scbCtrlMDI (GuestMem.bytes32 (1#32 <<< 21))
    mdimem := fun i => eepro100MdiDefault.getD i 0 }

def nicReset (s : Nic) : Nic := nicSelectiveReset { s with mult := fun _ => 0 }

/-! ### The command unit -/

def dumpStatistics (s : Nic) : Nic :=
  let m := s.guest.write s.statsaddr s.statistics.bytes
  let m := m.putLe32 s.statsaddr s.statistics.txGoodFrames
  let m := m.putLe32 (s.statsaddr + 36) s.statistics.rxGoodFrames
  let m := m.putLe32 (s.statsaddr + 48) s.statistics.rxResourceErrors
  { s with guest := m.putLe32 (s.statsaddr + 60) s.statistics.rxShortFrameErrors }

def readCb (guest : GuestMem) (a : Word) : Tcb :=
  ⟨guest.le16 a, guest.le16 (a + 2), guest.le32 (a + 4), guest.le32 (a + 8), guest.le16 (a + 12),
    guest (a + 14), guest (a + 15)⟩

/-- A transmit buffer descriptor: address, size and end of list. -/
structure Tbd where
  address : Word
  size : ℕ
  el : Bool

def readTbd (guest : GuestMem) (a : Word) : Tbd :=
  ⟨guest.le32 a, (guest.le16 (a + 4)).toNat, (guest.le16 (a + 6)).getLsbD 0⟩

/-- The size of the frame buffer of `tx_command`. -/
def bufSize : ℕ := 2600

/-- The copy of a described buffer behind the part of the frame that is there already. -/
def readBuffer (guest : GuestMem) (t : Tbd) (buf : List Byte) : Except Fault (List Byte) :=
  if bufSize < buf.length + t.size then .error .overflow else .ok (buf ++ guest.read t.address t.size)

/-- Descriptors behind the command block, until the frame has `tcb_bytes` bytes. -/
def simplifiedLoop (guest : GuestMem) (tcbBytes : ℕ) : ℕ → Word → List Byte → Except Fault (Word × List Byte)
  | 0, _, _ => .error .fuel
  | fuel + 1, tbdAddress, buf =>
    if buf.length < tcbBytes then
      if bufSize < buf.length + (readTbd guest tbdAddress).size then .error .assertion
      else do
        let buf ← readBuffer guest (readTbd guest tbdAddress) buf
        simplifiedLoop guest tcbBytes fuel (tbdAddress + 8) buf
    else .ok (tbdAddress, buf)

def extendedTbd (guest : GuestMem) (t : Tbd) (buf : List Byte) : Except Fault (List Byte) :=
  if bufSize < buf.length + t.size then .ok buf
  else if 0 < t.size then if t.address = 0 then .error .assertion else readBuffer guest t buf
  else .ok buf

/-- At most two descriptors behind the command block; the count does not include one that
ends the list. -/
def extendedLoop (guest : GuestMem) : ℕ → Word → ℕ → List Byte → Except Fault (ℕ × List Byte)
  | 0, _, tbdCount, buf => .ok (tbdCount, buf)
  | left + 1, tbdAddress, tbdCount, buf => do
    let buf ← extendedTbd guest (readTbd guest tbdAddress) buf
    if (readTbd guest tbdAddress).el then .ok (tbdCount, buf)
    else extendedLoop guest left (tbdAddress + 8) (tbdCount + 1) buf

def flexibleTbd (guest : GuestMem) (t : Tbd) (buf : List Byte) : Except Fault (List Byte) :=
  if bufSize < buf.length + t.size then .ok buf else readBuffer guest t buf

/-- The descriptors of the TBD array. -/
def flexibleLoop (guest : GuestMem) : ℕ → Word → List Byte → Except Fault (List Byte)
  | 0, _, buf => .ok buf
  | left + 1, tbdAddress, buf => do
    let buf ← flexibleTbd guest (readTbd guest tbdAddress) buf
    if (readTbd guest tbdAddress).el then .ok buf else flexibleLoop guest left (tbdAddress + 8) buf

/-- The 82557 does not support extended command blocks. -/
def is82557 (d : Device) : Prop := Device.i82557A.code ≤ d.code ∧ d.code ≤ Device.i82557C.code

instance : DecidablePred is82557 := fun _ => instDecidableAnd

def Tcb.byteCount (tx : Tcb) : ℕ := (tx.tcbBytes &&& 0x3fff).toNat

/-- The descriptors of a transmit command after those that the simplified mode has taken. -/
def txRest (guest : GuestMem) (device : Device) (configuration : ℕ → Byte) (tx : Tcb) (r : Word × List Byte) :
    Except Fault (List Byte) :=
  if tx.command &&& commandSf = 0 then .ok r.2
  else if is82557 device then .ok r.2
  else if configuration 6 &&& 0x10 = 0 ∧ device ≠ .i82557C then
    if tx.byteCount ≠ 0 then .error .assertion
    else do
      let (tbdCount, buf) ← extendedLoop guest (min 2 tx.tbdCount.toNat) r.1 0 r.2
      flexibleLoop guest (tx.tbdCount.toNat - tbdCount) tx.tbdArrayAddr buf
  else flexibleLoop guest tx.tbdCount.toNat tx.tbdArrayAddr r.2

/-- The frame that `tx_command` sends for a command block. -/
def txFrame (fuel : ℕ) (guest : GuestMem) (device : Device) (configuration : ℕ → Byte) (cbAddress : Word)
    (tx : Tcb) : Except Fault (List Byte) :=
  if tx.command &&& commandNc ≠ 0 then .error .assertion
  else if bufSize < tx.byteCount then .error .assertion
  else do
    let r ← simplifiedLoop guest tx.byteCount fuel (cbAddress + 0x10) []
    txRest guest device configuration tx r

def txCommand (fuel : ℕ) (s : Nic) : Except Fault Nic := do
  let frame ← txFrame fuel s.guest s.device s.configuration s.cbAddress s.tx
  if bufSize < frame.length then .error .assertion
  else .ok { s with
    sent := s.sent ++ [frame]
    statistics := { s.statistics with txGoodFrames := s.statistics.txGoodFrames + 1 } }

/-- One bit of `compute_mcast_idx`. -/
def mcastBit (crc : Word) (b : Bool) : Word :=
  if crc.msb ^^ b then ((crc <<< 1) ^^^ 0x04c11db6#32) ||| 1#32 else crc <<< 1

/-- The place of a multicast address in the hash table. -/
def computeMcastIdx (ep : List Byte) : ℕ :=
  let crc := (List.range 6).foldl (fun crc i =>
    (List.range 8).foldl (fun crc j => mcastBit crc ((ep.getD i 0).getLsbD j)) crc) 0xffffffff
  ((crc &&& 0xfc#32) >>> 2).toNat

/-- An address is entered into the hash table. -/
def addMulticast (mult : ℕ → Byte) (idx : ℕ) : Except Fault (ℕ → Byte) :=
  if idx < 64 then .ok (Function.update mult (idx / 8) (mult (idx / 8) ||| 1#8 <<< (idx % 8)))
  else .error .assertion

def setMulticastList (s : Nic) : Except Fault Nic := do
  let multicastCount := (s.tx.tbdArrayAddr &&& 0x3fff).toNat
  let mult ← (List.range ((multicastCount + 5) / 6)).foldlM (fun mult i =>
    addMulticast mult (computeMcastIdx (s.guest.read (s.cbAddress + 10 + BitVec.ofNat 32 (6 * i)) 6)))
    fun _ => 0
  .ok { s with mult := mult }

def runCommand (fuel : ℕ) (s : Nic) : Except Fault Nic :=
  match (s.tx.command &&& commandCmd).toNat with
  | 1 => .ok { s with macaddr := s.guest.read (s.cbAddress + 8) 6 }
  | 2 => .ok { s with
      configuration := fun i =>
        if i < 22 then s.guest (s.cbAddress + 8 + BitVec.ofNat 32 i) else s.configuration i }
  | 3 => setMulticastList s
  | 4 => txCommand fuel s
  | _ => .ok s

def fetchBlock (s : Nic) : Nic :=
  let cbAddress := s.cuBase + s.cuOffset
  let tx := readCb s.guest cbAddress
  { s with cbAddress := cbAddress, tx := tx, cuOffset := tx.link }

/-- The new status of a block, and the interrupt that it asks for. -/
def completeBlock (s : Nic) : Nic :=
  let s := { s with guest := s.guest.putLe16 s.cbAddress (s.tx.status ||| statusC ||| statusOk) }
  if s.tx.command &&& commandI ≠ 0 then eepro100CxInterrupt s else s

def actionCommand (fuel : ℕ) : ℕ → Nic → Except Fault Nic
  | 0, _ => .error .fuel
  | n + 1, s => do
    let s ← runCommand fuel (fetchBlock s)
    let s := completeBlock s
    if s.tx.command &&& commandEl ≠ 0 then .ok (eepro100CnaInterrupt (setCuState s .idle))
    else if s.tx.command &&& commandS ≠ 0 then .ok (eepro100CnaInterrupt (setCuState s .suspended))
    else actionCommand fuel n s

def eepro100CuCommand (fuel : ℕ) (s : Nic) (val : Byte) : Except Fault Nic :=
  if val = 0x10 then actionCommand fuel fuel { setCuState s .active with cuOffset := s.pointer }
  else if val = 0x20 then
    let s := if s.cuState ≠ .suspended then setCuState s .suspended else s
    if s.cuState = .suspended then actionCommand fuel fuel (setCuState s .active) else .ok s
  else if val = 0x40 then .ok { s with statsaddr := s.pointer }
  else if val = 0x50 then .ok (dumpStatistics s)
  else if val = 0x60 then .ok { s with cuBase := s.pointer }
  else if val = 0x70 then .ok { dumpStatistics s with statistics := ⟨0, 0, 0, 0⟩ }
  else .ok s

def eepro100RuCommand (s : Nic) (val : Byte) : Nic :=
  if val = 1 then { setRuState s .ready with ruOffset := s.pointer }
  else if val = 2 then setRuState s .ready
  else if val = 6 then { s with ruBase := s.pointer }
  else s

def eepro100WriteCommand (fuel : ℕ) (s : Nic) (val : Byte) : Except Fault Nic := do
  let s ← eepro100CuCommand fuel (eepro100RuCommand s (val &&& 0x0f)) (val &&& 0xf0)
  .ok { s with mem := Function.update s.mem scbCmd 0 }

/-! ### EEPROM, MDI and port -/

def eepro100ReadEeprom (s : Nic) : BitVec 16 :=
  if eeprom93xxRead s.eeprom then load16 s.mem scbEeprom ||| 8 else load16 s.mem scbEeprom &&& ~~~8

def eepro100WriteEeprom (s : Nic) (val : Byte) : Nic :=
  { s with eeprom := eeprom93xxWrite s.eeprom ⟨val.getLsbD 1, val.getLsbD 0, val.getLsbD 2⟩ }

def eepro100ReadMdi (s : Nic) : Word := load32 s.mem scbCtrlMDI ||| 1#32 <<< 28

/-- The fields of an MDI command. -/
def mdiRaiseint (val : Word) : Bool := val.getLsbD 29
def mdiOpcode (val : Word) : ℕ := (val.extractLsb' 26 2).toNat
def mdiPhy (val : Word) : ℕ := (val.extractLsb' 21 5).toNat
def mdiReg (val : Word) : ℕ := (val.extractLsb' 16 5).toNat
def mdiData (val : Word) : BitVec 16 := val.extractLsb' 0 16

/-- Phy, opcode and register are ones that the card emulates. -/
def mdiSupported (val : Word) : Prop :=
  mdiPhy val = 1 ∧ (mdiOpcode val = 1 ∨ mdiOpcode val = 2) ∧ mdiReg val ≤ 6

instance : DecidablePred mdiSupported := fun _ => instDecidableAnd

def mdiDefaults (mdimem : ℕ → BitVec 16) : ℕ → BitVec 16 :=
  Function.update (Function.update mdimem 0 (eepro100MdiDefault.getD 0 0)) 1 (eepro100MdiDefault.getD 1 0)

def mdiWrite (mdimem : ℕ → BitVec 16) (reg : ℕ) (data : BitVec 16) : ℕ → BitVec 16 :=
  if reg = 0 then
    if data &&& 0x8000 ≠ 0 then
      Function.update (mdiDefaults mdimem) reg (mdiDefaults mdimem reg)
    else Function.update mdimem reg (data &&& ~~~0x0200)
  else if reg = 1 then Function.update mdimem reg (mdimem reg)
  else Function.update mdimem reg data

def mdiRead (mdimem : ℕ → BitVec 16) (reg : ℕ) (data : BitVec 16) : ℕ → BitVec 16 :=
  if reg = 0 then if data &&& 0x8000 ≠ 0 then mdiDefaults mdimem else mdimem
  else if reg = 1 then Function.update mdimem reg (mdimem reg ||| 0x0020)
  else if reg = 5 then Function.update mdimem reg 0x41fe
  else if reg = 6 then Function.update mdimem reg 0x0001
  else mdimem

/-- The registers of the phy after a command. -/
def mdiAccess (mdimem : ℕ → BitVec 16) (val : Word) : ℕ → BitVec 16 :=
  if mdiOpcode val = 1 then mdiWrite mdimem (mdiReg val) (mdiData val)
  else mdiRead mdimem (mdiReg val) (mdiData val)

def mdiResult (s : Nic) (val : Word) (data : BitVec 16) : Nic :=
  { s with mem := store s.mem scbCtrlMDI (GuestMem.bytes32 ((val &&& 0xffff0000) + data.setWidth 32)) }

def eepro100WriteMdi (s : Nic) (val : Word) : Nic :=
  if mdiSupported val then
    let mdimem := mdiAccess s.mdimem val
    let s := { s with mdimem := mdimem, mem := Function.update s.mem scbAck (s.mem scbAck ||| 0x08) }
    let s := if mdiRaiseint val then eepro100MdiInterrupt s else s
    mdiResult s (val ||| 1#32 <<< 28) (mdimem (mdiReg val))
  else mdiResult s val 0

def eepro100WritePort (s : Nic) (val : Word) : Nic :=
  match (val &&& 3).toNat with
  | 0 => nicReset s
  | 1 => { s with
      guest := s.guest.write (val &&& ~~~3) (GuestMem.bytes32 0xffffffff ++ GuestMem.bytes32 0) }
  | 2 => nicSelectiveReset s
  | _ => s

/-! ### Register reads and writes -/

def bswap16 (v : BitVec 16) : BitVec 16 := v.extractLsb' 0 8 ++ v.extractLsb' 8 8

def bswap32 (v : Word) : Word :=
  v.extractLsb' 0 8 ++ v.extractLsb' 8 8 ++ v.extractLsb' 16 8 ++ v.extractLsb' 24 8

/-- The value read; `none` where the source returns a variable that it has not set. -/
def eepro100Read1 (s : Nic) (addr : ℕ) : Option Byte :=
  if addr = scbEeprom then some ((eepro100ReadEeprom s).setWidth 8)
  else if addr = scbPmdr then some 0
  else if addr = scbGstat then some 0x07
  else if addr ≤ pciMemSize - 1 then some (s.mem addr)
  else none

def eepro100Read2 (s : Nic) (addr : ℕ) : Option (BitVec 16) :=
  let val := if addr = scbEeprom then some (eepro100ReadEeprom s)
    else if addr ≤ pciMemSize - 2 then some (load16 s.mem addr) else none
  if s.bigEndian then val.map bswap16 else val

def eepro100Read4 (s : Nic) (addr : ℕ) : Word :=
  let val := if addr = scbPort then 0
    else if addr = scbFlash then (eepro100ReadEeprom s).setWidth 32
    else if addr = scbCtrlMDI then eepro100ReadMdi s
    else if addr ≤ pciMemSize - 4 then load32 s.mem addr
    else 0
  if s.bigEndian then bswap32 val else val

/-- The store of a written value, which comes before its handler. -/
def storeReg (s : Nic) (addr : ℕ) (bs : List Byte) : Nic :=
  { s with mem := if addr ≤ pciMemSize - bs.length then store s.mem addr bs else s.mem }

def eepro100Write1 (fuel : ℕ) (s : Nic) (addr : ℕ) (val : Byte) : Except Fault Nic :=
  let s := storeReg s addr [val]
  if addr = scbAck then .ok (eepro100Acknowledge s)
  else if addr = scbCmd then eepro100WriteCommand fuel s val
  else if addr = scbIntmask then
    let s := if val.getLsbD 1 then eepro100SwiInterrupt s else s
    .ok (eepro100Interrupt s 0)
  else if addr = scbEeprom then .ok (eepro100WriteEeprom s val)
  else .ok s

def eepro100Write2 (fuel : ℕ) (s : Nic) (addr : ℕ) (val : BitVec 16) : Except Fault Nic :=
  let val := if s.bigEndian then bswap16 val else val
  let s := storeReg s addr (GuestMem.bytes16 val)
  if addr = scbStatus then .ok (eepro100Acknowledge s)
  else if addr = scbCmd then do
    let s ← eepro100WriteCommand fuel s (val.extractLsb' 0 8)
    eepro100Write1 fuel s scbIntmask (val.extractLsb' 8 8)
  else if addr = scbEeprom then .ok (eepro100WriteEeprom s (val.extractLsb' 0 8))
  else .ok s

def eepro100Write4 (s : Nic) (addr : ℕ) (val : Word) : Nic :=
  let val := if s.bigEndian then bswap32 val else val
  let s := storeReg s addr (GuestMem.bytes32 val)
  if addr = scbPointer then { s with pointer := val }
  else if addr = scbPort then eepro100WritePort s val
  else if addr = scbFlash then eepro100WriteEeprom s (val.extractLsb' 16 8)
  else if addr = scbCtrlMDI then eepro100WriteMdi s val
  else s

/-! ### Reception -/

def destination (buf : List Byte) : List Byte := (List.range 6).map fun i => buf.getD i 0

/-- The status that a received frame gets if the card takes it, and the card with the short
frame counted. -/
def receiveFilter (s : Nic) (buf : List Byte) : Nic × Option (BitVec 16) :=
  if s.configuration 8 &&& 0x80 ≠ 0 then (s, none)
  else if buf.length < 64 ∧ s.configuration 7 &&& 1 ≠ 0 then
    ({ s with statistics :=
      { s.statistics with rxShortFrameErrors := s.statistics.rxShortFrameErrors + 1 } }, some 0xa000)
  else if maxEthFrameSize + 4 < buf.length ∧ s.configuration 18 &&& 8 = 0 then (s, none)
  else if destination buf = s.macaddr then (s, some 0xa000)
  else if destination buf = List.replicate 6 0xff then (s, some 0xa002)
  else if buf.getD 0 0 &&& 1 ≠ 0 then
    let mcastIdx := computeMcastIdx (destination buf)
    if s.configuration 21 &&& 8 ≠ 0 then (s, some 0xa002)
    else if s.mult (mcastIdx / 8) &&& 1#8 <<< (mcastIdx % 8) ≠ 0 then (s, some 0xa002)
    else if s.configuration 15 &&& 1 ≠ 0 then (s, some 0xa006)
    else (s, none)
  else if s.configuration 15 &&& 1 ≠ 0 then (s, some 0xa004)
  else (s, none)

/-- The filter at most counts a short frame. -/
theorem receiveFilter_state (s : Nic) (buf : List Byte) : (receiveFilter s buf).1 = s ∨
    (receiveFilter s buf).1 =
      { s with statistics := { s.statistics with rxShortFrameErrors := s.statistics.rxShortFrameErrors + 1 } } := by
  unfold receiveFilter
  by_cases hcsma : s.configuration 8 &&& 0x80 ≠ 0
  · rw [if_pos hcsma]
    exact .inl rfl
  rw [if_neg hcsma]
  by_cases hshort : buf.length < 64 ∧ s.configuration 7 &&& 1 ≠ 0
  · rw [if_pos hshort]
    exact .inr rfl
  rw [if_neg hshort]
  simp only [apply_ite Prod.fst, ite_self, true_or]

/-- The frame and its status in the receive frame descriptor. -/
def storeFrame (s : Nic) (rfdStatus : BitVec 16) (buf : List Byte) : GuestMem :=
  let rfd := s.ruBase + s.ruOffset
  let m := s.guest.putLe16 rfd rfdStatus
  let m := m.putLe16 (rfd + 12) (BitVec.ofNat 16 buf.length)
  m.write (rfd + 16) buf

/-- The receive unit after a frame whose descriptor has this command. -/
def endReceive (s : Nic) (rfdCommand : BitVec 16) : Nic :=
  let s := if rfdCommand &&& 0x8000 ≠ 0 then setRuState s .idle else s
  if rfdCommand &&& 0x4000 ≠ 0 then setRuState s .suspended else s

def acceptFrame (s : Nic) (rfdStatus : BitVec 16) (buf : List Byte) : Nic :=
  let rfdCommand := s.guest.le16 (s.ruBase + s.ruOffset + 2)
  let link := s.guest.le32 (s.ruBase + s.ruOffset + 4)
  let rfdStatus := if buf.length < 64 then rfdStatus ||| 0x0080 else rfdStatus
  let s := eepro100FrInterrupt { s with
    guest := storeFrame s rfdStatus buf
    statistics := { s.statistics with rxGoodFrames := s.statistics.rxGoodFrames + 1 } }
  endReceive { s with ruOffset := link } rfdCommand

def nicReceive (s : Nic) (buf : List Byte) : Except Fault Nic :=
  if s.configuration 20 &&& 0x40 ≠ 0 then .error .assertion
  else
    let r := receiveFilter s buf
    match r.2 with
    | none => .ok r.1
    | some rfdStatus =>
      if r.1.ruState ≠ .ready then
        .ok { r.1 with statistics :=
          { r.1.statistics with rxResourceErrors := r.1.statistics.rxResourceErrors + 1 } }
      else if r.1.configuration 18 &&& 4 ≠ 0 then .error .assertion
      else .ok (acceptFrame r.1 rfdStatus buf)

/-! ### Events -/

/-- What happens to the card. -/
inductive Event where
  | read1 (addr : ℕ)
  | read2 (addr : ℕ)
  | read4 (addr : ℕ)
  | write1 (addr : ℕ) (val : Byte)
  | write2 (addr : ℕ) (val : BitVec 16)
  | write4 (addr : ℕ) (val : Word)
  | receive (buf : List Byte)
  | memory (guest : GuestMem)

/-- The card after an event. Reads change nothing; the guest changes its memory at will. -/
def handle (fuel : ℕ) (s : Nic) : Event → Except Fault Nic
  | .read1 _ | .read2 _ | .read4 _ => .ok s
  | .write1 addr val => eepro100Write1 fuel s addr val
  | .write2 addr val => eepro100Write2 fuel s addr val
  | .write4 addr val => .ok (eepro100Write4 s addr val)
  | .receive buf => nicReceive s buf
  | .memory guest => .ok { s with guest := guest }

/-- The card as it is allocated, zeroed but for its identity. -/
def zeroed (device : Device) (vendorId deviceId : BitVec 16) (macaddr : List Byte) (eeprom : Eeprom)
    (guest : GuestMem) (bigEndian : Bool) : Nic :=
  ⟨fun _ => 0, 0, false, false, macaddr, fun _ => 0, eeprom, device, vendorId, deviceId, 0, 0, 0, 0, 0, 0,
    .idle, .idle, ⟨0, 0, 0, 0, 0, 0, 0⟩, 0, ⟨0, 0, 0, 0⟩, fun _ => 0, fun _ => 0, guest, [], bigEndian⟩

end Ar7Qemu.Hw.Eepro100
