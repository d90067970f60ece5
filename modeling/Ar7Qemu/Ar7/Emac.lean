import Ar7Qemu.Lib.GuestMem
import Ar7Qemu.Ar7.Reg

/-! The Ethernet MAC of the AR7: its registers, the transmission of a chain of descriptors
and the reception of a frame. -/

namespace Ar7Qemu.Ar7

open Lib

/-- `BITS` of the source: bits `m` to `n`. -/
def bits (n m : ℕ) : Word := ((0xffffffff#32 <<< (31 - n)) >>> (31 - n + m)) <<< m

def cpmacTxidver : ℕ := 0x0000
def cpmacTxcontrol : ℕ := 0x0004
def cpmacTxteardown : ℕ := 0x0008
def cpmacRxidver : ℕ := 0x0010
def cpmacRxcontrol : ℕ := 0x0014
def cpmacRxteardown : ℕ := 0x0018
def cpmacRxmbpenable : ℕ := 0x0100
def cpmacRxunicastset : ℕ := 0x0104
def cpmacRxunicastclear : ℕ := 0x0108
def cpmacRxmaxlen : ℕ := 0x010c
def cpmacRxbufferoffset : ℕ := 0x0110
def cpmacMaccontrol : ℕ := 0x0160
def cpmacTxintstatraw : ℕ := 0x0170
def cpmacTxintstatmasked : ℕ := 0x0174
def cpmacTxintmaskset : ℕ := 0x0178
def cpmacTxintmaskclear : ℕ := 0x017c
def cpmacMacinvector : ℕ := 0x0180
def cpmacRxintstatraw : ℕ := 0x0190
def cpmacRxintstatmasked : ℕ := 0x0194
def cpmacRxintmaskset : ℕ := 0x0198
def cpmacRxintmaskclear : ℕ := 0x019c
def cpmacMacintstatraw : ℕ := 0x01a0
def cpmacMacintstatmasked : ℕ := 0x01a4
def cpmacMacintmaskset : ℕ := 0x01a8
def cpmacMacintmaskclear : ℕ := 0x01ac
def cpmacMacaddrlo0 : ℕ := 0x01b0
def cpmacMacaddrmid : ℕ := 0x01d0
def cpmacMacaddrhi : ℕ := 0x01d4
def cpmacRxgoodframes : ℕ := 0x0200
def cpmacRxbroadcastframes : ℕ := 0x0204
def cpmacRxmulticastframes : ℕ := 0x0208
def cpmacRxoversizedframes : ℕ := 0x0218
def cpmacRxundersizedframes : ℕ := 0x0220
def cpmacTxgoodframes : ℕ := 0x0234
def cpmacRxdmaoverruns : ℕ := 0x028c
def cpmacTx0hdp : ℕ := 0x0600
def cpmacTx7hdp : ℕ := 0x061c
def cpmacRx0hdp : ℕ := 0x0620
def cpmacRx7hdp : ℕ := 0x063c
def cpmacTx0cp : ℕ := 0x0640
def cpmacTx7cp : ℕ := 0x065c
def cpmacRx0cp : ℕ := 0x0660
def cpmacRx7cp : ℕ := 0x067c

def txcontrolTxen : Word := bit 0
def rxcontrolRxen : Word := bit 0
def maccontrolGmiien : Word := bit 5

def macinvectorStatusInt : Word := bit 19
def macinvectorHostInt : Word := bit 18
def macinvectorRxIntOr : Word := bit 17
def macinvectorTxIntOr : Word := bit 16
def macinvectorRxIntVec : Word := bits 10 8
def macinvectorTxIntVec : Word := bits 2 0

def macintstatHostpend : Word := bit 1
def macintstatStatpend : Word := bit 0

def rxmbpenableRxpasscrc : Word := bit 30
def rxmbpenableRxqosen : Word := bit 29
def rxmbpenableRxcmemfen : Word := bit 24
def rxmbpenableRxcefen : Word := bit 22
def rxmbpenableRxcafen : Word := bit 21
def rxmbpenableRxpromch : Word := bits 18 16
def rxmbpenableRxbroaden : Word := bit 13
def rxmbpenableRxbroadch : Word := bits 10 8
def rxmbpenableRxmulten : Word := bit 5
def rxmbpenableRxmultch : Word := bits 2 0

/-- Flags of a descriptor; receive and transmit descriptors share the first ones. -/
def cbSop : Word := bit 31
def cbEop : Word := bit 30
def cbOwner : Word := bit 29
def cbEoq : Word := bit 28
def cbTdowncmplt : Word := bit 27
def cbPasscrc : Word := bit 26
def rcbOversize : Word := bit 24
def rcbUndersized : Word := bit 22
def rcbNomatch : Word := bit 16

def maxEthFrameSize : ℕ := 1514

/-- A descriptor, `cpphy_tcb_t` or `cpphy_rcb_t`. -/
structure Cb where
  next : Word
  buff : Word
  length : Word
  mode : Word

/-- Offset of `mode` in a descriptor. -/
def cbMode : Word := 12

def readCb (mem : GuestMem) (address : Word) : Cb :=
  ⟨mem.le32 address, mem.le32 (address + 4), mem.le32 (address + 8), mem.le32 (address + cbMode)⟩

def Cb.bytes (cb : Cb) : List (BitVec 8) :=
  GuestMem.bytes32 cb.next ++ GuestMem.bytes32 cb.buff ++ GuestMem.bytes32 cb.length ++ GuestMem.bytes32 cb.mode

/-- One MAC with the memory it reaches: its registers, its address, whether a network client
is attached, the level of its interrupt request, the frames it has sent and
`TARGET_WORDS_BIGENDIAN`. -/
structure Emac where
  cpmac : Regs
  mem : GuestMem
  phys : List (BitVec 8)
  vc : Bool
  irq : Bool
  sent : List (List (BitVec 8))
  bigEndian : Bool

namespace Emac

def set (s : Emac) (offset : ℕ) (val : Word) : Emac := { s with cpmac := regWrite s.cpmac offset val }

def get (s : Emac) (offset : ℕ) : Word := regRead s.cpmac offset

end Emac

def emacUpdateInterrupt (s : Emac) : Emac :=
  let txintstat := s.get cpmacTxintstatraw &&& s.get cpmacTxintmaskset
  let rxintstat := s.get cpmacRxintstatraw &&& s.get cpmacRxintmaskset
  let macintstat := s.get cpmacMacintstatraw &&& s.get cpmacMacintmaskset
  let macintvector := s.get cpmacMacinvector &&& 0xffff
  let s := ((s.set cpmacTxintstatmasked txintstat).set cpmacRxintstatmasked rxintstat).set
    cpmacMacintstatmasked macintstat
  let macintvector := if txintstat ≠ 0 then macintvector ||| macinvectorTxIntOr
    else macintvector &&& ~~~macinvectorTxIntVec
  let macintvector := if rxintstat ≠ 0 then macintvector ||| macinvectorRxIntOr
    else macintvector &&& ~~~macinvectorRxIntVec
  let macintvector := if macintstat &&& macintstatHostpend ≠ 0 then macintvector ||| macinvectorHostInt
    else macintvector
  let macintvector := if macintstat &&& macintstatStatpend ≠ 0 then macintvector ||| macinvectorStatusInt
    else macintvector
  { s.set cpmacMacinvector macintvector with
    irq := decide (txintstat ≠ 0 ∨ rxintstat ≠ 0 ∨ macintstat ≠ 0) }

/-- The registers after `emac_reset`. -/
def emacReset : Regs :=
  regWrite (regWrite (regWrite (fun _ => 0) cpmacTxidver 0x000c0a07) cpmacRxidver 0x000c0a07) cpmacRxmaxlen 1518

def statusregInc (s : Emac) (offset : ℕ) : Emac :=
  let value := s.get offset + 1
  let s := s.set offset value
  if value.toNat ≥ 0x80000000 then
    emacUpdateInterrupt { s with cpmac := regSet s.cpmac cpmacMacintstatraw macintstatStatpend }
  else s

/-- `qemu_send_packet`, when there is a client. -/
def sendPacket (s : Emac) (buffer : List (BitVec 8)) : Emac :=
  if s.vc then { s with sent := s.sent ++ [buffer] } else s

/-- The registers after a frame has been sent. -/
def txSignal (s : Emac) (offset channel : ℕ) (address next : Word) : Emac :=
  let s := statusregInc s cpmacTxgoodframes
  let s := s.set offset next
  let s := s.set (cpmacTx0cp + 4 * channel) address
  let s := { s with cpmac := regSet s.cpmac cpmacTxintstatraw (bit channel) }
  emacUpdateInterrupt { s with cpmac := regSet s.cpmac cpmacMacinvector (BitVec.ofNat 32 channel) }

/-- One pass of the loop of `emac_transmit`, with the next address; a failed assertion ends
it. A buffer longer than the packet overruns the frame buffer before the assertion that
refuses it. -/
def transmitOne (s : Emac) (offset channel : ℕ) (address : Word) : Option (Emac × Word) :=
  let tcb := readCb s.mem address
  let bufferoffset := tcb.length >>> 16
  let flags := tcb.mode &&& bits 31 16
  let bufferlength := (tcb.length &&& bits 15 0).toNat
  let packetlength := (tcb.mode &&& bits 15 0).toNat
  if packetlength ≤ maxEthFrameSize ∧ packetlength = bufferlength ∧ flags &&& cbSop ≠ 0 ∧ flags &&& cbEop ≠ 0 ∧
      flags &&& cbPasscrc = 0 ∧ bufferoffset = 0 then
    let buffer := s.mem.read tcb.buff bufferlength
    let flags := (flags &&& ~~~cbOwner) ||| cbEoq
    let s := { s with mem := s.mem.stl s.bigEndian (address + cbMode) (flags ||| BitVec.ofNat 32 packetlength) }
    some (txSignal (sendPacket s buffer) offset channel address tcb.next, tcb.next)
  else none

/-- The loop of `emac_transmit`. The source follows the chain without a bound; `fuel` is
the number of descriptors it is followed for. -/
def transmitLoop (offset channel : ℕ) : ℕ → Word → Emac → Option Emac
  | 0, _, _ => none
  | fuel + 1, address, s =>
    match transmitOne s offset channel address with
    | none => none
    | some (s, next) => if next ≠ 0 then transmitLoop offset channel fuel next s else some s

def emacTransmit (fuel : ℕ) (s : Emac) (offset : ℕ) (address : Word) : Option Emac :=
  let channel := (offset - cpmacTx0hdp) / 4
  let s := s.set offset address
  if address = 0 then
    some s
  else if s.get cpmacMaccontrol &&& maccontrolGmiien = 0 then
    some s
  else if s.get cpmacTxcontrol &&& txcontrolTxen = 0 then
    some s
  else
    transmitLoop offset channel fuel address s

/-- The two teardown branches: `hdp`, `cp` and `raw` are the registers of the direction. -/
def teardown (s : Emac) (hdp cp raw : ℕ) (val : Word) : Option Emac :=
  let channel := val.toNat
  let dp := s.get (hdp + 4 * channel)
  if channel < 8 then
    let s := if dp ≠ 0 then
        { s with mem := s.mem.stl s.bigEndian (dp + cbMode) (s.mem.ldl s.bigEndian (dp + cbMode) ||| cbTdowncmplt) }
      else s
    let s := s.set (hdp + 4 * channel) 0
    let s := s.set (cp + 4 * channel) 0xfffffffc
    some (emacUpdateInterrupt { s with cpmac := regSet s.cpmac raw (bit channel) })
  else none

def completionPointer (s : Emac) (cp raw offset : ℕ) (val : Word) : Emac :=
  let channel := (offset - cp) / 4
  let oldval := s.get offset
  if oldval = val then
    emacUpdateInterrupt { s with cpmac := regClear s.cpmac raw (bit channel) }
  else s

def maskSet (s : Emac) (offset : ℕ) (valid val : Word) : Emac :=
  emacUpdateInterrupt (s.set offset (s.get offset ||| (val &&& valid)))

def maskClear (s : Emac) (offset : ℕ) (val : Word) : Emac :=
  emacUpdateInterrupt (s.set offset (s.get offset &&& ~~~val))

def cpmacByte (s : Emac) (offset : ℕ) : BitVec 8 :=
  (s.get (offset - offset % 4)).extractLsb' (8 * (offset % 4)) 8

def ar7CpmacWrite (fuel : ℕ) (s : Emac) (offset : ℕ) (val : Word) : Option Emac :=
  if ¬ offset % 4 = 0 then
    none
  else if offset = cpmacTxteardown then
    teardown s cpmacTx0hdp cpmacTx0cp cpmacTxintstatraw val
  else if offset = cpmacRxteardown then
    teardown s cpmacRx0hdp cpmacRx0cp cpmacRxintstatraw val
  else if offset = cpmacRxmbpenable then
    some (s.set offset val)
  else if offset = cpmacRxunicastset then
    some (s.set offset (s.get offset ||| (val &&& bits 7 0)))
  else if offset = cpmacRxunicastclear then
    some (s.set cpmacRxunicastset (s.get cpmacRxunicastset &&& ~~~val))
  else if offset = cpmacRxmaxlen then
    some (s.set offset (val &&& 0xffff))
  else if offset = cpmacTxintmaskset then
    some (maskSet s offset (bits 7 0) val)
  else if offset = cpmacTxintmaskclear then
    some (maskClear s cpmacTxintmaskset val)
  else if offset = cpmacRxintmaskset then
    some (maskSet s offset (bits 7 0) val)
  else if offset = cpmacRxintmaskclear then
    some (maskClear s cpmacRxintmaskset val)
  else if offset = cpmacMacintmaskset then
    some (maskSet s offset (bits 1 0) val)
  else if offset = cpmacMacintmaskclear then
    some (maskClear s cpmacMacintmaskset val)
  else if offset = cpmacMacaddrhi then
    let s := s.set offset val
    some { s with phys := [cpmacByte s cpmacMacaddrhi, cpmacByte s (cpmacMacaddrhi + 1),
      cpmacByte s (cpmacMacaddrhi + 2), cpmacByte s (cpmacMacaddrhi + 3), cpmacByte s cpmacMacaddrmid,
      cpmacByte s cpmacMacaddrlo0] }
  else if cpmacRxgoodframes ≤ offset ∧ offset ≤ cpmacRxdmaoverruns then
    -- the source computes the decremented value and then stores `val`
    if s.get cpmacMaccontrol &&& maccontrolGmiien ≠ 0 then
      some (s.set offset (if (s.get offset).toNat < val.toNat then 0 else val))
    else
      some (s.set offset val)
  else if cpmacTx0hdp ≤ offset ∧ offset ≤ cpmacTx7hdp then
    emacTransmit fuel s offset val
  else if cpmacRx0hdp ≤ offset ∧ offset ≤ cpmacRx7hdp then
    some (s.set offset val)
  else if cpmacTx0cp ≤ offset ∧ offset ≤ cpmacTx7cp then
    some (completionPointer s cpmacTx0cp cpmacTxintstatraw offset val)
  else if cpmacRx0cp ≤ offset ∧ offset ≤ cpmacRx7cp then
    some (completionPointer s cpmacRx0cp cpmacRxintstatraw offset val)
  else
    some (s.set offset val)

def broadcastMacaddr : List (BitVec 8) := List.replicate 6 0xff

/-- Where a frame goes: the channel, the counter of its kind and the flags of its
descriptor; nothing when the frame is ignored. -/
def rxChannel (s : Emac) (buf : List (BitVec 8)) : Option (ℕ × Option ℕ × Word) :=
  let rxmbpenable := s.get cpmacRxmbpenable
  if rxmbpenable &&& rxmbpenableRxbroaden ≠ 0 ∧ buf.take 6 = broadcastMacaddr then
    some (((rxmbpenable &&& rxmbpenableRxbroadch) >>> 8).toNat, some cpmacRxbroadcastframes, 0)
  else if rxmbpenable &&& rxmbpenableRxmulten ≠ 0 ∧ buf.headD 0 &&& 0x01 ≠ 0 then
    some ((rxmbpenable &&& rxmbpenableRxmultch).toNat, some cpmacRxmulticastframes, 0)
  else if buf.take 6 = s.phys then
    some (0, none, 0)
  else if rxmbpenable &&& rxmbpenableRxcafen ≠ 0 then
    some (((rxmbpenable &&& rxmbpenableRxpromch) >>> 16).toNat, none, rcbNomatch)
  else none

/-- The counters of a frame of `size` bytes, and the flags for its length. -/
def rxCount (s : Emac) (counter : Option ℕ) (size : ℕ) : Emac × Word :=
  let rxmaxlen := s.get cpmacRxmaxlen
  let s := counter.elim s (statusregInc s)
  let (s, flags) :=
    if size < 64 then (statusregInc s cpmacRxundersizedframes, rcbUndersized)
    else if rxmaxlen.toNat < size then (statusregInc s cpmacRxoversizedframes, rcbOversize)
    else (s, 0)
  (statusregInc s cpmacRxgoodframes, flags)

/-- The registers after a frame has been stored through the descriptor at `dp`. -/
def rxSignal (s : Emac) (channel : ℕ) (dp next : Word) : Emac :=
  let s := s.set (cpmacRx0hdp + 4 * channel) next
  let s := s.set (cpmacRx0cp + 4 * channel) dp
  let s := { s with cpmac := regSet s.cpmac cpmacRxintstatraw (bit channel) }
  emacUpdateInterrupt { s with cpmac := regSet s.cpmac cpmacMacinvector (BitVec.ofNat 32 channel <<< 8) }

/-- The frame is stored through the descriptor of its channel. -/
def rxStore (s : Emac) (channel : ℕ) (flags : Word) (buf : List (BitVec 8)) : Option Emac :=
  let size := buf.length
  let dp := s.get (cpmacRx0hdp + 4 * channel)
  if dp = 0 then
    some s
  else
    let rcb := readCb s.mem dp
    if rcb.mode &&& cbOwner ≠ 0 then
      if size ≤ rcb.length.toNat then
        let mode := rcb.mode &&& ~~~cbOwner &&& ~~~bits 15 0 ||| (BitVec.ofNat 32 size &&& bits 15 0) |||
          (cbSop ||| cbEop)
        let mode := if rcb.next = 0 then mode ||| cbEoq else mode
        let mode := mode ||| cbPasscrc ||| flags
        let mem := s.mem.write rcb.buff buf
        let s := { s with mem := mem.write dp (Cb.bytes ⟨rcb.next, rcb.buff, BitVec.ofNat 32 size, mode⟩) }
        some (rxSignal s channel dp rcb.next)
      else none
    else some s

def ar7NicReceive (s : Emac) (buf : List (BitVec 8)) : Option Emac :=
  let rxmbpenable := s.get cpmacRxmbpenable
  if s.get cpmacMaccontrol &&& maccontrolGmiien = 0 then
    some s
  else if s.get cpmacRxcontrol &&& rxcontrolRxen = 0 then
    some s
  else if rxmbpenable &&& rxmbpenableRxpasscrc = 0 ∧ rxmbpenable &&& rxmbpenableRxqosen = 0 ∧
      rxmbpenable &&& rxmbpenableRxcmemfen = 0 ∧ rxmbpenable &&& rxmbpenableRxcefen = 0 ∧
      s.get cpmacRxbufferoffset = 0 then
    match rxChannel s buf with
    | none => some s
    | some (channel, counter, flags) =>
      let (s, lengthFlags) := rxCount s counter buf.length
      if channel < 8 then rxStore s channel (flags ||| lengthFlags) buf else none
  else none

end Ar7Qemu.Ar7
