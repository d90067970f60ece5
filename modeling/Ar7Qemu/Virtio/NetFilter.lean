import Ar7Qemu.Lib.ByteList
import Ar7Qemu.Lib.Run

/-! The receive filter of the virtio network card and the commands of its control queue. The table of
addresses holds the unicast addresses of a table command and behind them the multicast ones. Where a
list does not fit, the card takes all packets or all multicast packets instead. -/

namespace Ar7Qemu.Virtio.NetFilter

open Lib

def macTableEntries : ℕ := 32

def ethAlen : ℕ := 6

def maxVlan : ℕ := 4096

/-- `VIRTIO_NET_OK`. -/
def statusOk : ℕ := 0

/-- `VIRTIO_NET_ERR`. -/
def statusErr : ℕ := 1

/-- The fields of `VirtIONet` that commands set. -/
structure Filter where
  promisc : ℕ
  allmulti : ℕ
  inUse : ℕ
  macs : Bytes
  vlans : ℕ → BitVec 32

/-- `virtio_net_reset`. -/
def Filter.reset : Filter := ⟨1, 0, 0, fun _ => 0, fun _ => 0⟩

/-- An element of a scatter list. -/
structure Buf where
  len : ℕ
  data : Bytes

/-- A command: its output buffers, the lengths of its input buffers, and whether it is the first one
that a call of the handler takes from the ring. -/
structure Elem where
  outSg : List Buf
  inLens : List ℕ
  first : Bool

def Elem.out (e : Elem) (k : ℕ) : Buf := e.outSg.getD k ⟨0, fun _ => 0⟩

/-- `ldl_le_p`. -/
def ldlLe (b : Bytes) : ℕ := (b 0).toNat + 256 * (b 1).toNat + 65536 * (b 2).toNat + 16777216 * (b 3).toNat

/-- `lduw_le_p`. -/
def lduwLe (b : Bytes) : ℕ := (b 0).toNat + 256 * (b 1).toNat

/-- What becomes of a command: the emulator exits, a byte outside of the table is accessed, or the
handler returns a status. -/
inductive Result where
  | exit
  | fault
  | done (n : Filter) (status : ℕ)

/-- `virtio_net_handle_rx_mode`. -/
def handleRxMode (n : Filter) (cmd : UInt8) (elem : Elem) : Result :=
  if elem.outSg.length ≠ 2 ∨ (elem.out 1).len ≠ 1 then .exit
  else
    let on := ((elem.out 1).data 0).toNat
    if cmd = 0 then .done { n with promisc := on } statusOk
    else if cmd = 1 then .done { n with allmulti := on } statusOk
    else .done n statusErr

/-- `memcpy(n->mac_table.macs + off, src, len)`. -/
def copyMacs (n : Filter) (off len : ℕ) (src : Bytes) : Option Filter :=
  if off + len ≤ macTableEntries * ethAlen then some { n with macs := n.macs.write off len src } else none

/-- The length of a list of addresses, a product of 32 bits. -/
def listBytes (entries : ℕ) : ℕ := entries * ethAlen % 2 ^ 32

/-- The second list of a table command. -/
def handleMulticast (n : Filter) (sg : Buf) : Result :=
  let entries := ldlLe sg.data
  if sg.len < 4 + listBytes entries then .done n statusErr
  else if entries = 0 then .done n statusOk
  else if (n.inUse + entries) % 2 ^ 32 ≤ macTableEntries then
    match copyMacs n (n.inUse * ethAlen) (listBytes entries) (sg.data.drop 4) with
    | none => .fault
    | some n => .done { n with inUse := (n.inUse + entries) % 2 ^ 32 } statusOk
  else .done { n with allmulti := 1 } statusOk

/-- `virtio_net_handle_mac`. The table is cleared before the lists are looked at. -/
def handleMac (n : Filter) (cmd : UInt8) (elem : Elem) : Result :=
  if cmd ≠ 0 ∨ elem.outSg.length ≠ 3 ∨ (elem.out 1).len < 4 ∨ (elem.out 2).len < 4 then .done n statusErr
  else
    let n := { n with inUse := 0, macs := fun _ => 0 }
    let entries := ldlLe (elem.out 1).data
    if (elem.out 1).len < 4 + listBytes entries then .done n statusErr
    else if entries ≤ macTableEntries then
      match copyMacs n 0 (listBytes entries) ((elem.out 1).data.drop 4) with
      | none => .fault
      | some n => handleMulticast { n with inUse := entries } (elem.out 2)
    else .done { n with promisc := 1 } statusOk

/-- `virtio_net_handle_vlan_table`. -/
def handleVlanTable (n : Filter) (cmd : UInt8) (elem : Elem) : Result :=
  if elem.outSg.length ≠ 2 ∨ (elem.out 1).len ≠ 2 then .done n statusErr
  else
    let vid := lduwLe (elem.out 1).data
    let bit : BitVec 32 := 1#32 <<< (vid % 32)
    if maxVlan ≤ vid then .done n statusErr
    else if cmd = 0 then .done { n with vlans := Function.update n.vlans (vid / 32) (n.vlans (vid / 32) ||| bit) } statusOk
    else if cmd = 1 then .done { n with vlans := Function.update n.vlans (vid / 32) (n.vlans (vid / 32) &&& ~~~bit) } statusOk
    else .done n statusErr

/-- The card between commands: its filter, the status that was written last, and whether the emulator
has exited. -/
structure Card where
  filter : Filter
  status : ℕ
  exited : Bool

def Card.init : Card := ⟨.reset, statusErr, false⟩

/-- The handlers of the classes. A class that there is no handler for leaves the status as it is in this
call. -/
def handleClass (c : Card) (elem : Elem) : Result :=
  let cls := (elem.out 0).data 0
  let cmd := (elem.out 0).data 1
  if cls = 0 then handleRxMode c.filter cmd elem
  else if cls = 1 then handleMac c.filter cmd elem
  else if cls = 2 then handleVlanTable c.filter cmd elem
  else .done c.filter (if elem.first then statusErr else c.status)

/-- One round of `virtio_net_handle_ctrl`. -/
def handleCtrl (c : Card) (elem : Elem) : Option Card :=
  if c.exited then some c
  else if elem.inLens = [] ∨ elem.outSg = [] ∨ (elem.out 0).len < 2 ∨ elem.inLens.getLastD 0 < 1 then
    some { c with exited := true }
  else
    match handleClass c elem with
    | .exit => some { c with exited := true }
    | .fault => none
    | .done n status => some { c with filter := n, status := status }

/-! ### Frames -/

def tagged (frame : Bytes) : Bool := frame 12 = 0x81 ∧ frame 13 = 0

def vidOf (frame : Bytes) : ℕ := (256 * (frame 14).toNat + (frame 15).toNat) % 4096

def vlanEnabled (n : Filter) (vid : ℕ) : Bool := n.vlans (vid / 32) &&& (1#32 <<< (vid % 32)) ≠ 0

def dest (frame : Bytes) : List UInt8 := frame.taken ethAlen

def receiveFilter (n : Filter) (mac : List UInt8) (frame : Bytes) : Bool :=
  if n.promisc ≠ 0 then true
  else if tagged frame ∧ ¬ vlanEnabled n (vidOf frame) then false
  else if frame 0 &&& 1 ≠ 0 ∧ n.allmulti ≠ 0 then true
  else if dest frame = List.replicate 6 0xff then true
  else if dest frame = mac then true
  else (List.range n.inUse).any fun i => dest frame = (n.macs.drop (i * ethAlen)).taken ethAlen

end Ar7Qemu.Virtio.NetFilter
