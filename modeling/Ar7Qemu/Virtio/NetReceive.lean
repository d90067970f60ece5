import Ar7Qemu.Lib.Scatter
import Ar7Qemu.Virtio.NetFilter
import Ar7Qemu.Virtio.QueueBounds

/-! The receive path of the virtio network card. A frame is taken when the ring has room for it, as the
card counts it, and then copied behind a header into the elements of the ring, one after the other. -/

namespace Ar7Qemu.Virtio.NetReceive

open Lib Scatter NetFilter

/-- The part of `VirtIONet` that receiving uses. -/
structure VirtIONet where
  rxVq : VirtQueue
  noNotify : Bool
  driverOk : Bool
  mergeableRxBufs : Bool
  filter : Filter
  mac : List UInt8

/-- Why the emulator does not get to the end of a frame: it exits, or it writes outside of a buffer. -/
inductive Stop where
  | ring (why : Exit)
  | truncating
  | noInBuffers
  | headerNotFirst
  | fault

/-- `do_virtio_net_can_receive`; `none` when the search of the ring needs more passes. -/
def doVirtioNetCanReceive (n : VirtIONet) (bufsize : ℕ) : Option (Except Stop (Bool × VirtIONet)) :=
  if n.rxVq.ready = false ∨ n.driverOk = false then some (.ok (false, n))
  else if virtioQueueEmpty n.rxVq then some (.ok (false, { n with noNotify := false }))
  else if n.mergeableRxBufs then
    (virtqueueAvailBytes n.rxVq (fun isWrite => if isWrite then BitVec.ofNat 32 bufsize else 0) (n.rxVq.vring.num + 1)).map
      fun r => match r with
        | .error why => .error (.ring why)
        | .ok avail => .ok (avail, { n with noNotify := avail })
  else some (.ok (true, { n with noNotify := true }))

/-- The size of the header that the guest is given. -/
def hdrLen (mergeable : Bool) : ℕ := if mergeable then 12 else 10

/-- An element that has been filled in, with its length, what was written of its buffers, and the first
of these. -/
structure Filled where
  index : BitVec 16
  total : ℕ
  area : Area UInt8
  first : Part

/-- `receive_header`: the flags and the type, before the header is left out of the first buffer. -/
def receiveHeader (v : Part) (hdrLen : ℕ) : Option (Part × Area UInt8) :=
  (copy (fun _ => none) v [0, 0]).map fun area =>
    ({ v with off := v.off + hdrLen, len := (v.len + 2 ^ 64 - hdrLen) % 2 ^ 64 }, area)

def fillElement (isFirst : Bool) (hdrLen : ℕ) (e : Element) (rest : List UInt8) : Option (Filled × ℕ) :=
  match parts 0 (e.inSg.map fun b => b.2.toNat) with
  | [] => none
  | v :: sg =>
    if isFirst then
      (receiveHeader v hdrLen).bind fun h =>
        (fill (h.1 :: sg) rest h.2).map fun r => (⟨e.index, hdrLen + r.2, r.1, v⟩, r.2)
    else (fill (v :: sg) rest fun _ => none).map fun r => (⟨e.index, r.2, r.1, v⟩, r.2)

section

variable (maps : BitVec 64 → BitVec 32 → Bool → Bool)

/-- The loop of `virtio_net_receive`, an element a pass; `none` when it needs more passes. Where there
is no first element nothing is filled in. -/
def receiveLoop (mergeable : Bool) : ℕ → VirtQueue → List UInt8 → List Filled → Option (Except Stop (VirtQueue × List Filled))
  | 0, _, _, _ => none
  | fuel + 1, vq, rest, filled =>
    if rest = [] then some (.ok (vq, filled))
    else if filled ≠ [] ∧ mergeable = false then some (.error .truncating)
    else
      match virtqueuePop maps vq with
      | .error why => some (.error (.ring why))
      | .ok (vq, none) => some (if filled = [] then .ok (vq, []) else .error .truncating)
      | .ok (vq, some e) =>
        if e.inSg = [] then some (.error .noInBuffers)
        else if mergeable = false ∧ (e.inSg.headD (0, 0)).2.toNat ≠ hdrLen mergeable then some (.error .headerNotFirst)
        else
          match fillElement (filled = []) (hdrLen mergeable) e rest with
          | none => some (.error .fault)
          | some (f, len) =>
            receiveLoop mergeable fuel (virtqueueFill vq e (BitVec.ofNat 32 f.total) filled.length) (rest.drop len) (filled ++ [f])

/-- `mhdr->num_buffers = i`. -/
def setNumBuffers (filled : List Filled) : Option (List Filled) :=
  match filled with
  | [] => some []
  | f :: fs =>
    (copy f.area { f.first with off := 10 } [UInt8.ofNat (filled.length % 256), UInt8.ofNat (filled.length / 256 % 256)]).map
      fun area => { f with area := area } :: fs

/-- What `virtio_net_receive` does after its loop. -/
def finish (n : VirtIONet) (r : VirtQueue × List Filled) : Except Stop (VirtIONet × List Filled) :=
  match if n.mergeableRxBufs then setNumBuffers r.2 else some r.2 with
  | none => .error .fault
  | some filled => .ok ({ n with rxVq := virtqueueFlush r.1 filled.length }, filled)

/-- `virtio_net_receive`, with the elements that it pushes. -/
def virtioNetReceive (n : VirtIONet) (frame : List UInt8) : Option (Except Stop (VirtIONet × List Filled)) :=
  (doVirtioNetCanReceive n frame.length).bind fun r => match r with
    | .error why => some (.error why)
    | .ok (accepted, n) =>
      if accepted = false then some (.ok (n, []))
      else if receiveFilter n.filter n.mac (fun i => frame.getD i 0) = false then some (.ok (n, []))
      else
        (receiveLoop maps n.mergeableRxBufs (n.rxVq.vring.num + 2) n.rxVq frame []).map fun r => r.bind (finish n)

end

end Ar7Qemu.Virtio.NetReceive
