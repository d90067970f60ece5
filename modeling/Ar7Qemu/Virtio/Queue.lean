import Mathlib.Data.BitVec
import Mathlib.Data.Int.Notation
import Mathlib.Tactic.Common

/-! A virtqueue between a guest and a device: the three parts of the ring in guest memory,
the device's functions on them, and the system of the two parties with what each of them has
done since the last reset. -/

namespace Ar7Qemu.Virtio

structure VRingDesc where
  addr : BitVec 64
  len : BitVec 32
  flags : BitVec 16
  next : BitVec 16

/-- `VRingUsedElem`. -/
structure UsedElem where
  id : BitVec 32
  len : BitVec 32
  deriving DecidableEq

/-- A ring: the descriptors, what the guest offers and what the device has used. -/
structure VRing where
  num : ℕ
  desc : ℕ → VRingDesc
  availIdx : BitVec 16
  availRing : ℕ → BitVec 16
  usedIdx : BitVec 16
  usedRing : ℕ → UsedElem

/-- The device's side of a queue. `ready` is whether the guest has given it a ring. -/
structure VirtQueue where
  vring : VRing
  lastAvailIdx : BitVec 16
  inuse : ℤ
  ready : Bool

/-- `VirtQueueElement`: the head of the chain and its buffers. -/
structure Element where
  index : BitVec 16
  inSg : List (BitVec 64 × BitVec 32)
  outSg : List (BitVec 64 × BitVec 32)

/-- Why the emulator gives up on a guest. -/
inductive Exit where
  | movedIndex | sillyHead | descNext | mapsMmio | loopedDescriptor

def vringDescFNext (d : VRingDesc) : Bool := d.flags.getLsbD 0

def vringDescFWrite (d : VRingDesc) : Bool := d.flags.getLsbD 1

def virtioQueueEmpty (vq : VirtQueue) : Bool := decide (vq.vring.availIdx = vq.lastAvailIdx)

/-- An element with its length into the used ring, some places behind the used index. -/
def virtqueueFill (vq : VirtQueue) (elem : Element) (len : BitVec 32) (idx : ℕ) : VirtQueue :=
  { vq with vring := { vq.vring with
    usedRing := Function.update vq.vring.usedRing ((idx + vq.vring.usedIdx.toNat) % vq.vring.num)
      ⟨elem.index.setWidth 32, len⟩ } }

def virtqueueFlush (vq : VirtQueue) (count : ℕ) : VirtQueue :=
  { vq with
    vring := { vq.vring with usedIdx := vq.vring.usedIdx + BitVec.ofNat 16 count }
    inuse := vq.inuse - count }

def virtqueuePush (vq : VirtQueue) (elem : Element) (len : BitVec 32) : VirtQueue :=
  virtqueueFlush (virtqueueFill vq elem len 0) 1

def virtqueueNumHeads (vq : VirtQueue) (idx : BitVec 16) : Except Exit ℕ :=
  let numHeads := (vq.vring.availIdx - idx).toNat
  if vq.vring.num < numHeads then .error .movedIndex else .ok numHeads

def virtqueueGetHead (vq : VirtQueue) (idx : BitVec 16) : Except Exit (BitVec 16) :=
  let head := vq.vring.availRing (idx.toNat % vq.vring.num)
  if vq.vring.num ≤ head.toNat then .error .sillyHead else .ok head

/-- The next descriptor of a chain, or the size of the ring behind its end. -/
def virtqueueNextDesc (vq : VirtQueue) (i : ℕ) : Except Exit ℕ :=
  if vringDescFNext (vq.vring.desc i) then
    if vq.vring.num ≤ (vq.vring.desc i).next.toNat then .error .descNext else .ok (vq.vring.desc i).next.toNat
  else .ok vq.vring.num

def Element.add (e : Element) (d : VRingDesc) : Element :=
  if vringDescFWrite d then { e with inSg := e.inSg ++ [(d.addr, d.len)] }
  else { e with outSg := e.outSg ++ [(d.addr, d.len)] }

/-- `in_num + out_num`. -/
def Element.size (e : Element) : ℕ := e.inSg.length + e.outSg.length

section

-- `maps addr len isWrite`: `cpu_physical_memory_map` maps the whole buffer
variable (maps : BitVec 64 → BitVec 32 → Bool → Bool)

/-- The loop of `virtqueue_pop` over the chain. The element never gets to more buffers than
the ring has descriptors, which bounds the passes. -/
def popLoop (vq : VirtQueue) : ℕ → ℕ → Element → Except Exit Element
  | 0, _, _ => .error .loopedDescriptor
  | fuel + 1, i, e =>
    let d := vq.vring.desc i
    if maps d.addr d.len (vringDescFWrite d) = false then .error .mapsMmio
    else if vq.vring.num < (e.add d).size then .error .loopedDescriptor
    else do
      let next ← virtqueueNextDesc vq i
      if next = vq.vring.num then .ok (e.add d) else popLoop vq fuel next (e.add d)

/-- The next element, `none` when the guest offers none. -/
def virtqueuePop (vq : VirtQueue) : Except Exit (VirtQueue × Option Element) := do
  let numHeads ← virtqueueNumHeads vq vq.lastAvailIdx
  if numHeads = 0 then .ok (vq, none)
  else
    let head ← virtqueueGetHead vq vq.lastAvailIdx
    let elem ← popLoop maps vq (vq.vring.num + 1) head.toNat ⟨head, [], []⟩
    .ok ({ vq with lastAvailIdx := vq.lastAvailIdx + 1, inuse := vq.inuse + 1 }, some elem)

/-- What `virtio_reset` does to a queue. -/
def virtioReset (vq : VirtQueue) : VirtQueue := { vq with ready := false, lastAvailIdx := 0 }

/-- The guest gives the queue a ring, with nothing offered and nothing used. -/
def virtqueueInit (vq : VirtQueue) (desc : ℕ → VRingDesc) (zeroRing : ℕ → UsedElem) : VirtQueue :=
  { vq with ready := true, vring := ⟨vq.vring.num, desc, 0, fun _ => 0, 0, zeroRing⟩ }

/-! ### The guest and the device -/

/-- The guest, the queue and the device, with what has happened since the last reset: the heads
that the guest has published, those that were popped, the elements that the device is still
working on, those it has filled in but not flushed (with their place behind the used index),
those it has completed, and the used elements that the guest has read. -/
structure Sys where
  vq : VirtQueue
  published : List (BitVec 16)
  popped : List (BitVec 16)
  inflight : List Element
  batch : List (ℕ × UsedElem)
  completed : List UsedElem
  consumed : List UsedElem
  exited : Bool

/-- A chain of at most so many descriptors, all of them in the ring and in memory. -/
def chainEnds (num : ℕ) (desc : ℕ → VRingDesc) : ℕ → ℕ → Bool
  | 0, _ => false
  | n + 1, i => maps (desc i).addr (desc i).len (vringDescFWrite (desc i)) &&
      (!vringDescFNext (desc i) || (decide ((desc i).next.toNat < num) && chainEnds num desc n (desc i).next.toNat))

def validHead (num : ℕ) (desc : ℕ → VRingDesc) (head : BitVec 16) : Bool :=
  decide (head.toNat < num) && chainEnds maps num desc num head.toNat

def Sys.pending (s : Sys) : List (BitVec 16) := s.published.drop s.popped.length

/-- Events of the two parties. `fill` and `push` name the element by its place among those
that the device is working on. -/
inductive Event where
  | enable (desc : ℕ → VRingDesc) (zeroRing : ℕ → UsedElem)
  | setDesc (desc : ℕ → VRingDesc)
  | publish (head : BitVec 16)
  | consume
  | pop
  | fill (n : ℕ) (len : BitVec 32) (idx : ℕ)
  | flush (count : ℕ)
  | push (n : ℕ) (len : BitVec 32)
  | reset

def Element.used (e : Element) (len : BitVec 32) : UsedElem := ⟨e.index.setWidth 32, len⟩

/-- The filled elements in the order of their places. -/
def flushed (batch : List (ℕ × UsedElem)) : List UsedElem :=
  (List.range batch.length).filterMap fun i => batch.lookup i

def Sys.afterPop (s : Sys) : Except Exit (VirtQueue × Option Element) → Sys
  | .error _ => { s with exited := true }
  | .ok (vq, none) => { s with vq := vq }
  | .ok (vq, some e) => { s with vq := vq, popped := s.popped ++ [e.index], inflight := s.inflight ++ [e] }

/-- An event as the two parties may take it. The guest gives the queue a ring once after a
reset, keeps the chains that wait valid, and has never more heads out than the ring has slots.
The device works only on a queue with a ring, fills in each element once, to a place that no
other has and that holds no element the guest has yet to read, and flushes when the places
from zero on are filled. -/
def Sys.step (s : Sys) : Event → Option Sys
  | .enable desc zeroRing =>
    if s.vq.ready then none else some { s with vq := virtqueueInit s.vq desc zeroRing }
  | .setDesc desc =>
    if s.vq.ready ∧ s.pending.all (validHead maps s.vq.vring.num desc) then
      some { s with vq := { s.vq with vring := { s.vq.vring with desc := desc } } }
    else none
  | .publish head =>
    if s.vq.ready ∧ validHead maps s.vq.vring.num s.vq.vring.desc head ∧
        s.published.length < s.consumed.length + s.vq.vring.num then
      some { s with
        published := s.published ++ [head]
        vq := { s.vq with vring := { s.vq.vring with
          availRing := Function.update s.vq.vring.availRing (s.vq.vring.availIdx.toNat % s.vq.vring.num) head
          availIdx := s.vq.vring.availIdx + 1 } } }
    else none
  | .consume =>
    if s.vq.ready ∧ BitVec.ofNat 16 s.consumed.length ≠ s.vq.vring.usedIdx then
      some { s with consumed := s.consumed ++ [s.vq.vring.usedRing (s.consumed.length % s.vq.vring.num)] }
    else none
  | .pop => if s.vq.ready then some (s.afterPop (virtqueuePop maps s.vq)) else none
  | .fill n len idx =>
    match s.inflight[n]? with
    | none => none
    | some e =>
      if s.vq.ready ∧ (s.batch.lookup idx).isNone ∧
          s.completed.length + idx < s.consumed.length + s.vq.vring.num then
        some { s with
          vq := virtqueueFill s.vq e len idx
          inflight := s.inflight.eraseIdx n
          batch := s.batch ++ [(idx, e.used len)] }
      else none
  | .flush count =>
    if s.vq.ready ∧ count = s.batch.length ∧ (List.range count).all fun i => (s.batch.lookup i).isSome then
      some { s with
        vq := virtqueueFlush s.vq count
        batch := []
        completed := s.completed ++ flushed s.batch }
    else none
  | .push n len =>
    match s.inflight[n]? with
    | none => none
    | some e =>
      if s.vq.ready ∧ s.batch = [] then
        some { s with
          vq := virtqueuePush s.vq e len
          inflight := s.inflight.eraseIdx n
          completed := s.completed ++ [e.used len] }
      else none
  | .reset => some ⟨virtioReset s.vq, [], [], [], [], [], [], s.exited⟩

end

def newQueue (num : ℕ) (desc : ℕ → VRingDesc) (zeroRing : ℕ → UsedElem) : VirtQueue :=
  ⟨⟨num, desc, 0, fun _ => 0, 0, zeroRing⟩, 0, 0, false⟩

def Sys.init (num : ℕ) (desc : ℕ → VRingDesc) (zeroRing : ℕ → UsedElem) : Sys :=
  ⟨newQueue num desc zeroRing, [], [], [], [], [], [], false⟩

end Ar7Qemu.Virtio
