import Ar7Qemu.Virtio.Queue

/-! The virtio block device. A request is popped from the queue, handed to the block layer and
pushed back when the block layer reports; a failed write may be parked while the machine is
stopped. Beside the device's own fields the state holds what it has popped and pushed and the
images it has saved. -/

namespace Ar7Qemu.Virtio.Blk

/-- `virtio_blk_outhdr`, less the priority, which the device does not read. -/
structure OutHdr where
  type : BitVec 32
  sector : BitVec 64

inductive Status where
  | ok | ioerr | unsupp
  deriving DecidableEq

/-- `BlockInterfaceErrorAction`: what the drive is told to do about a failed write. -/
inductive ErrorAction where
  | report | ignore | stopEnospc | stopAny
  deriving DecidableEq

/-- What `bdrv_aio_readv` and `bdrv_aio_writev` do with a request: give no acb, take it and
report later, or report before they return. -/
inductive Answer where
  | null | pending | inline (ret : ℤ)

def ENOSPC : ℤ := 28

/-- `VirtIOBlockReq`. Its header and buffers are the device's from the pop to the push; `size`
is that of the io vector. -/
structure Req where
  elem : Element
  out : OutHdr
  size : ℕ

def Req.isScsi (r : Req) : Bool := r.out.type.getLsbD 1

def Req.isWrite (r : Req) : Bool := r.out.type.getLsbD 0

/-- A request given back to the guest, with what the block layer last reported about it. -/
structure Push where
  req : Req
  status : Status
  len : BitVec 32
  ret : Option ℤ

/-- A saved state: what the guest has been given, the list the device writes to the stream, and
the requests that the device was at work on. -/
structure Image where
  popped : List Req
  pushed : List Push
  elems : List Req
  waiting : List Req

/-- `VirtIOBlock`. `freed` is set when the device follows a pointer of a request that it has
freed, and `walks` holds what was parked and what was submitted at each restart. -/
structure Device where
  rq : List Req
  inflight : List Req
  running : Bool
  popped : List Req
  pushed : List Push
  freed : Bool
  walks : List (List Req × List Req)
  images : List Image

def Device.init : Device := ⟨[], [], true, [], [], false, [], []⟩

def virtioBlkReqComplete (s : Device) (r : Req) (status : Status) (ret : Option ℤ) : Device :=
  { s with pushed := s.pushed ++ [⟨r, status, BitVec.ofNat 32 (r.size + 1), ret⟩] }

section
variable (action : ErrorAction)

/-- Whether the drive stops the machine on this error of a write. -/
def stops (error : ℤ) : Bool :=
  (decide (error = ENOSPC) && decide (action = .stopEnospc)) || decide (action = .stopAny)

/-- The state after the error and whether the error has been dealt with. -/
def virtioBlkHandleWriteError (s : Device) (r : Req) (error : ℤ) : Device × Bool :=
  if action = .ignore then (s, false)
  else if stops action error then ({ s with rq := r :: s.rq, running := false }, true)
  else (virtioBlkReqComplete s r .ioerr (some (-error)), true)

def virtioBlkRwComplete (s : Device) (r : Req) (ret : ℤ) : Device :=
  if ret ≠ 0 ∧ r.isWrite then
    let (t, handled) := virtioBlkHandleWriteError action s r (-ret)
    if handled then t else virtioBlkReqComplete t r .ok (some ret)
  else virtioBlkReqComplete s r .ok (some ret)

/-- A request goes to the block layer, which calls `virtioBlkRwComplete` for it now or later.
The device does not look at the acb it is given. -/
def submit (s : Device) (r : Req) : Answer → Device
  | .null => s
  | .pending => { s with inflight := s.inflight ++ [r] }
  | .inline ret => virtioBlkRwComplete action s r ret

def virtioBlkHandleWrite (s : Device) (r : Req) (answer : Answer) : Device := submit action s r answer

def virtioBlkHandleRead (s : Device) (r : Req) (answer : Answer) : Device := submit action s r answer

/-- An element that the guest has queued, the header in its first buffer, and what the block
layer will do with it. -/
structure Offer where
  elem : Element
  out : OutHdr
  answer : Answer

def sgSize (sg : List (BitVec 64 × BitVec 32)) : ℕ := (sg.map fun b => b.2.toNat).sum

/-- The request that `virtio_blk_handle_output` builds from an element. -/
def Offer.req (o : Offer) : Req :=
  let r : Req := ⟨o.elem, o.out, 0⟩
  if r.isScsi then r
  else if r.isWrite then { r with size := sgSize o.elem.outSg.tail }
  else { r with size := sgSize o.elem.inSg.dropLast }

/-- Both headers are there and large enough. -/
def Offer.headers (o : Offer) : Bool :=
  match o.elem.outSg.head?, o.elem.inSg.getLast? with
  | some out, some inn => decide (16 ≤ out.2.toNat) && decide (1 ≤ inn.2.toNat)
  | _, _ => false

/-- A pass of the loop of `virtio_blk_handle_output`; without the headers the emulator exits. -/
def handleRequest (s : Device) (o : Offer) : Option Device :=
  let r := o.req
  let s := { s with popped := s.popped ++ [r] }
  if o.headers then
    if r.isScsi then some { s with pushed := s.pushed ++ [⟨r, .unsupp, 1, none⟩] }
    else if r.isWrite then some (virtioBlkHandleWrite action s r o.answer)
    else some (virtioBlkHandleRead action s r o.answer)
  else none

def virtioBlkHandleOutput (s : Device) (os : List Offer) : Option Device := os.foldlM (handleRequest action) s

/-- Whether the block layer's report puts the request back on the list. -/
def parks (r : Req) (ret : ℤ) : Bool := decide (ret ≠ 0) && r.isWrite && stops action (-ret)

/-- What `req->next` is after the request has been submitted: a request parked again is linked
to what was on the list before it, and one that has been completed is freed. -/
def nextAfter (s : Device) (r : Req) (next : List Req) : Answer → Option (List Req)
  | .inline ret => if parks action r ret then some s.rq else none
  | _ => some next

/-- The walk of `virtio_blk_dma_restart_cb`, with the requests it submits. The `n`-th submission
has the answer `answer n`. -/
def restartLoop : ℕ → (ℕ → Answer) → Device → List Req → Device × List Req
  | 0, _, s, _ => (s, [])
  | _ + 1, _, s, [] => (s, [])
  | fuel + 1, answer, s, r :: next =>
    let t := virtioBlkHandleWrite action s r (answer 0)
    match nextAfter action s r next (answer 0) with
    | none => ({ t with freed := true }, [r])
    | some rest =>
      let (u, submitted) := restartLoop fuel (fun n => answer (n + 1)) t rest
      (u, r :: submitted)

def virtioBlkDmaRestartCb (s : Device) (running : Bool) (answer : ℕ → Answer) : Device :=
  if running then
    let (t, submitted) := restartLoop action (s.rq.length + 1) answer { s with rq := [] } s.rq
    { t with walks := t.walks ++ [(s.rq, submitted)] }
  else s

/-- `virtio_blk_save`, at the end of `virtio_save`. -/
def virtioBlkSave (s : Device) : Image := ⟨s.popped, s.pushed, s.rq, s.inflight ++ s.rq⟩

/-- `virtio_blk_load`: each request that is read takes the list as its `next`, and the list is
set to that `next`. -/
def virtioBlkLoad (rq : List Req) : List Req → List Req
  | [] => rq
  | _ :: elems =>
    let next := rq
    virtioBlkLoad next elems

/-- What happens to the device. The guest kicks the queue; the block layer reports on a request
that it has taken; the machine stops, goes on, is saved, or is loaded from the `n`-th image, into
this emulator or a `fresh` one. -/
inductive Event where
  | kick (os : List Offer)
  | complete (n : ℕ) (ret : ℤ)
  | stop
  | cont (answer : ℕ → Answer)
  | save
  | load (n : ℕ) (fresh : Bool)

/-- One event. The machine is stopped when it is saved or loaded, and a load into this emulator
first waits for the block layer. A loaded machine has the guest of the image. -/
def Device.step (s : Device) : Event → Option Device
  | .kick os => virtioBlkHandleOutput action s os
  | .complete n ret =>
    s.inflight[n]?.map fun r => virtioBlkRwComplete action { s with inflight := s.inflight.eraseIdx n } r ret
  | .stop => some (virtioBlkDmaRestartCb action { s with running := false } false fun _ => .null)
  | .cont answer => if s.running then some s else some (virtioBlkDmaRestartCb action { s with running := true } true answer)
  | .save => if s.running then none else some { s with images := s.images ++ [virtioBlkSave s] }
  | .load n fresh =>
    if fresh = false ∧ (s.running ∨ s.inflight ≠ []) then none
    else s.images[n]?.map fun i =>
      { s with popped := i.popped, pushed := i.pushed, inflight := [], running := false
               rq := virtioBlkLoad (if fresh then [] else s.rq) i.elems }

end

end Ar7Qemu.Virtio.Blk
