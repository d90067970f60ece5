import Ar7Qemu.Lib.Run

/-! The registry of AIO handlers in `aio.c`. A call of `qemu_aio_wait` walks the list of handlers and
runs their callbacks, which register and delete handlers themselves and may wait again; the calls in
progress form a stack. Nodes have addresses that are not used twice, so a walk that stands at a freed
node is a fault. Beside the program the state holds the last registration of each descriptor. -/

namespace Ar7Qemu.AioHandler

/-- The functions and the argument of a handler. -/
structure Callbacks where
  ioRead : Option ℕ
  ioWrite : Option ℕ
  ioFlush : Option ℕ
  arg : ℕ
  deriving DecidableEq

/-- `AioHandler`, with the address of the node. -/
structure Node where
  id : ℕ
  fd : ℕ
  callbacks : Callbacks
  deleted : Bool
  deriving DecidableEq

/-- What a walk does with the node that it stands at. -/
inductive Part where
  | read
  | reading
  | write
  | writing
  | leave
  deriving DecidableEq

/-- Where a call of `qemu_aio_wait` is: before it fills the sets, or at a node. -/
inductive Position where
  | fill
  | node (id : ℕ) (part : Part)
  deriving DecidableEq

/-- A call of `qemu_aio_wait` with the descriptors that `select` left in its sets. -/
structure Frame where
  rdfds : ℕ → Bool
  wrfds : ℕ → Bool
  pos : Position

structure State where
  aioHandlers : List Node
  walkingHandlers : Bool
  stack : List Frame
  next : ℕ
  /-- The callbacks of the last call for a descriptor, `none` where it deleted the handler. -/
  latest : ℕ → Option Callbacks
  /-- A callback ran for a descriptor whose handler was deleted. -/
  stale : Bool
  /-- A freed node was used. -/
  fault : Bool

def init : State := ⟨[], false, [], 0, fun _ => none, false, false⟩

/-! ### The list -/

def findAioHandler (l : List Node) (fd : ℕ) : Option Node := l.find? fun n => n.fd = fd

def updateNode (l : List Node) (id : ℕ) (f : Node → Node) : List Node := l.map fun n => if n.id = id then f n else n

/-- `LIST_REMOVE` and `qemu_free`. -/
def removeNode (l : List Node) (id : ℕ) : List Node := l.filter fun n => n.id ≠ id

/-- `LIST_NEXT`. -/
def nextNode (l : List Node) (id : ℕ) : Option Node := (l.dropWhile fun n => n.id ≠ id).tail.head?

/-! ### Registration -/

/-- Neither a read nor a write function: the handler is deleted. -/
def Callbacks.deletes (c : Callbacks) : Bool := c.ioRead.isNone && c.ioWrite.isNone

/-- The list after `qemu_aio_set_fd_handler`. A node that is found keeps its mark. -/
def setFdHandler (s : State) (fd : ℕ) (c : Callbacks) : State :=
  match findAioHandler s.aioHandlers fd with
  | none =>
    if c.deletes then s
    else { s with aioHandlers := ⟨s.next, fd, c, false⟩ :: s.aioHandlers, next := s.next + 1 }
  | some node =>
    if c.deletes then
      if s.walkingHandlers then
        { s with aioHandlers := updateNode s.aioHandlers node.id fun n => { n with deleted := true } }
      else { s with aioHandlers := removeNode s.aioHandlers node.id }
    else { s with aioHandlers := updateNode s.aioHandlers node.id fun n => { n with callbacks := c } }

def qemuAioSetFdHandler (s : State) (fd : ℕ) (c : Callbacks) : State :=
  { setFdHandler s fd c with latest := Function.update s.latest fd (if c.deletes then none else some c) }

/-! ### Waiting -/

/-- What `select` returns. -/
inductive Select where
  | fail
  | timeout
  | ready (rd wr : ℕ → Bool)

/-- The node takes part in a round: it has no flush function, or that has work. -/
def Node.pending (work : ℕ → Bool) (n : Node) : Bool := n.callbacks.ioFlush.isNone || work n.id

def Node.wantsRead (work : ℕ → Bool) (n : Node) : Bool := n.pending work && !n.deleted && n.callbacks.ioRead.isSome

def Node.wantsWrite (work : ℕ → Bool) (n : Node) : Bool := n.pending work && !n.deleted && n.callbacks.ioWrite.isSome

/-- A flush function runs for a descriptor whose handler was deleted. -/
def flushStale (s : State) : Bool := s.aioHandlers.any fun n => n.callbacks.ioFlush.isSome && (s.latest n.fd).isNone

def walkTo (s : State) (f : Frame) (rest : List Frame) : Option Node → State
  | some n => { s with stack := { f with pos := .node n.id .read } :: rest }
  | none => { s with walkingHandlers := false, stack := rest }

/-- One pass of the loop of `qemu_aio_wait` up to the dispatch. An interrupted `select` leaves the
loop as any other failure does, since the result is not zero. -/
def waitRound (s : State) (f : Frame) (rest : List Frame) (work : ℕ → Bool) (sel : Select) : State :=
  let s := { s with walkingHandlers := false, stale := s.stale || flushStale s }
  if s.aioHandlers.any fun n => n.wantsRead work || n.wantsWrite work then
    match sel with
    | .fail => { s with stack := rest }
    | .timeout => s
    | .ready rd wr =>
      let f := { f with
        rdfds := fun fd => rd fd && s.aioHandlers.any fun n => n.fd = fd && n.wantsRead work
        wrfds := fun fd => wr fd && s.aioHandlers.any fun n => n.fd = fd && n.wantsWrite work }
      walkTo { s with walkingHandlers := true } f rest s.aioHandlers.head?
  else { s with stack := rest }

/-- The walk goes on with one part of the node that it stands at. -/
def visit (s : State) (f : Frame) (rest : List Frame) (n : Node) : Part → State
  | .read =>
    if !n.deleted && f.rdfds n.fd && n.callbacks.ioRead.isSome then
      { s with stack := { f with pos := .node n.id .reading } :: rest, stale := s.stale || (s.latest n.fd).isNone }
    else { s with stack := { f with pos := .node n.id .write } :: rest }
  | .write =>
    if !n.deleted && f.wrfds n.fd && n.callbacks.ioWrite.isSome then
      { s with stack := { f with pos := .node n.id .writing } :: rest, stale := s.stale || (s.latest n.fd).isNone }
    else { s with stack := { f with pos := .node n.id .leave } :: rest }
  | .leave =>
    let next := nextNode s.aioHandlers n.id
    let s := if n.deleted then { s with aioHandlers := removeNode s.aioHandlers n.id } else s
    walkTo s f rest next
  | _ => s

/-! ### The system -/

def Part.running : Part → Bool
  | .reading | .writing => true
  | _ => false

def State.calls (s : State) : Bool :=
  match s.stack with
  | [] => true
  | f :: _ =>
    match f.pos with
    | .node _ part => part.running
    | .fill => false

inductive Label where
  /-- `qemu_aio_set_fd_handler` is called. -/
  | set (fd : ℕ) (c : Callbacks)
  /-- `qemu_aio_wait` is called; `bh` says whether a bottom half ran. -/
  | wait (bh : Bool)
  /-- A pass of the loop, with the results of the flush functions and of `select`. -/
  | round (work : ℕ → Bool) (sel : Select)
  /-- The walk goes on. -/
  | walk
  /-- The callback returns. -/
  | done

def step (s : State) : Label → Option State
  | .set fd c => if s.calls then some (qemuAioSetFdHandler s fd c) else none
  | .wait bh =>
    if s.calls then
      if bh then some s else some { s with stack := ⟨fun _ => false, fun _ => false, .fill⟩ :: s.stack }
    else none
  | .round work sel =>
    match s.stack with
    | f :: rest => if f.pos = .fill then some (waitRound s f rest work sel) else none
    | [] => none
  | .walk =>
    match s.stack with
    | f :: rest =>
      match f.pos with
      | .node id part =>
        if part.running then none
        else
          match s.aioHandlers.find? fun n => n.id = id with
          | some n => some (visit s f rest n part)
          | none => some { s with fault := true }
      | .fill => none
    | [] => none
  | .done =>
    match s.stack with
    | f :: rest =>
      match f.pos with
      | .node id .reading => some { s with stack := { f with pos := .node id .write } :: rest }
      | .node id .writing => some { s with stack := { f with pos := .node id .leave } :: rest }
      | _ => none
    | [] => none

/-! ### What is to hold -/

def liveHandlers (s : State) (fd : ℕ) : List Callbacks :=
  (s.aioHandlers.filter fun n => n.fd = fd && !n.deleted).map Node.callbacks

/-- Each descriptor has exactly one live handler, that of its last call, or none if that call deleted
it; no freed node was used and no callback of a deleted handler ran. -/
structure Right (s : State) : Prop where
  live : ∀ fd, liveHandlers s fd = (s.latest fd).toList
  fault : s.fault = false
  stale : s.stale = false

end Ar7Qemu.AioHandler
