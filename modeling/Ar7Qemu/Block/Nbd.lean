import Ar7Qemu.Lib.ByteStore
import Ar7Qemu.Lib.Run
import Ar7Qemu.Migration.QemuFile

/-! The NBD server of `nbd.c` and the loop of `qemu-nbd.c`: requests of several connections are
answered one at a time, from one device and through one data buffer. A connection is the bytes
that its client sends and the bytes it is sent. -/

namespace Ar7Qemu.Nbd

open Lib Migration

/-! ### The block layer -/

/-- What the driver does with a request: all of it, or `done` bytes before it returns a negative
value. -/
inductive Outcome where
  | ok
  | fail (code done : ℕ)

def Outcome.ret : Outcome → ℤ
  | .ok => 0
  | .fail code _ => Int.negSucc code

def Outcome.bytes (n : ℕ) : Outcome → ℕ
  | .ok => n
  | .fail _ done => min done n

/-- `BlockDriverState`. -/
structure BlockDevice where
  drv : Bool
  inserted : Bool
  readOnly : Bool
  growable : Bool
  length : ℕ
  content : Bytes

def enomedium : ℤ := 123
def eio : ℤ := 5
def eacces : ℤ := 13

def bdrvCheckRequest (d : BlockDevice) (sectorNum nbSectors : ℕ) : ℤ :=
  if d.inserted = false then -enomedium
  else if d.growable then 0
  else if d.length < sectorNum * 512 + nbSectors * 512 then -eio
  else 0

/-- `bdrv_read`: the value returned and the buffer. -/
def bdrvRead (d : BlockDevice) (sectorNum : ℕ) (buf : Bytes) (nbSectors : ℕ) (o : Outcome) : ℤ × Bytes :=
  if d.drv = false then (-enomedium, buf)
  else if bdrvCheckRequest d sectorNum nbSectors ≠ 0 then (-eio, buf)
  else (o.ret, buf.write 0 (o.bytes (512 * nbSectors)) (d.content.drop (512 * sectorNum)))

/-- `bdrv_write`: the value returned and the device. -/
def bdrvWrite (d : BlockDevice) (sectorNum : ℕ) (buf : Bytes) (nbSectors : ℕ) (o : Outcome) : ℤ × BlockDevice :=
  if d.drv = false then (-enomedium, d)
  else if d.readOnly then (-eacces, d)
  else if bdrvCheckRequest d sectorNum nbSectors ≠ 0 then (-eio, d)
  else (o.ret, { d with content := d.content.write (512 * sectorNum) (o.bytes (512 * nbSectors)) buf })

/-! ### Messages -/

/-- `nbd_request`. -/
structure Request where
  type : ℕ
  handle : ℕ
  start : ℕ
  len : ℕ

/-- `nbd_reply`. -/
structure Reply where
  error : ℕ
  handle : ℕ
  deriving DecidableEq

def nbdRequestMagic : ℕ := 0x25609513
def nbdReplyMagic : ℕ := 0x67446698
def nbdCmdRead : ℕ := 0
def nbdCmdWrite : ℕ := 1
def nbdCmdDisc : ℕ := 2

def nbdSendRequest (q : Request) : Stream :=
  putBe32 nbdRequestMagic ++ putBe32 q.type ++ putBe64 q.handle ++ putBe64 q.start ++ putBe32 q.len

/-- `nbd_receive_request`: the request and what follows it. -/
def nbdReceiveRequest (f : Stream) : Option (Request × Stream) :=
  if f.length < 28 then none
  else
    let (magic, f) := getBe32 f
    let (type, f) := getBe32 f
    let (handle, f) := getBe64 f
    let (start, f) := getBe64 f
    let (len, f) := getBe32 f
    if magic ≠ nbdRequestMagic then none else some (⟨type, handle, start, len⟩, f)

def nbdSendReply (r : Reply) : Stream := putBe32 nbdReplyMagic ++ putBe32 r.error ++ putBe64 r.handle

def nbdReceiveReply (f : Stream) : Option (Reply × Stream) :=
  if f.length < 16 then none
  else
    let (magic, f) := getBe32 f
    let (error, f) := getBe32 f
    let (handle, f) := getBe64 f
    if magic ≠ nbdReplyMagic then none else some (⟨error, handle⟩, f)

/-! ### The server -/

/-- What is exported, and the size of the data buffer. Offsets are those of `off_t`. -/
structure Export where
  size : ℕ
  devOffset : ℕ
  readonly : Bool
  dataSize : ℕ
  size_lt : size < 2 ^ 63
  devOffset_lt : devOffset < 2 ^ 63
  dataSize_lt : dataSize < 2 ^ 31

/-- What a call of `nbd_trip` leaves: its value, the reply and the data sent after it, the rest of
the input, the data buffer and the device, and the byte range it has given to the block layer with
the value that came back. -/
structure Trip where
  ret : ℤ
  reply : Option Reply
  payload : Stream
  input : Stream
  data : Bytes
  dev : BlockDevice
  access : Option (ℕ × ℕ × ℤ)

/-- The bytes sent to the client. -/
def Trip.output (t : Trip) : Stream :=
  match t.reply with
  | none => []
  | some r => nbdSendReply r ++ t.payload

/-- The request passes the checks on its length and its end, which are made in 64 bits. -/
def accepts (x : Export) (q : Request) : Bool :=
  !(decide (x.dataSize < q.len) || decide ((q.start + q.len) % 2 ^ 64 < q.start) ||
    decide (x.size < (q.start + q.len) % 2 ^ 64))

def Request.sector (x : Export) (q : Request) : ℕ := (q.start + x.devOffset) % 2 ^ 64 / 512

/-- The bytes that a client sends after a request to write. -/
def received (f : Stream) : Bytes := fun i => f.getD i 0

/-- The case `NBD_CMD_READ`. -/
def tripRead (x : Export) (q : Request) (d : BlockDevice) (data : Bytes) (f : Stream) (o : Outcome) : Trip :=
  let (ret, data) := bdrvRead d (q.sector x) data (q.len / 512) o
  let access := some (512 * q.sector x, 512 * (q.len / 512), ret)
  if ret = -1 then ⟨-1, none, [], f, data, d, access⟩
  else ⟨0, some ⟨0, q.handle⟩, (List.range q.len).map data, f, data, d, access⟩

/-- The case `NBD_CMD_WRITE`. -/
def tripWrite (x : Export) (q : Request) (d : BlockDevice) (data : Bytes) (f : Stream) (o : Outcome) : Trip :=
  let data := data.write 0 (min q.len f.length) (received f)
  if f.length < q.len then ⟨-1, none, [], [], data, d, none⟩
  else
    let f := f.drop q.len
    if x.readonly then ⟨0, some ⟨1, q.handle⟩, [], f, data, d, none⟩
    else
      let (ret, d) := bdrvWrite d (q.sector x) data (q.len / 512) o
      let access := some (512 * q.sector x, 512 * (q.len / 512), ret)
      if ret = -1 then ⟨-1, none, [], f, data, d, access⟩
      else ⟨0, some ⟨0, q.handle⟩, [], f, data, d, access⟩

def nbdTrip (x : Export) (d : BlockDevice) (data : Bytes) (input : Stream) (o : Outcome) : Trip :=
  match nbdReceiveRequest input with
  | none => ⟨-1, none, [], input, data, d, none⟩
  | some (q, f) =>
    if accepts x q then
      if q.type = nbdCmdRead then tripRead x q d data f o
      else if q.type = nbdCmdWrite then tripWrite x q d data f o
      else if q.type = nbdCmdDisc then ⟨1, none, [], f, data, d, none⟩
      else ⟨-1, none, [], f, data, d, none⟩
    else ⟨-1, none, [], f, data, d, none⟩

/-- The server: its device and its buffer, and for each connection whether it is open, what its
client has still to be asked and what it has been sent. -/
structure Server where
  dev : BlockDevice
  data : Bytes
  isOpen : ℕ → Bool
  input : ℕ → Stream
  output : ℕ → Stream

/-- A request of one of the connections, with what the driver does for it. -/
structure Event where
  conn : ℕ
  outcome : Outcome

def Server.trip (x : Export) (s : Server) (e : Event) : Trip :=
  nbdTrip x s.dev s.data (s.input e.conn) e.outcome

/-- One pass of the loop of `qemu-nbd` for a connection that is ready: a call that does not return
0 closes it. -/
def Server.step (x : Export) (s : Server) (e : Event) : Server :=
  if s.isOpen e.conn then
    let t := s.trip x e
    { dev := t.dev, data := t.data
      isOpen := Function.update s.isOpen e.conn (decide (t.ret = 0))
      input := Function.update s.input e.conn t.input
      output := Function.update s.output e.conn (s.output e.conn ++ t.output) }
  else s

end Ar7Qemu.Nbd
