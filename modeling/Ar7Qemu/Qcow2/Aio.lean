import Ar7Qemu.Qcow2.Io

/-! The asynchronous requests of `block-qcow2.c`. A request is a control block
that a callback advances by one run of clusters at a time: each call either
finishes the request or leaves one lower-level request or a bottom half pending.
What the layer below answers to a submission is an argument of the call. -/

namespace Ar7Qemu.Qcow2

open Lib Block

/-- `QCowAIOCB`. `buf` is the whole request buffer and `pos` the number of its
sectors that are done. -/
structure QCowAIOCB where
  sectorNum : ℕ
  nbSectors : ℕ
  n : ℕ
  clusterOffset : ℕ
  l2meta : QCowL2Meta
  buf : Bytes
  pos : ℕ

/-- What a callback leaves behind. -/
inductive AioNext where
  /-- The completion callback was invoked with `ret` and the block released. -/
  | done (ret : ℤ)
  /-- A bottom half will call back with 0. -/
  | bh
  /-- `bdrv_aio_readv` on the backing file. -/
  | readBacking (sectorNum n : ℕ)
  /-- `bdrv_aio_readv` on the image file. -/
  | readHd (sectorNum n : ℕ)
  /-- `bdrv_aio_writev` on the image file. -/
  | writeHd (sectorNum n : ℕ) (data : Bytes)

def qcowAioSetup (sectorNum nbSectors : ℕ) (buf : Bytes) : QCowAIOCB where
  sectorNum
  nbSectors
  n := 0
  clusterOffset := 0
  l2meta := ⟨0, 0, 0, 0⟩
  buf
  pos := 0

namespace QCowAIOCB

/-- Replace the next `n` sectors of the buffer. -/
def put (acb : QCowAIOCB) (n : ℕ) (d : Bytes) : QCowAIOCB :=
  { acb with buf := acb.buf.write (512 * acb.pos) (512 * n) d }

/-- `acb->buf`. -/
def cur (acb : QCowAIOCB) : Bytes := acb.buf.drop (512 * acb.pos)

/-- Step over the `n` sectors of the finished run. -/
def advance (acb : QCowAIOCB) : QCowAIOCB :=
  { acb with
    nbSectors := acb.nbSectors - acb.n
    sectorNum := acb.sectorNum + acb.n
    pos := acb.pos + acb.n }

end QCowAIOCB

/-- The post-processing of a finished run in `qcow_aio_read_cb`. -/
def aioPostRead (s : BDRVQcowState) (acb : QCowAIOCB) : QCowAIOCB :=
  if acb.clusterOffset = 0 then acb
  else if isCompressed acb.clusterOffset then acb
  else if s.cryptMethod ≠ 0 then
    acb.put acb.n (encryptSectors s.codec.decrypt acb.sectorNum acb.cur)
  else acb

/-- A request whose submission the layer below refused ends with the value `ret`
has at that point. -/
def submitted (accepted : Bool) (ret : ℤ) (next : AioNext) : AioNext :=
  if accepted then next else .done ret

/-- The second half of `qcow_aio_read_cb`: look the next run up and start it.
`ret` is the value of the variable of that name; `accepted` is the answer to the
submission or to the scheduling of a bottom half. -/
def aioReadNext (acb : QCowAIOCB) (ret : ℤ) (accepted : Bool) : Qcow (QCowAIOCB × AioNext) := do
  let s ← get
  let (clusterOffset, n) ← getClusterOffset (acb.sectorNum * 512) acb.nbSectors
  let acb := { acb with clusterOffset, n }
  let indexInCluster := acb.sectorNum % s.clusterSectors
  if clusterOffset = 0 then
    match s.backingHd with
    | none =>
      let acb := acb.put n fun _ => 0
      return (acb, submitted accepted (-eio) .bh)
    | some f =>
      let n1 := backingRead1 (backingSectors f) acb.sectorNum n
      let cleared := acb.buf.write (512 * (acb.pos + n1)) (512 * (n - n1)) fun _ => 0
      let acb := { acb with buf := cleared }
      if n1 = 0 then return (acb, submitted accepted (-eio) .bh)
      else
        -- the whole run is requested, and refused when it passes the end
        let fits : Bool := (acb.sectorNum + n) * 512 ≤ f.len
        return (acb, submitted (fits && accepted) ret (.readBacking acb.sectorNum n))
  else if isCompressed clusterOffset then
    if !(← decompressCluster clusterOffset) then return (acb, .done ret)
    let acb := acb.put n ((← get).clusterCache.drop (indexInCluster * 512))
    return (acb, submitted accepted (-eio) .bh)
  else if clusterOffset % 512 ≠ 0 then return (acb, .done (-eio))
  else
    return (acb, submitted accepted ret (.readHd (clusterOffset / 512 + indexInCluster) n))

def qcowAioReadCb (acb : QCowAIOCB) (ret : ℤ) (accepted : Bool) : Qcow (QCowAIOCB × AioNext) := do
  if ret < 0 then return (acb, .done ret)
  let acb := (aioPostRead (← get) acb).advance
  if acb.nbSectors = 0 then return (acb, .done 0)
  aioReadNext acb ret accepted

def qcowAioWriteCb (acb : QCowAIOCB) (ret : ℤ) (accepted : Bool) : Qcow (QCowAIOCB × AioNext) := do
  if ret < 0 then return (acb, .done ret)
  if !(← allocClusterLinkL2 acb.clusterOffset acb.l2meta) then
    freeAnyClusters acb.clusterOffset acb.l2meta.nbClusters
    return (acb, .done ret)
  let acb := acb.advance
  if acb.nbSectors = 0 then return (acb, .done 0)
  let s ← get
  let indexInCluster := acb.sectorNum % s.clusterSectors
  let nEnd := writeEnd s acb.sectorNum acb.nbSectors
  let (clusterOffset, n, m) ←
    allocClusterOffset (acb.sectorNum * 512) indexInCluster nEnd acb.l2meta
  let acb := { acb with clusterOffset, n, l2meta := m }
  if clusterOffset = 0 ∨ clusterOffset % 512 ≠ 0 then return (acb, .done (-eio))
  return (acb, submitted accepted ret
    (.writeHd (clusterOffset / 512 + indexInCluster) n (storedSectors s acb.sectorNum acb.cur)))

/-- `qcow_aio_readv`: the first call of the callback. -/
def qcowAioReadv (sectorNum nbSectors : ℕ) (buf : Bytes) (accepted : Bool) :
    Qcow (QCowAIOCB × AioNext) :=
  qcowAioReadCb (qcowAioSetup sectorNum nbSectors buf) 0 accepted

def qcowAioWritev (sectorNum nbSectors : ℕ) (buf : Bytes) (accepted : Bool) :
    Qcow (QCowAIOCB × AioNext) := do
  modify fun s => { s with clusterCacheOffset := noOffset }
  qcowAioWriteCb (qcowAioSetup sectorNum nbSectors buf) 0 accepted

/-! ### Whole requests -/

/-- The host side of a pending read: whether it succeeds and what it leaves in
the rest of the buffer. -/
def aioPerform (next : AioNext) (cur : Bytes) : Qcow (Bool × Bytes) := do
  match next with
  | .readHd sectorNum n => pread (sectorNum * 512) (n * 512) cur
  | .readBacking sectorNum n =>
    match (← get).backingHd with
    | none => return (false, cur)
    | some f => backingRead f sectorNum n cur
  | _ => return (true, cur)

/-- The events of a read request in turn, until its completion callback: the
pending host request or bottom half ends, and the callback runs. `accept` gives
the answers to the submissions. The request returns what the completion callback
is invoked with. -/
def aioReadEvents (accept : ℕ → Bool) : ℕ → QCowAIOCB → AioNext → Qcow (QCowAIOCB × Option ℤ)
  | _, acb, .done ret => return (acb, some ret)
  | 0, acb, _ => return (acb, none)
  | fuel + 1, acb, next => do
    let (ok, d) ← aioPerform next acb.cur
    let (acb, next) ← qcowAioReadCb (acb.put acb.n d) (if ok then 0 else -eio) (accept fuel)
    aioReadEvents accept fuel acb next

def aioRead (accept : ℕ → Bool) (sectorNum nbSectors : ℕ) (buf : Bytes) :
    Qcow (QCowAIOCB × Option ℤ) := do
  let (acb, next) ← qcowAioReadv sectorNum nbSectors buf (accept nbSectors)
  aioReadEvents accept nbSectors acb next

end Ar7Qemu.Qcow2
