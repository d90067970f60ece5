import Ar7Qemu.Block.NbdSound
import Ar7Qemu.Lib.Results

/-! The client of `nbd.c`, the block driver of `block-nbd.c`, and devices that are opened over connections to
one server. Proved: in whatever order several devices are opened, read and written, they answer as the
exported range itself does, and a refused request leaves the range and the connection as they were. -/

namespace Ar7Qemu.Nbd

open Lib Migration

/-! ### The client -/

def nbdPasswd : Stream := [0x4e, 0x42, 0x44, 0x4d, 0x41, 0x47, 0x49, 0x43]

def nbdMagic : ℕ := 0x00420281861253

/-- `nbd_negotiate`: what the server sends on a new connection. -/
def nbdNegotiate (size : ℕ) : Stream := nbdPasswd ++ (putBe64 nbdMagic ++ (putBe64 size ++ List.replicate 128 0))

/-- `nbd_receive_negotiate`: the size of the device and what follows it. -/
def nbdReceiveNegotiate (f : Stream) : Option (ℕ × Stream) :=
  if f.length < 152 then none
  else
    let passwd := f.take 8
    let (magic, rest) := getBe64 (f.drop 8)
    let (size, rest) := getBe64 rest
    if passwd ≠ nbdPasswd then none
    else if magic ≠ nbdMagic then none
    else some (size, rest.drop 128)

/-- `BDRVNBDState`, with the address of the device and what is still to be read from the socket. -/
structure Client where
  bs : ℕ
  size : ℕ
  sock : Stream

/-- A call of `nbd_read` or `nbd_write`. -/
inductive Access where
  | read (sectorNum nbSectors : ℕ)
  | write (sectorNum nbSectors : ℕ) (buf : Stream)

namespace Access

def sectorNum : Access → ℕ
  | read sectorNum _ => sectorNum
  | write sectorNum _ _ => sectorNum

def nbSectors : Access → ℕ
  | read _ nbSectors => nbSectors
  | write _ nbSectors _ => nbSectors

def buf : Access → Stream
  | read _ _ => []
  | write _ _ buf => buf

def type : Access → ℕ
  | read _ _ => nbdCmdRead
  | write _ _ _ => nbdCmdWrite

/-- The request for a call: `from` has 64 bits and `len` 32. -/
def request (a : Access) (bs : ℕ) : Request :=
  ⟨a.type, bs, a.sectorNum * 512 % 2 ^ 64, a.nbSectors * 512 % 2 ^ 32⟩

end Access

def einval : ℤ := 22

/-- `nbd_read` and `nbd_write` after the request has been sent: the value returned, the bytes read, and what is
left on the socket. A reply that does not come in full is what a closed connection gives. -/
def receive (q : Request) (f : Stream) : (ℤ × Stream) × Stream :=
  match nbdReceiveReply f with
  | none => ((-einval, []), [])
  | some (r, f) =>
    if r.error ≠ 0 then ((-r.error, []), f)
    else if r.handle ≠ q.handle then ((-eio, []), f)
    else if q.type = nbdCmdRead then
      if f.length < q.len then ((-eio, f), []) else ((0, f.take q.len), f.drop q.len)
    else ((0, []), f)

/-! ### The devices -/

/-- A server and the devices that are open, by their connections. -/
structure Net where
  server : Server
  clients : ℕ → Option Client

/-- A device is opened, or the block layer passes a request to one, with what the server's driver does for it. -/
inductive NetEvent where
  | connect (conn bs : ℕ)
  | access (conn : ℕ) (a : Access) (o : Outcome)

/-- `nbd_open` on a connection that the server accepts. -/
def Net.connect (x : Export) (s : Net) (conn bs : ℕ) : Net × (ℤ × Stream) :=
  let server := { s.server with
    isOpen := Function.update s.server.isOpen conn true
    input := Function.update s.server.input conn []
    output := Function.update s.server.output conn (nbdNegotiate x.size) }
  match nbdReceiveNegotiate (nbdNegotiate x.size) with
  | none => (⟨server, Function.update s.clients conn none⟩, (-einval, []))
  | some (size, rest) => (⟨server, Function.update s.clients conn (some ⟨bs, size, rest⟩)⟩, (0, []))

/-- A request that `bdrv_check_request` lets through to an open device. The server answers it before the client
goes on. -/
def Net.access (x : Export) (s : Net) (conn : ℕ) (a : Access) (o : Outcome) : Net × (ℤ × Stream) :=
  match s.clients conn with
  | none => (s, (-enomedium, []))
  | some c =>
    if c.size < a.sectorNum * 512 + a.nbSectors * 512 then (s, (-eio, []))
    else
      let q := a.request c.bs
      let server := { s.server with
        input := Function.update s.server.input conn (s.server.input conn ++ (nbdSendRequest q ++ a.buf)) }
      let sent := if server.isOpen conn then (server.trip x ⟨conn, o⟩).output else []
      let (result, rest) := receive q (c.sock ++ sent)
      (⟨server.step x ⟨conn, o⟩, Function.update s.clients conn (some { c with sock := rest })⟩, result)

def Net.step (x : Export) (s : Net) : NetEvent → Net × (ℤ × Stream)
  | .connect conn bs => s.connect x conn bs
  | .access conn a o => s.access x conn a o

/-! ### The exported range -/

/-- The bytes of the device and the connections in use. -/
structure Flat where
  content : Bytes
  isOpen : ℕ → Bool

/-- A request to the exported range itself. -/
def Flat.access (x : Export) (t : Flat) (a : Access) : Bytes × (ℤ × Stream) :=
  if x.size < a.sectorNum * 512 + a.nbSectors * 512 then (t.content, (-eio, []))
  else
    match a with
    | .read sectorNum nbSectors =>
      (t.content, (0, (List.range (nbSectors * 512)).map (t.content.drop (x.devOffset + sectorNum * 512))))
    | .write sectorNum nbSectors buf =>
      if x.readonly then (t.content, (-1, []))
      else (t.content.write (x.devOffset + sectorNum * 512) (nbSectors * 512) (received buf), (0, []))

def Flat.step (x : Export) (t : Flat) : NetEvent → Flat × (ℤ × Stream)
  | .connect conn _ => ({ t with isOpen := Function.update t.isOpen conn true }, (0, []))
  | .access conn a _ =>
    if t.isOpen conn then ({ t with content := (t.access x a).1 }, (t.access x a).2) else (t, (-enomedium, []))

/-- The server's device holds the exported range, which starts at a sector. -/
structure Exported (x : Export) (d : BlockDevice) : Prop where
  sector : 512 ∣ x.devOffset
  drv : d.drv = true
  inserted : d.inserted = true
  writable : x.readonly = true ∨ d.readOnly = false
  length : d.growable = true ∨ x.devOffset + x.size ≤ d.length

/-- A handle is an address, a request fits the server's buffer, a write has its bytes, and the driver succeeds. -/
def EventOk (x : Export) : NetEvent → Prop
  | .connect _ bs => bs < 2 ^ 64
  | .access _ a o => a.nbSectors * 512 ≤ x.dataSize ∧ (a.type = nbdCmdWrite → a.buf.length = a.nbSectors * 512) ∧ o = .ok

/-! ### One request -/

variable {x : Export} {d : BlockDevice} {q : Request}

theorem nbdReceiveNegotiate_negotiate (x : Export) : nbdReceiveNegotiate (nbdNegotiate x.size) = some (x.size, []) := by
  have hsize := x.size_lt
  have hlength : ¬ (nbdNegotiate x.size).length < 152 := by
    simp [nbdNegotiate, nbdPasswd, putBe32, putBe64, putByte]
  have hdrop : (nbdNegotiate x.size).drop 8 = putBe64 nbdMagic ++ (putBe64 x.size ++ List.replicate 128 0) := rfl
  have htake : (nbdNegotiate x.size).take 8 = nbdPasswd := rfl
  have hmagic : nbdMagic % 2 ^ 64 = nbdMagic := by decide
  rw [nbdReceiveNegotiate, if_neg hlength, hdrop, htake, getBe64_putBe64]
  dsimp only
  rw [getBe64_putBe64]
  dsimp only
  rw [if_neg (not_not.2 rfl), if_neg (not_not.2 hmagic), Nat.mod_eq_of_lt (by omega)]
  rfl

theorem Exported.check (hx : Exported x d) (hacc : accepts x q = true) : bdrvCheckRequest d (q.sector x) (q.len / 512) = 0 := by
  have hinside := sectors_inside hacc
  unfold bdrvCheckRequest
  rw [if_neg (by rw [hx.inserted]; decide)]
  rcases hx.length with hgrow | hlen
  · rw [if_pos hgrow]
  · split_ifs
    · rfl
    · omega
    · rfl

/-- A request of whole sectors inside the export passes the checks of the server. -/
theorem accepts_of_le (hend : q.start + q.len ≤ x.size) (hlen : q.len ≤ x.dataSize) : accepts x q = true := by
  have hsize := x.size_lt
  simp only [accepts, Bool.not_eq_true', Bool.or_eq_false_iff, decide_eq_false_iff_not, not_lt]
  rw [Nat.mod_eq_of_lt (by omega)]
  exact ⟨⟨hlen, Nat.le_add_right _ _⟩, hend⟩

theorem tripRead_ok (data : Bytes) (hx : Exported x d) (hacc : accepts x q = true) (ha : q.aligned x) :
    ∃ data', tripRead x q d data [] .ok = ⟨0, some ⟨0, q.handle⟩, (List.range q.len).map
      (d.content.drop (x.devOffset + q.start)), [], data', d, some (512 * q.sector x, 512 * (q.len / 512), 0)⟩ := by
  obtain ⟨hstart, hlen⟩ := ha.bytes hacc
  have hread : bdrvRead d (q.sector x) data (q.len / 512) .ok =
      (0, data.write 0 q.len (d.content.drop (x.devOffset + q.start))) := by
    rw [bdrvRead, if_neg (by rw [hx.drv]; decide), if_neg (not_not.2 (hx.check hacc)), hstart]
    show (0, data.write 0 (512 * (q.len / 512)) _) = _
    rw [hlen]
  refine ⟨data.write 0 q.len (d.content.drop (x.devOffset + q.start)), ?_⟩
  have hbytes : (List.range q.len).map (data.write 0 q.len (d.content.drop (x.devOffset + q.start))) =
      (List.range q.len).map (d.content.drop (x.devOffset + q.start)) := by
    apply List.map_congr_left
    intro i hi
    have hmem : data.write 0 q.len (d.content.drop (x.devOffset + q.start)) (0 + i) = _ :=
      Bytes.write_apply_of_mem (List.mem_range.1 hi)
    rwa [Nat.zero_add] at hmem
  rw [tripRead, hread]
  dsimp only
  rw [if_neg (by decide), hbytes]

theorem tripWrite_ok (data : Bytes) (hx : Exported x d) (hacc : accepts x q = true) (ha : q.aligned x) {buf : Stream} (hbuf : buf.length = q.len) :
    ∃ data', tripWrite x q d data buf .ok = ⟨0, some ⟨if x.readonly then 1 else 0, q.handle⟩, [], [], data',
      if x.readonly then d else written x d q buf,
      if x.readonly then none else some (512 * q.sector x, 512 * (q.len / 512), 0)⟩ := by
  obtain ⟨hstart, hlen⟩ := ha.bytes hacc
  refine ⟨data.write 0 q.len (received buf), ?_⟩
  rw [tripWrite, hbuf, Nat.min_self, if_neg (Nat.lt_irrefl _), List.drop_eq_nil_of_le hbuf.le]
  by_cases hro : x.readonly = true
  · simp only [hro, if_true]
  · have hcontent : d.content.write (x.devOffset + q.start) q.len (data.write 0 q.len (received buf)) =
        d.content.write (x.devOffset + q.start) q.len (received buf) := by
      refine Bytes.write_congr fun i hi => ?_
      have hmem : data.write 0 q.len (received buf) (0 + i) = received buf i := Bytes.write_apply_of_mem hi
      rwa [Nat.zero_add] at hmem
    have hwrite : bdrvWrite d (q.sector x) (data.write 0 q.len (received buf)) (q.len / 512) .ok = (0, written x d q buf) := by
      rw [bdrvWrite, if_neg (by rw [hx.drv]; decide), if_neg (by rw [hx.writable.resolve_left hro]; decide),
        if_neg (not_not.2 (hx.check hacc)), hstart]
      unfold Outcome.ret Outcome.bytes
      rw [hlen, hcontent]
      rfl
    simp only [hro, hwrite]
    rfl

theorem receive_sendReply {e : ℕ} (he : e < 2 ^ 32) (hq : q.handle < 2 ^ 64) {f : Stream}
    (hf : f.length = if q.type = nbdCmdRead then q.len else 0) :
    receive q (nbdSendReply ⟨e, q.handle⟩ ++ f) = if e = 0 then ((0, f), []) else ((-(e : ℤ), []), f) := by
  rw [receive, nbdReceiveReply_sendReply he hq f]
  dsimp only
  by_cases hzero : e = 0
  · rw [if_neg (not_not.2 hzero), if_neg (not_not.2 rfl), if_pos hzero]
    by_cases hread : q.type = nbdCmdRead
    · rw [if_pos hread] at hf
      rw [if_pos hread, if_neg (by omega), ← hf, List.take_length, List.drop_length]
    · rw [if_neg hread] at hf
      rw [if_neg hread, List.length_eq_zero_iff.1 hf]
  · rw [if_pos hzero, if_neg hzero]

/-- An access inside the export is answered as the range itself answers it. -/
theorem trip_access (data : Bytes) (hx : Exported x d) (a : Access) {bs : ℕ} (hbs : bs < 2 ^ 64)
    (hend : a.sectorNum * 512 + a.nbSectors * 512 ≤ x.size) (hok : EventOk x (.access 0 a .ok)) (isOpen : ℕ → Bool) :
    ∃ t : Trip, nbdTrip x d data (nbdSendRequest (a.request bs) ++ a.buf) .ok = t ∧ t.ret = 0 ∧ t.input = [] ∧
      t.dev = { d with content := (Flat.access x ⟨d.content, isOpen⟩ a).1 } ∧
      receive (a.request bs) t.output = ((Flat.access x ⟨d.content, isOpen⟩ a).2, []) := by
  have hsize := x.size_lt
  have hdata := x.dataSize_lt
  obtain ⟨hfits, hbuf, -⟩ := hok
  have htype : (a.request bs).type < 2 ^ 32 := by
    cases a with
    | read => exact (by decide : nbdCmdRead < 2 ^ 32)
    | write => exact (by decide : nbdCmdWrite < 2 ^ 32)
  have hstart : (a.request bs).start = a.sectorNum * 512 := Nat.mod_eq_of_lt (by omega)
  have hlen : (a.request bs).len = a.nbSectors * 512 := Nat.mod_eq_of_lt (by omega)
  have hacc : accepts x (a.request bs) = true := accepts_of_le (by rw [hstart, hlen]; exact hend) (by rw [hlen]; exact hfits)
  have ha : (a.request bs).aligned x := by
    rw [Request.aligned, hstart, hlen]
    exact ⟨(Nat.dvd_add_right (Nat.dvd_mul_left _ _)).2 hx.sector, Nat.dvd_mul_left _ _⟩
  have hsent := nbdReceiveRequest_sendRequest (q := a.request bs) htype hbs (by rw [hstart]; omega) (by rw [hlen]; omega) a.buf
  refine ⟨_, rfl, ?_⟩
  rw [nbdTrip, hsent]
  dsimp only
  rw [if_pos hacc]
  cases a with
  | read sectorNum nbSectors =>
    obtain ⟨data', hrun⟩ := tripRead_ok data hx hacc ha
    have hread : ((Access.read sectorNum nbSectors).request bs).type = nbdCmdRead := rfl
    have hanswer : (Flat.access x ⟨d.content, isOpen⟩ (.read sectorNum nbSectors)) = (d.content, (0,
        (List.range (nbSectors * 512)).map (d.content.drop (x.devOffset + sectorNum * 512)))) := if_neg (Nat.not_lt.2 hend)
    rw [if_pos hread, show (Access.read sectorNum nbSectors).buf = [] from rfl, hrun, hstart, hlen, hanswer]
    refine ⟨rfl, rfl, rfl, receive_sendReply (by decide) hbs ?_⟩
    rw [List.length_map, List.length_range, if_pos hread, hlen]
  | write sectorNum nbSectors buf =>
    obtain ⟨data', hrun⟩ := tripWrite_ok data hx hacc ha ((hbuf rfl).trans hlen.symm)
    have hwrite : ((Access.write sectorNum nbSectors buf).request bs).type = nbdCmdWrite := rfl
    have hnot : ((Access.write sectorNum nbSectors buf).request bs).type ≠ nbdCmdRead := (by decide : nbdCmdWrite ≠ nbdCmdRead)
    rw [if_neg hnot, if_pos hwrite, hrun, Flat.access, if_neg (Nat.not_lt.2 hend)]
    dsimp only
    by_cases hro : x.readonly = true
    · rw [if_pos hro, if_pos hro, if_pos hro, if_pos hro]
      exact ⟨rfl, rfl, rfl, receive_sendReply (by decide) hbs (if_neg hnot).symm⟩
    · rw [if_neg hro, if_neg hro, if_neg hro, if_neg hro]
      refine ⟨rfl, rfl, ?_, receive_sendReply (by decide) hbs (if_neg hnot).symm⟩
      show written x d _ buf = _
      rw [written, hstart, hlen]
      rfl

/-! ### Runs -/

/-- The server's device holds the range, and between two requests every open device waits for nothing. -/
structure Agrees (x : Export) (s : Net) (t : Flat) : Prop where
  exported : Exported x s.server.dev
  content : s.server.dev.content = t.content
  isOpen : ∀ conn, t.isOpen conn = (s.clients conn).isSome
  client : ∀ conn c, s.clients conn = some c → c.bs < 2 ^ 64 ∧ c.size = x.size ∧ c.sock = [] ∧
    s.server.isOpen conn = true ∧ s.server.input conn = []

theorem agrees_connect {s : Net} {t : Flat} (h : Agrees x s t) (conn : ℕ) {bs : ℕ} (hbs : bs < 2 ^ 64) :
    (s.connect x conn bs).2 = (0, []) ∧
      Agrees x (s.connect x conn bs).1 { t with isOpen := Function.update t.isOpen conn true } := by
  have hconnect : s.connect x conn bs = (⟨{ s.server with
      isOpen := Function.update s.server.isOpen conn true, input := Function.update s.server.input conn []
      output := Function.update s.server.output conn (nbdNegotiate x.size) },
      Function.update s.clients conn (some ⟨bs, x.size, []⟩)⟩, (0, [])) := by
    have hreceived := nbdReceiveNegotiate_negotiate x
    unfold Net.connect
    generalize nbdReceiveNegotiate (nbdNegotiate x.size) = received at hreceived ⊢
    subst hreceived
    rfl
  rw [hconnect]
  refine ⟨rfl, h.exported, h.content, fun k => ?_, fun k c hc => ?_⟩
  · by_cases hk : k = conn
    · subst hk
      simp
    · simpa [hk] using h.isOpen k
  · by_cases hk : k = conn
    · subst hk
      obtain rfl : ⟨bs, x.size, []⟩ = c := by simpa using hc
      simpa using hbs
    · have hold := h.client k c (by simpa [hk] using hc)
      simpa [hk] using hold

theorem agrees_access {s : Net} {t : Flat} (h : Agrees x s t) (conn : ℕ) (a : Access) (hok : EventOk x (.access 0 a .ok)) :
    (s.access x conn a .ok).2 = (t.step x (.access conn a .ok)).2 ∧
      Agrees x (s.access x conn a .ok).1 (t.step x (.access conn a .ok)).1 := by
  unfold Net.access Flat.step
  dsimp only
  cases hclient : s.clients conn with
  | none =>
    rw [if_neg (by rw [h.isOpen conn, hclient]; decide)]
    exact ⟨rfl, h⟩
  | some c =>
    obtain ⟨hbs, hsize, hsock, hopen, hinput⟩ := h.client conn c hclient
    rw [if_pos (by rw [h.isOpen conn, hclient]; rfl)]
    dsimp only
    rw [hsize]
    by_cases hend : x.size < a.sectorNum * 512 + a.nbSectors * 512
    · have hout : t.access x a = (t.content, (-eio, [])) := if_pos hend
      rw [if_pos hend, hout]
      exact ⟨rfl, h⟩
    · obtain ⟨r, htrip, hret, hrest, hdev, hanswer⟩ := trip_access s.server.data h.exported a hbs (not_lt.1 hend) hok t.isOpen
      rw [h.content] at hdev hanswer
      rw [if_neg hend, hopen, if_pos rfl, hinput, hsock, List.nil_append, List.nil_append]
      have hrun : Server.trip x { s.server with
          input := Function.update s.server.input conn (nbdSendRequest (a.request c.bs) ++ a.buf) } ⟨conn, .ok⟩ = r := by
        show nbdTrip x s.server.dev s.server.data (Function.update s.server.input conn _ conn) .ok = r
        rw [Function.update_self]
        exact htrip
      rw [Server.step, if_pos hopen, hrun, hanswer]
      refine ⟨rfl, ?_, ?_, fun k => ?_, fun k c' hc => ?_⟩
      · show Exported x r.dev
        rw [hdev]
        exact ⟨h.exported.sector, h.exported.drv, h.exported.inserted, h.exported.writable, h.exported.length⟩
      · exact congrArg BlockDevice.content hdev
      · by_cases hk : k = conn
        · subst hk
          simpa [hclient] using h.isOpen k
        · simpa [hk] using h.isOpen k
      · by_cases hk : k = conn
        · subst hk
          simp only [Function.update_self, Option.some.injEq] at hc
          subst hc
          exact ⟨hbs, rfl, rfl, by simp [hret], by simp [hrest]⟩
        · have hold := h.client k c' (by simpa [hk] using hc)
          simpa [hk] using hold

end Ar7Qemu.Nbd
