import Ar7Qemu.Block.Nbd

/-! A request that is answered without an error has been served exactly, as long as the requests
are whole sectors and the block layer reports a failure only by the one value that the server looks
for. -/

namespace Ar7Qemu.Nbd

open Lib Migration

/-! ### Messages -/

theorem nbdReceiveRequest_sendRequest {q : Request} (htype : q.type < 2 ^ 32) (hhandle : q.handle < 2 ^ 64)
    (hstart : q.start < 2 ^ 64) (hlen : q.len < 2 ^ 32) (f : Stream) :
    nbdReceiveRequest (nbdSendRequest q ++ f) = some (q, f) := by
  have hlength : ¬ (nbdSendRequest q ++ f).length < 28 := by
    simp [nbdSendRequest, putBe32, putBe64, putByte]
  rw [nbdReceiveRequest, if_neg hlength]
  simp only [nbdSendRequest, List.append_assoc, getBe32_putBe32, getBe64_putBe64]
  rw [if_neg (by decide), Nat.mod_eq_of_lt htype, Nat.mod_eq_of_lt hhandle, Nat.mod_eq_of_lt hstart,
    Nat.mod_eq_of_lt hlen]

theorem nbdReceiveReply_sendReply {r : Reply} (herror : r.error < 2 ^ 32) (hhandle : r.handle < 2 ^ 64) (f : Stream) :
    nbdReceiveReply (nbdSendReply r ++ f) = some (r, f) := by
  have hlength : ¬ (nbdSendReply r ++ f).length < 16 := by
    simp [nbdSendReply, putBe32, putBe64, putByte]
  rw [nbdReceiveReply, if_neg hlength]
  simp only [nbdSendReply, List.append_assoc, getBe32_putBe32, getBe64_putBe64]
  rw [if_neg (by decide), Nat.mod_eq_of_lt herror, Nat.mod_eq_of_lt hhandle]

/-! ### The property and the condition -/

section
variable (x : Export)

/-- The device after the bytes of a request have been replaced by those received. -/
def written (d : BlockDevice) (q : Request) (f : Stream) : BlockDevice :=
  { d with content := d.content.write (x.devOffset + q.start) q.len (received f) }

/-- A request has been served as asked. What the server does is compared with the device as it was
before the call. -/
structure Served (d : BlockDevice) (q : Request) (f : Stream) (t : Trip) : Prop where
  handle : ∀ r ∈ t.reply, r.handle = q.handle
  read : q.type = nbdCmdRead → ∀ r ∈ t.reply, r.error = 0 →
    t.payload = (List.range q.len).map (d.content.drop (x.devOffset + q.start))
  write : q.type = nbdCmdWrite → ∀ r ∈ t.reply, r.error = 0 → t.dev = written x d q f
  refused : q.type = nbdCmdWrite → (∀ r ∈ t.reply, r.error ≠ 0) → t.dev = d
  failed : q.type = nbdCmdWrite → (x.readonly = true ∨ ∃ a ∈ t.access, a.2.2 < 0) → ∀ r ∈ t.reply, r.error ≠ 0
  other : q.type ≠ nbdCmdWrite → t.dev = d
  inside : ∀ a ∈ t.access, a.1 + a.2.1 ≤ x.devOffset + x.size
  payload : q.type ≠ nbdCmdRead → t.payload = []

/-- A call of `nbd_trip` serves the request it receives, or receives none and does nothing. -/
def TripRight (d : BlockDevice) (input : Stream) (t : Trip) : Prop :=
  match nbdReceiveRequest input with
  | none => t.reply = none ∧ t.dev = d ∧ t.access = none
  | some (q, f) => Served x d q f t

/-- The request begins and ends at a sector of the device. -/
def Request.aligned (q : Request) : Prop := 512 ∣ q.start + x.devOffset ∧ 512 ∣ q.len

/-- A read is of whole sectors or of nothing, and the block layer returns 0 or -1. -/
def ReadSafe (q : Request) (d : BlockDevice) (data : Bytes) (o : Outcome) : Prop :=
  (bdrvRead d (q.sector x) data (q.len / 512) o).1 = -1 ∨ q.len = 0 ∨
    ((bdrvRead d (q.sector x) data (q.len / 512) o).1 = 0 ∧ q.aligned x)

/-- A write does not get to the block layer, or is of whole sectors or of nothing and succeeds, or
returns -1 and has changed nothing. -/
def WriteSafe (q : Request) (d : BlockDevice) (data : Bytes) (f : Stream) (o : Outcome) : Prop :=
  x.readonly = true ∨ f.length < q.len ∨
    ((bdrvWrite d (q.sector x) data (q.len / 512) o).1 = -1 ∧ (bdrvWrite d (q.sector x) data (q.len / 512) o).2 = d) ∨
    ((bdrvWrite d (q.sector x) data (q.len / 512) o).1 = 0 ∧ (q.len = 0 ∨ q.aligned x))

/-- The condition on a call of `nbd_trip`. -/
def TripSafe (d : BlockDevice) (data : Bytes) (input : Stream) (o : Outcome) : Prop :=
  ∀ q f, nbdReceiveRequest input = some (q, f) → accepts x q = true →
    (q.type = nbdCmdRead → ReadSafe x q d data o) ∧
    (q.type = nbdCmdWrite → WriteSafe x q d (data.write 0 (min q.len f.length) (received f)) f o)

/-! ### One call -/

variable {x} {q : Request} {d : BlockDevice} {data : Bytes} {f : Stream} {o : Outcome}

theorem accepts_spec (h : accepts x q = true) :
    q.start + q.len ≤ x.size ∧ q.sector x = (q.start + x.devOffset) / 512 := by
  have hsize := x.size_lt
  have hdata := x.dataSize_lt
  have hoffset := x.devOffset_lt
  simp only [accepts, Bool.not_eq_true', Bool.or_eq_false_iff, decide_eq_false_iff_not, not_lt] at h
  obtain ⟨⟨hlen, hstart⟩, hend⟩ := h
  have hsum : q.start + q.len < 2 ^ 64 := by omega
  rw [Nat.mod_eq_of_lt hsum] at hend
  refine ⟨hend, ?_⟩
  rw [Request.sector, Nat.mod_eq_of_lt (by omega)]

theorem sectors_inside (h : accepts x q = true) :
    512 * q.sector x + 512 * (q.len / 512) ≤ x.devOffset + x.size := by
  obtain ⟨hend, hsector⟩ := accepts_spec h
  rw [hsector]
  omega

theorem Request.aligned.bytes (ha : q.aligned x) (h : accepts x q = true) :
    512 * q.sector x = x.devOffset + q.start ∧ 512 * (q.len / 512) = q.len := by
  obtain ⟨hstart, hlen⟩ := ha
  rw [(accepts_spec h).2, Nat.mul_div_cancel' hstart, Nat.mul_div_cancel' hlen]
  exact ⟨Nat.add_comm _ _, rfl⟩

theorem bdrvRead_ok {sectorNum nbSectors : ℕ} (h : (bdrvRead d sectorNum data nbSectors o).1 = 0) :
    (bdrvRead d sectorNum data nbSectors o).2 = data.write 0 (512 * nbSectors) (d.content.drop (512 * sectorNum)) := by
  unfold bdrvRead at h ⊢
  split_ifs at h ⊢
  · cases h
  · cases h
  · cases o with
    | ok => rfl
    | fail code done => cases h

theorem bdrvWrite_ok {sectorNum nbSectors : ℕ} (h : (bdrvWrite d sectorNum data nbSectors o).1 = 0) :
    (bdrvWrite d sectorNum data nbSectors o).2 =
      { d with content := d.content.write (512 * sectorNum) (512 * nbSectors) data } := by
  unfold bdrvWrite at h ⊢
  split_ifs at h ⊢
  · cases h
  · cases h
  · cases h
  · cases o with
    | ok => rfl
    | fail code done => cases h

theorem served_silent {t : Trip} (hreply : t.reply = none) (hdev : t.dev = d) (hpayload : t.payload = [])
    (haccess : ∀ a ∈ t.access, a.1 + a.2.1 ≤ x.devOffset + x.size) : Served x d q f t where
  handle := by simp [hreply]
  read := by simp [hreply]
  write := by simp [hreply]
  refused _ _ := hdev
  failed := by simp [hreply]
  other _ := hdev
  inside := haccess
  payload _ := hpayload

theorem served_read (hq : q.type = nbdCmdRead) (h : accepts x q = true) (hsafe : ReadSafe x q d data o) :
    Served x d q f (tripRead x q d data f o) := by
  have hnotWrite : q.type ≠ nbdCmdWrite := by
    rw [hq]
    decide
  have hinside := sectors_inside h
  unfold ReadSafe at hsafe
  unfold tripRead
  cases hread : bdrvRead d (q.sector x) data (q.len / 512) o with
  | mk ret data' =>
    have hok := @bdrvRead_ok d data o (q.sector x) (q.len / 512)
    rw [hread] at hsafe hok
    dsimp only at hsafe hok ⊢
    by_cases hret : ret = -1
    · rw [if_pos hret]
      exact served_silent rfl rfl rfl (by simpa using hinside)
    · rw [if_neg hret]
      refine ⟨by simp, fun _ _ _ _ => ?_, fun hw => absurd hw hnotWrite, fun hw => absurd hw hnotWrite,
        fun hw => absurd hw hnotWrite, fun _ => rfl, by simpa using hinside, fun hr => absurd hq hr⟩
      rcases hsafe with hminus | hzero | ⟨hret0, ha⟩
      · exact absurd hminus hret
      · simp [hzero]
      · obtain ⟨hstart, hlen⟩ := ha.bytes h
        rw [hok hret0, hstart, hlen]
        apply List.map_congr_left
        intro i hi
        have hmem : data.write 0 q.len (d.content.drop (x.devOffset + q.start)) (0 + i) = _ :=
          Bytes.write_apply_of_mem (List.mem_range.1 hi)
        rwa [Nat.zero_add] at hmem

theorem served_write (hq : q.type = nbdCmdWrite) (h : accepts x q = true)
    (hsafe : WriteSafe x q d (data.write 0 (min q.len f.length) (received f)) f o) :
    Served x d q f (tripWrite x q d data f o) := by
  have hnotRead : q.type ≠ nbdCmdRead := by
    rw [hq]
    decide
  have hinside := sectors_inside h
  unfold WriteSafe at hsafe
  unfold tripWrite
  dsimp only
  by_cases hshort : f.length < q.len
  · rw [if_pos hshort]
    exact served_silent rfl rfl rfl (by simp)
  rw [if_neg hshort]
  by_cases hro : x.readonly = true
  · rw [if_pos hro]
    exact ⟨by simp, fun hr => absurd hr hnotRead, by simp, fun _ _ => rfl, by simp,
      fun hw => absurd hq hw, by simp, fun _ => rfl⟩
  rw [if_neg hro]
  have hdata : ∀ i < q.len, data.write 0 (min q.len f.length) (received f) i = received f i := by
    intro i hi
    have hmem : data.write 0 (min q.len f.length) (received f) (0 + i) = received f i :=
      Bytes.write_apply_of_mem (by omega)
    rwa [Nat.zero_add] at hmem
  generalize data.write 0 (min q.len f.length) (received f) = data' at hsafe hdata ⊢
  cases hwrite : bdrvWrite d (q.sector x) data' (q.len / 512) o with
  | mk ret d' =>
    have hok := @bdrvWrite_ok d data' o (q.sector x) (q.len / 512)
    rw [hwrite] at hsafe hok
    dsimp only at hsafe hok ⊢
    by_cases hret : ret = -1
    · rw [if_pos hret]
      rcases hsafe with hro' | hshort' | ⟨-, hsame⟩ | ⟨hret0, -⟩
      · exact absurd hro' hro
      · exact absurd hshort' hshort
      · exact served_silent rfl hsame rfl (by simpa using hinside)
      · omega
    · rw [if_neg hret]
      rcases hsafe with hro' | hshort' | ⟨hminus, -⟩ | ⟨hret0, ha⟩
      · exact absurd hro' hro
      · exact absurd hshort' hshort
      · exact absurd hminus hret
      · refine ⟨by simp, fun hr => absurd hr hnotRead, fun _ _ _ _ => ?_, by simp, ?_, fun hw => absurd hq hw,
          by simpa using hinside, fun _ => rfl⟩
        · rw [hok hret0, written]
          rcases ha with hzero | ha
          · simp [hzero, Bytes.write_zero]
          · obtain ⟨hstart, hlen⟩ := ha.bytes h
            rw [hstart, hlen, Bytes.write_congr hdata]
        · rintro - (hro' | ⟨a, ha', hneg⟩)
          · exact absurd hro' hro
          · simp only [Option.mem_def, Option.some.injEq] at ha'
            subst ha'
            dsimp only at hneg
            omega

/-- A call that meets its condition is right. -/
theorem nbdTrip_right {input : Stream} (hsafe : TripSafe x d data input o) :
    TripRight x d input (nbdTrip x d data input o) := by
  unfold TripRight nbdTrip
  cases hreceive : nbdReceiveRequest input with
  | none => exact ⟨rfl, rfl, rfl⟩
  | some qf =>
    obtain ⟨q, f⟩ := qf
    dsimp only
    by_cases hacc : accepts x q = true
    · obtain ⟨hread, hwrite⟩ := hsafe q f hreceive hacc
      rw [if_pos hacc]
      split_ifs with h₁ h₂ h₃
      · exact served_read h₁ hacc (hread h₁)
      · exact served_write h₂ hacc (hwrite h₂)
      · exact served_silent rfl rfl rfl (by simp)
      · exact served_silent rfl rfl rfl (by simp)
    · rw [if_neg hacc]
      exact served_silent rfl rfl rfl (by simp)

end

/-! ### Runs -/

/-- Every call of a run is right when every call meets its condition: reads and writes are of whole
sectors, and the block layer succeeds or returns -1, after a write with nothing changed. -/
theorem nbd_server_right (x : Export) (s : Server) (es : List Event)
    (hsafe : Meets (Server.step x)
      (fun s e => s.isOpen e.conn = true → TripSafe x s.dev s.data (s.input e.conn) e.outcome) s es) :
    Meets (Server.step x)
      (fun s e => s.isOpen e.conn = true → TripRight x s.dev (s.input e.conn) (s.trip x e)) s es :=
  hsafe.mono fun _ _ h hopen => nbdTrip_right (h hopen)

def twoSectors : BlockDevice := ⟨true, true, false, false, 1024, fun _ => 7⟩

def exportAll : Export := ⟨1024, 0, false, 1024, by decide, by decide, by decide⟩

/-- One connection, whose client sends a request to read. -/
def reading (q : Request) : Server :=
  ⟨twoSectors, fun _ => 0, fun c => c = 0, fun _ => nbdSendRequest q ++ [], fun _ => []⟩

theorem nbd_server_right_sector : Meets (Server.step exportAll)
    (fun s e => s.isOpen e.conn = true → TripRight exportAll s.dev (s.input e.conn) (s.trip exportAll e))
    (reading ⟨nbdCmdRead, 5, 512, 512⟩) [⟨0, .ok⟩] := by
  apply nbd_server_right
  refine ⟨fun _ q f hreceive _ => ?_, trivial⟩
  have hsent : nbdReceiveRequest (nbdSendRequest ⟨nbdCmdRead, 5, 512, 512⟩ ++ []) = _ :=
    nbdReceiveRequest_sendRequest (by decide) (by decide) (by decide) (by decide) []
  cases hsent.symm.trans hreceive
  refine ⟨fun _ => Or.inr (Or.inr ⟨rfl, ?_⟩), fun hw => ?_⟩
  · exact ⟨⟨1, rfl⟩, ⟨1, rfl⟩⟩
  · exact absurd hw (by decide)

/-- A read of one byte reads no sector, and the client is sent what was in the buffer. -/
theorem nbd_short_read_stale : ¬ ∀ (x : Export) (s : Server) (es : List Event), Meets (Server.step x)
    (fun s e => s.isOpen e.conn = true → TripRight x s.dev (s.input e.conn) (s.trip x e)) s es := by
  intro h
  have hright := (h exportAll (reading ⟨nbdCmdRead, 5, 0, 1⟩) [⟨0, .ok⟩]).1 rfl
  have hsent : nbdReceiveRequest (nbdSendRequest ⟨nbdCmdRead, 5, 0, 1⟩ ++ []) = _ :=
    nbdReceiveRequest_sendRequest (by decide) (by decide) (by decide) (by decide) []
  have htrip : (reading ⟨nbdCmdRead, 5, 0, 1⟩).trip exportAll ⟨0, .ok⟩ =
      tripRead exportAll ⟨nbdCmdRead, 5, 0, 1⟩ twoSectors (fun _ => 0) [] .ok := by
    show nbdTrip exportAll twoSectors (fun _ => 0) (nbdSendRequest ⟨nbdCmdRead, 5, 0, 1⟩ ++ []) .ok = _
    rw [nbdTrip, hsent]
    rfl
  rw [htrip, TripRight] at hright
  have hserved : Served exportAll twoSectors ⟨nbdCmdRead, 5, 0, 1⟩ []
      (tripRead exportAll ⟨nbdCmdRead, 5, 0, 1⟩ twoSectors (fun _ => 0) [] .ok) := by
    have hinput : (reading ⟨nbdCmdRead, 5, 0, 1⟩).input 0 = nbdSendRequest ⟨nbdCmdRead, 5, 0, 1⟩ ++ [] := rfl
    rw [hinput, hsent] at hright
    exact hright
  have hpayload := hserved.read rfl ⟨0, 5⟩ rfl rfl
  revert hpayload
  decide

end Ar7Qemu.Nbd
