import Mathlib.Algebra.BigOperators.Group.List.Basic
import Mathlib.Data.List.GetD
import Ar7Qemu.Hw.Eepro100

/-! The frame of a transmit command against the buffers that the command describes. The three
loops over descriptors never write behind the frame buffer. They end without a failed
assertion exactly when the descriptors behind the block reach the byte count without
overrunning the buffer, and no buffer of an extended command is at address zero. In extended
mode an end of list in one of the two descriptors behind the block does not keep the card from
going on with the TBD array. -/

namespace Ar7Qemu.Hw.Eepro100

open Lib

/-! ### Descriptors -/

def content (guest : GuestMem) (ts : List Tbd) : List Byte := ts.flatMap fun t => guest.read t.address t.size

def totalSize (ts : List Tbd) : ℕ := (ts.map Tbd.size).sum

def firstTbds (guest : GuestMem) : ℕ → Word → List Tbd
  | 0, _ => []
  | k + 1, a => readTbd guest a :: firstTbds guest k (a + 8)

/-- The descriptors of a list of at most so many, up to the one that ends it. -/
def tbds (guest : GuestMem) : ℕ → Word → List Tbd
  | 0, _ => []
  | k + 1, a => readTbd guest a :: if (readTbd guest a).el then [] else tbds guest k (a + 8)

/-- The descriptors whose buffers are copied when a buffer that does not fit any more behind
the bytes already there is left out. -/
def fitting : ℕ → List Tbd → List Tbd
  | _, [] => []
  | n, t :: ts => if bufSize < n + t.size then fitting n ts else t :: fitting (n + t.size) ts

section

variable (guest : GuestMem)

@[simp]
theorem content_nil : content guest [] = [] := rfl

@[simp]
theorem content_cons (t : Tbd) (ts : List Tbd) :
    content guest (t :: ts) = guest.read t.address t.size ++ content guest ts := rfl

theorem content_append (ts us : List Tbd) : content guest (ts ++ us) = content guest ts ++ content guest us := by
  simp [content]

@[simp]
theorem totalSize_nil : totalSize [] = 0 := rfl

@[simp]
theorem totalSize_cons (t : Tbd) (ts : List Tbd) : totalSize (t :: ts) = t.size + totalSize ts := by
  simp [totalSize]

theorem totalSize_append (ts us : List Tbd) : totalSize (ts ++ us) = totalSize ts + totalSize us := by
  simp [totalSize]

@[simp]
theorem length_content : ∀ ts : List Tbd, (content guest ts).length = totalSize ts
  | [] => rfl
  | t :: ts => by simp [length_content ts]

theorem content_eq_nil {ts : List Tbd} : content guest ts = [] ↔ totalSize ts = 0 := by
  rw [← length_content guest, List.length_eq_zero_iff]

end

theorem fitting_eq_self : ∀ {ts : List Tbd} {n : ℕ}, n + totalSize ts ≤ bufSize → fitting n ts = ts
  | [], _, _ => rfl
  | t :: ts, n, h => by
    rw [totalSize_cons] at h
    rw [fitting, if_neg (by omega), fitting_eq_self (by omega)]

theorem totalSize_fitting : ∀ {ts : List Tbd} {n : ℕ}, n ≤ bufSize → n + totalSize (fitting n ts) ≤ bufSize
  | [], _, h => h
  | t :: ts, n, h => by
    rw [fitting]
    split_ifs with hfit
    · exact totalSize_fitting h
    · rw [totalSize_cons]
      have := @totalSize_fitting ts (n + t.size) (by omega)
      omega

/-! ### The three loops -/

section

variable {guest : GuestMem}

theorem readBuffer_eq {t : Tbd} {buf : List Byte} (h : buf.length + t.size ≤ bufSize) :
    readBuffer guest t buf = .ok (buf ++ guest.read t.address t.size) := by
  rw [readBuffer, if_neg (by omega)]

theorem simplifiedLoop_done {tcbBytes fuel : ℕ} {a : Word} {buf : List Byte} (h : tcbBytes ≤ buf.length) :
    simplifiedLoop guest tcbBytes (fuel + 1) a buf = .ok (a, buf) := by
  rw [simplifiedLoop, if_neg (by omega)]

theorem simplifiedLoop_step {tcbBytes fuel : ℕ} {a : Word} {buf : List Byte} (h : buf.length < tcbBytes)
    (hfit : buf.length + (readTbd guest a).size ≤ bufSize) :
    simplifiedLoop guest tcbBytes (fuel + 1) a buf = simplifiedLoop guest tcbBytes fuel (a + 8)
      (buf ++ guest.read (readTbd guest a).address (readTbd guest a).size) := by
  rw [simplifiedLoop, if_pos h, if_neg (by omega), readBuffer_eq hfit]
  rfl

theorem simplifiedLoop_cases {tcbBytes fuel : ℕ} {a : Word} {buf : List Byte} {r : Word × List Byte}
    (h : simplifiedLoop guest tcbBytes (fuel + 1) a buf = .ok r) :
    (tcbBytes ≤ buf.length ∧ r = (a, buf)) ∨
      (buf.length < tcbBytes ∧ buf.length + (readTbd guest a).size ≤ bufSize ∧
        simplifiedLoop guest tcbBytes fuel (a + 8)
          (buf ++ guest.read (readTbd guest a).address (readTbd guest a).size) = .ok r) := by
  by_cases hlt : buf.length < tcbBytes
  · by_cases hfit : buf.length + (readTbd guest a).size ≤ bufSize
    · rw [simplifiedLoop_step hlt hfit] at h
      exact .inr ⟨hlt, hfit, h⟩
    · rw [simplifiedLoop, if_pos hlt, if_pos (by omega)] at h
      cases h
  · rw [simplifiedLoop_done (by omega)] at h
    cases h
    exact .inl ⟨by omega, rfl⟩

/-- The loop ends exactly when some of the first descriptors reach the byte count and fit. -/
theorem simplifiedLoop_ends_iff {tcbBytes : ℕ} {a : Word} {buf : List Byte} :
    (∃ fuel r, simplifiedLoop guest tcbBytes fuel a buf = .ok r) ↔
      tcbBytes ≤ buf.length ∨ ∃ k, tcbBytes ≤ buf.length + totalSize (firstTbds guest k a) ∧
        buf.length + totalSize (firstTbds guest k a) ≤ bufSize := by
  constructor
  · rintro ⟨fuel, r, h⟩
    induction fuel generalizing a buf with
    | zero => cases h
    | succ fuel ih =>
      rcases simplifiedLoop_cases h with ⟨hdone, -⟩ | ⟨hlt, hfit, h⟩
      · exact .inl hdone
      · refine .inr ?_
        rcases ih h with hdone | ⟨k, h₁, h₂⟩
        · refine ⟨1, ?_, ?_⟩
          · simpa [firstTbds] using hdone
          · simpa [firstTbds] using hfit
        · refine ⟨k + 1, ?_, ?_⟩
          · simpa [firstTbds, add_assoc] using h₁
          · simpa [firstTbds, add_assoc] using h₂
  · rintro (hdone | ⟨k, h₁, h₂⟩)
    · exact ⟨1, _, simplifiedLoop_done hdone⟩
    · induction k generalizing a buf with
      | zero => exact ⟨1, _, simplifiedLoop_done (by simpa [firstTbds] using h₁)⟩
      | succ k ih =>
        by_cases hlt : buf.length < tcbBytes
        · rw [firstTbds, totalSize_cons] at h₁ h₂
          have hlen : (buf ++ guest.read (readTbd guest a).address (readTbd guest a).size).length =
              buf.length + (readTbd guest a).size := by rw [List.length_append, GuestMem.length_read]
          obtain ⟨fuel, r, h⟩ := @ih (a + 8) (buf ++ guest.read (readTbd guest a).address (readTbd guest a).size)
            (by omega) (by omega)
          exact ⟨fuel + 1, r, by rw [simplifiedLoop_step hlt (by omega), h]⟩
        · exact ⟨1, _, simplifiedLoop_done (by omega)⟩

theorem simplifiedLoop_mono {tcbBytes : ℕ} : ∀ {fuel fuel' : ℕ} {a : Word} {buf : List Byte} {r : Word × List Byte},
    fuel ≤ fuel' → simplifiedLoop guest tcbBytes fuel a buf = .ok r → simplifiedLoop guest tcbBytes fuel' a buf = .ok r
  | 0, _, _, _, _, _, h => by cases h
  | _ + 1, 0, _, _, _, hle, _ => by omega
  | fuel + 1, fuel' + 1, a, buf, r, hle, h => by
    rcases simplifiedLoop_cases h with ⟨hdone, rfl⟩ | ⟨hlt, hfit, h⟩
    · exact simplifiedLoop_done hdone
    · rw [simplifiedLoop_step hlt hfit]
      exact simplifiedLoop_mono (by omega) h

/-- Descriptors that describe exactly the byte count are the ones that are copied. -/
theorem simplifiedLoop_exact {tcbBytes : ℕ} : ∀ {fuel k : ℕ} {a : Word} {buf : List Byte} {r : Word × List Byte},
    simplifiedLoop guest tcbBytes fuel a buf = .ok r → buf.length + totalSize (firstTbds guest k a) = tcbBytes →
      r.2 = buf ++ content guest (firstTbds guest k a)
  | 0, _, _, _, _, h, _ => by cases h
  | fuel + 1, k, a, buf, r, h, hk => by
    rcases simplifiedLoop_cases h with ⟨hdone, rfl⟩ | ⟨hlt, -, h⟩
    · rw [(content_eq_nil guest).2 (by omega), List.append_nil]
    · cases k with
      | zero =>
        rw [firstTbds, totalSize_nil] at hk
        omega
      | succ k =>
        rw [firstTbds, totalSize_cons] at hk
        rw [firstTbds, content_cons, ← List.append_assoc]
        refine simplifiedLoop_exact h ?_
        rw [List.length_append, GuestMem.length_read]
        omega

theorem simplifiedLoop_length {tcbBytes : ℕ} : ∀ {fuel : ℕ} {a : Word} {buf : List Byte} {r : Word × List Byte},
    buf.length ≤ bufSize → simplifiedLoop guest tcbBytes fuel a buf = .ok r → r.2.length ≤ bufSize
  | 0, _, _, _, _, h => by cases h
  | fuel + 1, a, buf, r, hbuf, h => by
    rcases simplifiedLoop_cases h with ⟨-, rfl⟩ | ⟨-, hfit, h⟩
    · exact hbuf
    · refine simplifiedLoop_length ?_ h
      rwa [List.length_append, GuestMem.length_read]

theorem flexibleTbd_eq (t : Tbd) (buf : List Byte) (ts : List Tbd) :
    (flexibleTbd guest t buf).map (fun b => b ++ content guest (fitting b.length ts)) =
      .ok (buf ++ content guest (fitting buf.length (t :: ts))) := by
  rw [flexibleTbd, fitting]
  split_ifs with hfit
  · rfl
  · rw [readBuffer_eq (by omega), content_cons, ← List.append_assoc]
    simp [Except.map]

theorem flexibleLoop_eq : ∀ (left : ℕ) (a : Word) (buf : List Byte),
    flexibleLoop guest left a buf = .ok (buf ++ content guest (fitting buf.length (tbds guest left a)))
  | 0, a, buf => by simp [flexibleLoop, tbds, fitting]
  | left + 1, a, buf => by
    rw [flexibleLoop, tbds, ← flexibleTbd_eq]
    cases flexibleTbd guest (readTbd guest a) buf with
    | error e => rfl
    | ok b =>
      show (if (readTbd guest a).el then Except.ok b else flexibleLoop guest left (a + 8) b) = _
      split_ifs with hel
      · simp [Except.map, fitting]
      · rw [flexibleLoop_eq left (a + 8) b]
        rfl

/-- No buffer that is copied is at address zero. -/
def Addressed (n : ℕ) (ts : List Tbd) : Prop := ∀ t ∈ fitting n ts, 0 < t.size → t.address ≠ 0

/-- How many descriptors the extended mode counts: not the one that ends the list. -/
def counted (ts : List Tbd) : ℕ := ts.countP fun t => !t.el

theorem addressed_nil (n : ℕ) : Addressed n [] := nofun

theorem counted_cons {t : Tbd} (h : ¬ t.el = true) (ts : List Tbd) : counted (t :: ts) = 1 + counted ts := by
  rw [counted, List.countP_cons_of_pos (by simpa using h), counted, add_comm]

theorem counted_cons_of_el {t : Tbd} (h : t.el = true) : counted [t] = 0 := by
  simp [counted, h]

theorem extendedTbd_eq (t : Tbd) (buf : List Byte) :
    extendedTbd guest t buf = if bufSize < buf.length + t.size then .ok buf
      else if 0 < t.size ∧ t.address = 0 then .error .assertion
      else .ok (buf ++ guest.read t.address t.size) := by
  rw [extendedTbd]
  split_ifs with hfit hpos haddr h h h
  · rfl
  · rfl
  · exact absurd ⟨hpos, haddr⟩ h
  · exact absurd h.2 haddr
  · exact readBuffer_eq (by omega)
  · exact absurd h.1 hpos
  · have hsize : t.size = 0 := by omega
    simp [hsize, GuestMem.read]

/-- The extended loop ends without a failed assertion exactly when no buffer that it copies is
at address zero. -/
theorem extendedLoop_ok_iff : ∀ (left : ℕ) (a : Word) (n : ℕ) (buf : List Byte) (r : ℕ × List Byte),
    extendedLoop guest left a n buf = .ok r ↔ Addressed buf.length (tbds guest left a) ∧
      r = (n + counted (tbds guest left a), buf ++ content guest (fitting buf.length (tbds guest left a)))
  | 0, a, n, buf, r => by
    rw [extendedLoop, tbds, fitting, content_nil, List.append_nil, Except.ok.injEq, eq_comm]
    exact ⟨fun h => ⟨addressed_nil _, h⟩, fun h => h.2⟩
  | left + 1, a, n, buf, r => by
    have hrest : ∀ b : List Byte,
        ((if (readTbd guest a).el then Except.ok (n, b) else extendedLoop guest left (a + 8) (n + 1) b) = .ok r) ↔
          Addressed b.length (if (readTbd guest a).el then [] else tbds guest left (a + 8)) ∧
            r = (n + counted (tbds guest (left + 1) a), b ++ content guest
              (fitting b.length (if (readTbd guest a).el then [] else tbds guest left (a + 8)))) := by
      intro b
      rw [tbds]
      by_cases hel : (readTbd guest a).el = true
      · rw [if_pos hel, if_pos hel, fitting, content_nil, List.append_nil, Except.ok.injEq, eq_comm,
          counted_cons_of_el hel]
        exact ⟨fun h => ⟨addressed_nil _, h⟩, fun h => h.2⟩
      · rw [if_neg hel, if_neg hel, extendedLoop_ok_iff left (a + 8) (n + 1) b r, counted_cons hel, add_assoc]
    rw [extendedLoop, extendedTbd_eq]
    rw [tbds] at hrest ⊢
    generalize (if (readTbd guest a).el then [] else tbds guest left (a + 8)) = ts at hrest ⊢
    by_cases hfit : bufSize < buf.length + (readTbd guest a).size
    · rw [if_pos hfit, Addressed, fitting, if_pos hfit]
      exact hrest buf
    · rw [if_neg hfit, Addressed, fitting, if_neg hfit, List.forall_mem_cons]
      by_cases hbad : 0 < (readTbd guest a).size ∧ (readTbd guest a).address = 0
      · rw [if_pos hbad]
        exact ⟨nofun, fun h => absurd hbad.2 (h.1.1 hbad.1)⟩
      · rw [if_neg hbad]
        refine (hrest _).trans ?_
        rw [List.length_append, GuestMem.length_read, content_cons, ← List.append_assoc]
        exact and_congr_left fun _ => ⟨fun h => ⟨fun hpos haddr => hbad ⟨hpos, haddr⟩, h⟩, fun h => h.2⟩

end

/-! ### Frames -/

/-- A place in the list of command blocks, with what the command unit reads there: the guest
memory and the configuration. -/
structure Walk where
  device : Device
  cuBase : Word
  guest : GuestMem
  offset : Word
  configuration : ℕ → Byte

inductive Mode where
  | simplified | extended | flexible
  deriving DecidableEq

namespace Walk

def address (w : Walk) : Word := w.cuBase + w.offset

/-- The block at this place. -/
def tx (w : Walk) : Tcb := readCb w.guest w.address

def mode (w : Walk) : Mode :=
  if w.tx.command &&& commandSf = 0 ∨ is82557 w.device then .simplified
  else if w.configuration 6 &&& 0x10 = 0 then .extended
  else .flexible

def count (w : Walk) : ℕ := w.tx.tbdCount.toNat

def behind (w : Walk) (k : ℕ) : List Tbd := firstTbds w.guest k (w.address + 0x10)

/-- The descriptors behind the block that belong to an extended command. -/
def inBlock (w : Walk) : List Tbd := tbds w.guest (min 2 w.count) (w.address + 0x10)

def array (w : Walk) (k : ℕ) : List Tbd := tbds w.guest k w.tx.tbdArrayAddr

/-- The list of an extended command: it goes on in the array unless it ends in the block. -/
def extendedList (w : Walk) : List Tbd :=
  w.inBlock ++ if w.inBlock.any Tbd.el then [] else w.array (w.count - 2)

/-- A well-formed transmit command describes these buffers. -/
def Describes (w : Walk) (ts : List Tbd) : Prop :=
  w.tx.command &&& commandNc = 0 ∧ totalSize ts ≤ bufSize ∧
    match w.mode with
    | .simplified => totalSize ts = w.tx.byteCount ∧ ∃ k, ts = w.behind k
    | .extended => w.tx.byteCount = 0 ∧ ts = w.extendedList ∧ ∀ t ∈ ts, 0 < t.size → t.address ≠ 0
    | .flexible => w.tx.byteCount = 0 ∧ ts = w.array w.count

/-- The descriptors behind the block reach the byte count within the frame buffer; an extended
command has no bytes there and no buffer at address zero. -/
def TxSound (w : Walk) : Prop :=
  w.tx.command &&& commandNc = 0 ∧
    (∃ k, w.tx.byteCount ≤ totalSize (w.behind k) ∧ totalSize (w.behind k) ≤ bufSize) ∧
    (w.mode = .extended → w.tx.byteCount = 0 ∧ Addressed 0 w.inBlock)

/-- What an extended command takes from the array behind the descriptors of its block. -/
def tail (w : Walk) : List Tbd :=
  fitting (totalSize (fitting 0 w.inBlock)) (w.array (w.count - counted w.inBlock))

/-- An extended command that ends in the block finds no bytes in the array. -/
def NoTail (w : Walk) : Prop := w.mode = .extended → w.inBlock.any Tbd.el = true → totalSize w.tail = 0

def frame (fuel : ℕ) (w : Walk) : Except Fault (List Byte) :=
  txFrame fuel w.guest w.device w.configuration w.address w.tx

def Made (w : Walk) (buf frame : List Byte) : Prop :=
  match w.mode with
  | .simplified => frame = buf
  | .extended => w.tx.byteCount = 0 ∧ Addressed 0 w.inBlock ∧
      frame = content w.guest (fitting 0 w.inBlock) ++ content w.guest w.tail
  | .flexible => frame = buf ++ content w.guest (fitting buf.length (w.array w.count))

theorem ne_i82557C {d : Device} (h : ¬ is82557 d) : d ≠ .i82557C := by
  rintro rfl
  exact h (by decide)

theorem txRest_ok_iff (w : Walk) {r : Word × List Byte} {fuel : ℕ}
    (hr : simplifiedLoop w.guest w.tx.byteCount fuel (w.address + 0x10) [] = .ok r) (f : List Byte) :
    txRest w.guest w.device w.configuration w.tx r = .ok f ↔ w.Made r.2 f := by
  unfold txRest Made mode
  by_cases hsf : w.tx.command &&& commandSf = 0
  · rw [if_pos hsf, if_pos (.inl hsf), Except.ok.injEq, eq_comm]
  by_cases hdev : is82557 w.device
  · rw [if_neg hsf, if_pos hdev, if_pos (.inr hdev), Except.ok.injEq, eq_comm]
  rw [if_neg hsf, if_neg hdev, if_neg (not_or.2 ⟨hsf, hdev⟩)]
  by_cases hconf : w.configuration 6 &&& 0x10 = 0
  swap
  · rw [if_neg (fun h => hconf h.1), if_neg hconf, flexibleLoop_eq, Except.ok.injEq, eq_comm]
    rfl
  rw [if_pos ⟨hconf, ne_i82557C hdev⟩, if_pos hconf]
  by_cases hbytes : w.tx.byteCount = 0
  swap
  · rw [if_pos hbytes]
    exact ⟨nofun, fun h => absurd h.1 hbytes⟩
  rw [if_neg (not_not.2 hbytes)]
  -- without bytes behind the block the simplified loop has taken nothing
  obtain ⟨fuel, rfl⟩ : ∃ n, fuel = n + 1 := by
    cases fuel with
    | zero => cases hr
    | succ n => exact ⟨n, rfl⟩
  rw [hbytes, simplifiedLoop_done (Nat.zero_le _)] at hr
  cases hr
  have hloop := @extendedLoop_ok_iff w.guest (min 2 w.count) (w.address + 0x10) 0 []
  constructor
  · intro h
    obtain ⟨q, hq, h⟩ := bind_ok h
    obtain ⟨haddr, rfl⟩ := (hloop q).1 hq
    dsimp only at h
    rw [flexibleLoop_eq, List.nil_append, length_content, zero_add] at h
    cases h
    exact ⟨hbytes, haddr, rfl⟩
  · rintro ⟨-, haddr, rfl⟩
    have hq := (hloop _).2 ⟨haddr, rfl⟩
    show (extendedLoop w.guest (min 2 w.count) (w.address + 0x10) 0 [] >>= _) = _
    rw [hq]
    show flexibleLoop w.guest _ w.tx.tbdArrayAddr _ = _
    rw [flexibleLoop_eq, List.nil_append, length_content, zero_add]
    rfl

theorem frame_ok_iff (w : Walk) (fuel : ℕ) (f : List Byte) :
    w.frame fuel = .ok f ↔ w.tx.command &&& commandNc = 0 ∧ w.tx.byteCount ≤ bufSize ∧
      ∃ r, simplifiedLoop w.guest w.tx.byteCount fuel (w.address + 0x10) [] = .ok r ∧ w.Made r.2 f := by
  unfold frame txFrame
  by_cases hnc : w.tx.command &&& commandNc = 0
  swap
  · rw [if_pos hnc]
    exact ⟨nofun, fun h => absurd h.1 hnc⟩
  rw [if_neg (not_not.2 hnc)]
  by_cases hbytes : w.tx.byteCount ≤ bufSize
  swap
  · rw [if_pos (not_le.1 hbytes)]
    exact ⟨nofun, fun h => absurd h.2.1 hbytes⟩
  rw [if_neg (not_lt.2 hbytes)]
  constructor
  · intro h
    obtain ⟨r, hr, h⟩ := bind_ok h
    exact ⟨hnc, hbytes, r, hr, (w.txRest_ok_iff hr f).1 h⟩
  · rintro ⟨-, -, r, hr, h⟩
    rw [hr]
    exact (w.txRest_ok_iff hr f).2 h

/-- The card gets a frame out of the block exactly when the block is sound. -/
theorem frame_ends_iff (w : Walk) : (∃ fuel f, w.frame fuel = .ok f) ↔ w.TxSound := by
  have hloop := @simplifiedLoop_ends_iff w.guest w.tx.byteCount (w.address + 0x10) []
  simp only [List.length_nil, zero_add] at hloop
  constructor
  · rintro ⟨fuel, f, h⟩
    obtain ⟨hnc, hbytes, r, hr, hmade⟩ := (w.frame_ok_iff fuel f).1 h
    refine ⟨hnc, ?_, fun hmode => ?_⟩
    · rcases hloop.1 ⟨fuel, r, hr⟩ with h₀ | hk
      · exact ⟨0, h₀, Nat.zero_le _⟩
      · exact hk
    · rw [Made, hmode] at hmade
      exact ⟨hmade.1, hmade.2.1⟩
  · rintro ⟨hnc, ⟨k, h₁, h₂⟩, hext⟩
    obtain ⟨fuel, r, hr⟩ := hloop.2 (.inr ⟨k, h₁, h₂⟩)
    have hmade : ∃ f, w.Made r.2 f := by
      unfold Made
      cases hmode : w.mode with
      | simplified => exact ⟨_, rfl⟩
      | extended => exact ⟨_, (hext hmode).1, (hext hmode).2, rfl⟩
      | flexible => exact ⟨_, rfl⟩
    obtain ⟨f, hf⟩ := hmade
    exact ⟨fuel, f, (w.frame_ok_iff fuel f).2 ⟨hnc, h₁.trans h₂, r, hr, hf⟩⟩

theorem frame_mono (w : Walk) {fuel fuel' : ℕ} {f : List Byte} (hle : fuel ≤ fuel') (h : w.frame fuel = .ok f) :
    w.frame fuel' = .ok f := by
  obtain ⟨hnc, hbytes, r, hr, hmade⟩ := (w.frame_ok_iff fuel f).1 h
  exact (w.frame_ok_iff fuel' f).2 ⟨hnc, hbytes, r, simplifiedLoop_mono hle hr, hmade⟩

theorem frame_length (w : Walk) {fuel : ℕ} {f : List Byte} (h : w.frame fuel = .ok f) : f.length ≤ bufSize := by
  obtain ⟨-, -, r, hr, hmade⟩ := (w.frame_ok_iff fuel f).1 h
  have hlen : r.2.length ≤ bufSize := simplifiedLoop_length (Nat.zero_le _) hr
  unfold Made at hmade
  cases hmode : w.mode with
  | simplified =>
    rw [hmode] at hmade
    exact hmade ▸ hlen
  | extended =>
    rw [hmode] at hmade
    rw [hmade.2.2, List.length_append, length_content, length_content]
    refine totalSize_fitting ?_
    have := @totalSize_fitting w.inBlock 0 (Nat.zero_le bufSize)
    omega
  | flexible =>
    rw [hmode] at hmade
    rw [hmade, List.length_append, length_content]
    exact totalSize_fitting hlen

theorem counted_eq_length {ts : List Tbd} (h : ¬ ts.any Tbd.el = true) : counted ts = ts.length := by
  rw [counted, List.countP_eq_length]
  intro t ht
  simp only [List.any_eq_true, not_exists, not_and] at h
  simpa using h t ht

theorem length_tbds {guest : GuestMem} : ∀ {k : ℕ} {a : Word}, ¬ (tbds guest k a).any Tbd.el = true →
    (tbds guest k a).length = k
  | 0, _, _ => rfl
  | k + 1, a, h => by
    rw [tbds] at h ⊢
    have hel : ¬ (readTbd guest a).el = true := fun hel => h (by simp [hel])
    rw [if_neg hel] at h ⊢
    rw [List.length_cons, length_tbds (fun h' => h (by rw [List.any_cons, h', Bool.or_true]))]

/-- The frame of a well-formed command is what it describes, up to what an extended command
goes on to take from the array. -/
theorem frame_exact (w : Walk) {fuel : ℕ} {f : List Byte} {ts : List Tbd} (h : w.frame fuel = .ok f)
    (hts : w.Describes ts) : f = content w.guest ts ↔ w.NoTail := by
  obtain ⟨-, -, r, hr, hmade⟩ := (w.frame_ok_iff fuel f).1 h
  obtain ⟨-, htotal, hts⟩ := hts
  unfold Made at hmade
  unfold NoTail
  cases hmode : w.mode with
  | simplified =>
    rw [hmode] at hmade hts
    obtain ⟨hbytes, k, rfl⟩ := hts
    refine ⟨fun _ => nofun, fun _ => ?_⟩
    rw [hmade, simplifiedLoop_exact hr ((Nat.zero_add _).trans hbytes)]
    rfl
  | flexible =>
    rw [hmode] at hmade hts
    obtain ⟨hbytes, rfl⟩ := hts
    refine ⟨fun _ => nofun, fun _ => ?_⟩
    have hnil : r.2 = [] := simplifiedLoop_exact (k := 0) hr (by simp [firstTbds, hbytes])
    rw [hmade, hnil, List.nil_append, List.length_nil, fitting_eq_self (by omega)]
  | extended =>
    rw [hmode] at hmade hts
    obtain ⟨-, -, rfl⟩ := hmade
    obtain ⟨-, rfl, -⟩ := hts
    unfold extendedList at htotal ⊢
    rw [totalSize_append] at htotal
    have hfit : fitting 0 w.inBlock = w.inBlock := fitting_eq_self (by omega)
    rw [hfit]
    by_cases hel : w.inBlock.any Tbd.el = true
    · rw [if_pos hel, List.append_nil, List.append_right_eq_self, content_eq_nil]
      exact ⟨fun h _ _ => h, fun h => h rfl hel⟩
    · rw [if_neg hel] at htotal ⊢
      refine ⟨fun _ _ h => absurd h hel, fun _ => ?_⟩
      have hcount : w.count - counted w.inBlock = w.count - 2 := by
        have hlen : w.inBlock.length = min 2 w.count := length_tbds hel
        rw [counted_eq_length hel, hlen]
        omega
      rw [content_append, tail, hfit, hcount, fitting_eq_self htotal]

end Walk

/-! ### The list of command blocks -/

namespace Walk

def command (w : Walk) : ℕ := (w.tx.command &&& commandCmd).toNat

/-- The block ends the list, or suspends the command unit. -/
def Last (w : Walk) : Prop := w.tx.command &&& commandEl ≠ 0 ∨ w.tx.command &&& commandS ≠ 0

def nextConfiguration (w : Walk) : ℕ → Byte :=
  if w.command = 2 then
    fun i => if i < 22 then w.guest (w.address + 8 + BitVec.ofNat 32 i) else w.configuration i
  else w.configuration

/-- The next place in the list; the status is written back. -/
def next (w : Walk) : Walk :=
  ⟨w.device, w.cuBase, w.guest.putLe16 w.address (w.tx.status ||| statusC ||| statusOk), w.tx.link,
    w.nextConfiguration⟩

/-- The frames that a block may send: none if it is not a transmit command; one if it is, and
exactly the described buffers if it is well formed. -/
def Sends (w : Walk) (fs : List (List Byte)) : Prop :=
  if w.command = 4 then ∃ f, fs = [f] ∧ ∀ ts, w.Describes ts → f = content w.guest ts else fs = []

/-- The list has a last block, and the frames are those of its blocks up to it. -/
inductive Served : Walk → List (List Byte) → Prop
  | last {w : Walk} {fs : List (List Byte)} (hl : w.Last) (hs : w.Sends fs) : Served w fs
  | next {w : Walk} {fs gs : List (List Byte)} (hl : ¬ w.Last) (hs : w.Sends fs) (h : Served w.next gs) :
    Served w (fs ++ gs)

/-- A transmit block that the card gets through, with the right frame. -/
def BlockSound (w : Walk) : Prop := w.command = 4 → w.TxSound ∧ ∀ ts, w.Describes ts → w.NoTail

/-- The list has a last block, and its transmit blocks up to it are sound. -/
inductive Sound : Walk → Prop
  | last {w : Walk} (hl : w.Last) (hb : w.BlockSound) : Sound w
  | next {w : Walk} (hl : ¬ w.Last) (hb : w.BlockSound) (h : Sound w.next) : Sound w

end Walk

def place (s : Nic) : Walk := ⟨s.device, s.cuBase, s.guest, s.cuOffset, s.configuration⟩

theorem interrupt_frame (s : Nic) (status : Byte) : place (eepro100Interrupt s status) = place s ∧
    (eepro100Interrupt s status).sent = s.sent ∧ (eepro100Interrupt s status).tx = s.tx := by
  unfold eepro100Interrupt enableInterrupt disableInterrupt
  dsimp only
  split_ifs <;> exact ⟨rfl, rfl, rfl⟩

theorem computeMcastIdx_lt (ep : List Byte) : computeMcastIdx ep < 64 := by
  unfold computeMcastIdx
  generalize (List.range 6).foldl _ _ = crc
  have h : ((crc &&& 0xfc#32) >>> 2).toNat = (crc &&& 0xfc#32).toNat / 4 := by simp [Nat.shiftRight_eq_div_pow]
  have hle : (crc &&& 0xfc#32).toNat ≤ 252 := by
    rw [BitVec.toNat_and]
    exact Nat.and_le_right
  dsimp only
  omega

theorem setMulticastList_ok (s : Nic) : ∃ mult, setMulticastList s = .ok { s with mult := mult } := by
  have hfold : ∀ (l : List ℕ) (mult : ℕ → Byte), ∃ mult', l.foldlM (fun mult i =>
      addMulticast mult (computeMcastIdx (s.guest.read (s.cbAddress + 10 + BitVec.ofNat 32 (6 * i)) 6))) mult =
        Except.ok mult' := by
    intro l
    induction l with
    | nil => exact fun mult => ⟨mult, rfl⟩
    | cons i l ih =>
      intro mult
      rw [List.foldlM_cons, addMulticast, if_pos (computeMcastIdx_lt _)]
      exact ih _
  obtain ⟨mult, hmult⟩ := hfold (List.range (((s.tx.tbdArrayAddr &&& 0x3fff).toNat + 5) / 6)) fun _ => 0
  refine ⟨mult, ?_⟩
  unfold setMulticastList
  dsimp only
  rw [hmult]
  rfl

/-- The card after the command of a block. -/
structure Ran (fuel : ℕ) (s t : Nic) : Prop where
  device : t.device = s.device
  cuBase : t.cuBase = s.cuBase
  guest : t.guest = s.guest
  cbAddress : t.cbAddress = (place s).address
  cuOffset : t.cuOffset = (place s).tx.link
  tx : t.tx = (place s).tx
  configuration : t.configuration = (place s).nextConfiguration
  sent : if (place s).command = 4 then ∃ f, t.sent = s.sent ++ [f] ∧ (place s).frame fuel = .ok f
    else t.sent = s.sent

theorem runCommand_ran {fuel : ℕ} {s t : Nic} (h : runCommand fuel (fetchBlock s) = .ok t) : Ran fuel s t := by
  -- only the configure command changes the configuration
  have hconf : ∀ {n : ℕ}, (place s).command = n → n ≠ 2 → s.configuration = (place s).nextConfiguration := by
    intro n hn hne
    rw [Walk.nextConfiguration, if_neg (hn ▸ hne)]
    rfl
  unfold runCommand at h
  split at h
  · rename_i hcmd
    change (place s).command = 1 at hcmd
    cases h
    refine ⟨rfl, rfl, rfl, rfl, rfl, rfl, hconf hcmd (by decide), ?_⟩
    rw [if_neg (by omega)]
    rfl
  · rename_i hcmd
    change (place s).command = 2 at hcmd
    cases h
    refine ⟨rfl, rfl, rfl, rfl, rfl, rfl, ?_, ?_⟩
    · rw [Walk.nextConfiguration, if_pos hcmd]
      rfl
    · rw [if_neg (by omega)]
      rfl
  · rename_i hcmd
    change (place s).command = 3 at hcmd
    obtain ⟨mult, hmult⟩ := setMulticastList_ok (fetchBlock s)
    rw [hmult] at h
    cases h
    refine ⟨rfl, rfl, rfl, rfl, rfl, rfl, hconf hcmd (by decide), ?_⟩
    rw [if_neg (by omega)]
    rfl
  · rename_i hcmd
    change (place s).command = 4 at hcmd
    obtain ⟨f, hf, h⟩ := bind_ok h
    split_ifs at h
    cases h
    refine ⟨rfl, rfl, rfl, rfl, rfl, rfl, hconf hcmd (by decide), ?_⟩
    rw [if_pos hcmd]
    exact ⟨f, rfl, hf⟩
  · rename_i h₁ h₂ h₃ h₄
    change (place s).command = 2 → False at h₂
    change (place s).command = 4 → False at h₄
    cases h
    refine ⟨rfl, rfl, rfl, rfl, rfl, rfl, hconf rfl h₂, ?_⟩
    rw [if_neg h₄]
    rfl

theorem runCommand_total {fuel : ℕ} {s : Nic}
    (h : (place s).command = 4 → ∃ f, (place s).frame fuel = .ok f) : ∃ t, runCommand fuel (fetchBlock s) = .ok t := by
  unfold runCommand
  split
  · exact ⟨_, rfl⟩
  · exact ⟨_, rfl⟩
  · obtain ⟨mult, hmult⟩ := setMulticastList_ok (fetchBlock s)
    exact ⟨_, hmult⟩
  · rename_i hcmd
    obtain ⟨f, hf⟩ := h hcmd
    have hlen : ¬ bufSize < f.length := not_lt.2 ((place s).frame_length hf)
    unfold txCommand
    change ∃ t, ((place s).frame fuel >>= _) = Except.ok t
    rw [hf]
    exact ⟨_, if_neg hlen⟩
  · exact ⟨_, rfl⟩

theorem Ran.complete {fuel : ℕ} {s t : Nic} (h : Ran fuel s t) : place (completeBlock t) = (place s).next ∧
    (completeBlock t).sent = t.sent ∧ (completeBlock t).tx = (place s).tx := by
  have hstored : place { t with guest := t.guest.putLe16 t.cbAddress (t.tx.status ||| statusC ||| statusOk) } =
      (place s).next := by
    simp only [place, Walk.next, h.device, h.cuBase, h.guest, h.cbAddress, h.cuOffset, h.tx, h.configuration]
  unfold completeBlock
  dsimp only
  split_ifs
  · obtain ⟨hplace, hsent, htx⟩ := interrupt_frame
      { t with guest := t.guest.putLe16 t.cbAddress (t.tx.status ||| statusC ||| statusOk) } 0x80
    exact ⟨hplace.trans hstored, hsent, htx.trans h.tx⟩
  · exact ⟨hstored, rfl, h.tx⟩

theorem sent_ended (s : Nic) (st : CuState) : (eepro100CnaInterrupt (setCuState s st)).sent = s.sent :=
  (interrupt_frame (setCuState s st) 0x20).2.1

theorem actionCommand_cases {fuel n : ℕ} {s u : Nic} (h : actionCommand fuel (n + 1) s = .ok u) :
    ∃ t, Ran fuel s t ∧ (((place s).Last ∧ u.sent = t.sent) ∨
      (¬ (place s).Last ∧ ∃ v, place v = (place s).next ∧ v.sent = t.sent ∧ actionCommand fuel n v = .ok u)) := by
  obtain ⟨t, ht, h⟩ := bind_ok h
  have hran := runCommand_ran ht
  obtain ⟨hplace, hsent, htx⟩ := hran.complete
  refine ⟨t, hran, ?_⟩
  dsimp only at h
  rw [htx] at h
  split_ifs at h with hel hsusp
  · cases h
    exact .inl ⟨.inl hel, (sent_ended _ _).trans hsent⟩
  · cases h
    exact .inl ⟨.inr hsusp, (sent_ended _ _).trans hsent⟩
  · exact .inr ⟨not_or.2 ⟨hel, hsusp⟩, completeBlock t, hplace, hsent, h⟩

theorem actionCommand_last {fuel n : ℕ} {s t : Nic} (ht : runCommand fuel (fetchBlock s) = .ok t)
    (hl : (place s).Last) : ∃ u, actionCommand fuel (n + 1) s = .ok u ∧ u.sent = t.sent := by
  obtain ⟨-, hsent, htx⟩ := (runCommand_ran ht).complete
  rw [actionCommand, ht]
  show ∃ u, (if (completeBlock t).tx.command &&& commandEl ≠ 0 then _ else _) = Except.ok u ∧ _
  rw [htx]
  by_cases hel : (place s).tx.command &&& commandEl ≠ 0
  · rw [if_pos hel]
    exact ⟨_, rfl, (sent_ended _ _).trans hsent⟩
  · rw [if_neg hel, if_pos (hl.resolve_left hel)]
    exact ⟨_, rfl, (sent_ended _ _).trans hsent⟩

theorem actionCommand_next {fuel n : ℕ} {s t : Nic} (ht : runCommand fuel (fetchBlock s) = .ok t)
    (hl : ¬ (place s).Last) : actionCommand fuel (n + 1) s = actionCommand fuel n (completeBlock t) := by
  obtain ⟨-, -, htx⟩ := (runCommand_ran ht).complete
  obtain ⟨hel, hsusp⟩ := not_or.1 hl
  rw [actionCommand, ht]
  show (if (completeBlock t).tx.command &&& commandEl ≠ 0 then _ else _) = _
  rw [htx, if_neg hel, if_neg hsusp]

theorem Ran.sends {fuel : ℕ} {s t : Nic} (h : Ran fuel s t) (hb : (place s).BlockSound) :
    ∃ fs, t.sent = s.sent ++ fs ∧ (place s).Sends fs := by
  have hsent := h.sent
  unfold Walk.Sends
  split_ifs at hsent ⊢ with hcmd
  · obtain ⟨f, hf, hframe⟩ := hsent
    exact ⟨[f], hf, f, rfl, fun ts hts => ((place s).frame_exact hframe hts).2 ((hb hcmd).2 ts hts)⟩
  · exact ⟨[], by rw [hsent, List.append_nil], rfl⟩

theorem Ran.sent_eq {fuel : ℕ} {s t : Nic} (h : Ran fuel s t) {fs gs gs' : List (List Byte)}
    (hfs : t.sent ++ gs' = s.sent ++ (fs ++ gs)) (hsends : (place s).Sends fs) : t.sent = s.sent ++ fs := by
  have hsent := h.sent
  unfold Walk.Sends at hsends
  split_ifs at hsent hsends
  · obtain ⟨f, hf, -⟩ := hsent
    obtain ⟨f', rfl, -⟩ := hsends
    rw [hf, List.append_assoc] at hfs
    have hcons := List.append_cancel_left hfs
    simp only [List.cons_append, List.nil_append, List.cons.injEq] at hcons
    rw [hf, hcons.1]
  · rw [hsent, hsends, List.append_nil]

theorem Ran.blockSound {fuel : ℕ} {s t : Nic} (h : Ran fuel s t) {fs : List (List Byte)}
    (hfs : t.sent = s.sent ++ fs) (hsends : (place s).Sends fs) : (place s).BlockSound := by
  intro hcmd
  have hsent := h.sent
  rw [if_pos hcmd] at hsent
  obtain ⟨f, hf, hframe⟩ := hsent
  rw [Walk.Sends, if_pos hcmd] at hsends
  obtain ⟨f', rfl, hexact⟩ := hsends
  obtain rfl : f = f' := by simpa using List.append_cancel_left (hf.symm.trans hfs)
  refine ⟨(place s).frame_ends_iff.1 ⟨fuel, f, hframe⟩, fun ts hts => ?_⟩
  exact ((place s).frame_exact hframe hts).1 (hexact ts hts)

/-- With enough fuel a sound list is worked off, and the right frames are sent. -/
theorem actionCommand_of_sound {w : Walk} (hw : w.Sound) : ∃ N, ∀ s : Nic, place s = w → ∀ fuel n, N ≤ fuel → N ≤ n →
    ∃ u fs, actionCommand fuel n s = .ok u ∧ u.sent = s.sent ++ fs ∧ w.Served fs := by
  -- the fuel that a transmit block needs
  have hfuel : ∀ {w : Walk}, w.BlockSound → ∃ N, ∀ fuel, N ≤ fuel → w.command = 4 → ∃ f, w.frame fuel = .ok f := by
    intro w hb
    by_cases hcmd : w.command = 4
    · obtain ⟨N, f, hf⟩ := w.frame_ends_iff.2 (hb hcmd).1
      exact ⟨N, fun fuel hle _ => ⟨f, w.frame_mono hle hf⟩⟩
    · exact ⟨0, fun _ _ h => absurd h hcmd⟩
  induction hw with
  | last hl hb =>
    obtain ⟨N, hN⟩ := hfuel hb
    refine ⟨N + 1, ?_⟩
    rintro s rfl fuel n hf hn
    obtain ⟨n, rfl⟩ : ∃ m, n = m + 1 := ⟨n - 1, by omega⟩
    obtain ⟨t, ht⟩ := runCommand_total (hN fuel (by omega))
    obtain ⟨u, hu, husent⟩ := actionCommand_last (n := n) ht hl
    obtain ⟨fs, hfs, hsends⟩ := (runCommand_ran ht).sends hb
    exact ⟨u, fs, hu, husent.trans hfs, .last hl hsends⟩
  | next hl hb hrest ih =>
    obtain ⟨N, hN⟩ := hfuel hb
    obtain ⟨M, hM⟩ := ih
    refine ⟨N + M + 1, ?_⟩
    rintro s rfl fuel n hf hn
    obtain ⟨n, rfl⟩ : ∃ m, n = m + 1 := ⟨n - 1, by omega⟩
    obtain ⟨t, ht⟩ := runCommand_total (hN fuel (by omega))
    have hran := runCommand_ran ht
    obtain ⟨hplace, hsent, -⟩ := hran.complete
    obtain ⟨fs, hfs, hsends⟩ := hran.sends hb
    obtain ⟨u, gs, hu, husent, hserved⟩ := hM _ hplace fuel n (by omega) (by omega)
    refine ⟨u, fs ++ gs, by rw [actionCommand_next ht hl, hu], ?_, .next hl hsends hserved⟩
    rw [husent, hsent, hfs, List.append_assoc]

/-- The frames sent so far stay sent. -/
theorem sent_actionCommand {fuel : ℕ} : ∀ {n : ℕ} {s u : Nic}, actionCommand fuel n s = .ok u →
    ∃ gs, u.sent = s.sent ++ gs
  | 0, _, _, h => by cases h
  | n + 1, s, u, h => by
    obtain ⟨t, hran, hcases⟩ := actionCommand_cases h
    have ht : ∃ gs, t.sent = s.sent ++ gs := by
      have hsent := hran.sent
      split_ifs at hsent
      · obtain ⟨f, hf, -⟩ := hsent
        exact ⟨[f], hf⟩
      · exact ⟨[], by rw [hsent, List.append_nil]⟩
    obtain ⟨gs, hgs⟩ := ht
    rcases hcases with ⟨-, hu⟩ | ⟨-, v, -, hv, hu⟩
    · exact ⟨gs, hu.trans hgs⟩
    · obtain ⟨gs', hgs'⟩ := sent_actionCommand hu
      exact ⟨gs ++ gs', by rw [hgs', hv, hgs, List.append_assoc]⟩

/-- A list that is worked off with the right frames is sound. -/
theorem sound_of_actionCommand {fuel : ℕ} : ∀ {n : ℕ} {s u : Nic} {fs : List (List Byte)},
    actionCommand fuel n s = .ok u → u.sent = s.sent ++ fs → (place s).Served fs → (place s).Sound
  | 0, _, _, _, h, _, _ => by cases h
  | n + 1, s, u, fs, h, hsent, hserved => by
    obtain ⟨t, hran, ⟨hl, hu⟩ | ⟨hl, v, hv, hvsent, hu⟩⟩ := actionCommand_cases h
    · cases hserved with
      | last _ hsends => exact .last hl (hran.blockSound (hu.symm.trans hsent) hsends)
      | next hl' => exact absurd hl hl'
    · cases hserved with
      | last hl' => exact absurd hl' hl
      | @next _ fs₁ gs _ hsends hrest =>
        obtain ⟨gs', hgs'⟩ := sent_actionCommand hu
        have hfs : t.sent = s.sent ++ fs₁ := by
          refine hran.sent_eq (?_ : t.sent ++ gs' = s.sent ++ (fs₁ ++ gs)) hsends
          rw [← hvsent, ← hgs', hsent]
        refine .next hl (hran.blockSound hfs hsends) ?_
        rw [← hv] at hrest ⊢
        refine sound_of_actionCommand hu ?_ hrest
        rw [hsent, hvsent, hfs, List.append_assoc]

/-! ### Register writes -/

/-- A register write of the guest. -/
inductive RegWrite where
  | write1 (addr : ℕ) (val : Byte)
  | write2 (addr : ℕ) (val : BitVec 16)
  | write4 (addr : ℕ) (val : Word)

def RegWrite.event : RegWrite → Event
  | .write1 addr val => .write1 addr val
  | .write2 addr val => .write2 addr val
  | .write4 addr val => .write4 addr val

/-- The list that a command byte starts or resumes. -/
def started (s : Nic) (val : Byte) : Option Walk :=
  if val &&& 0xf0 = 0x10 then some { place s with offset := s.pointer }
  else if val &&& 0xf0 = 0x20 then some (place s)
  else none

def RegWrite.list (s : Nic) : RegWrite → Option Walk
  | .write1 addr val => if addr = scbCmd then started s val else none
  | .write2 addr val =>
    if addr = scbCmd then started s ((if s.bigEndian then bswap16 val else val).extractLsb' 0 8) else none
  | .write4 _ _ => none

/-- The frames that may be sent: none without a list. -/
def Expected : Option Walk → List (List Byte) → Prop
  | none, fs => fs = []
  | some w, fs => w.Served fs

/-- The card comes back from a register write without a failed assertion or a byte behind the
frame buffer, and has sent what the transmit commands describe. -/
def Unharmed (s : Nic) (e : RegWrite) : Prop :=
  ∃ fuel t fs, handle fuel s e.event = .ok t ∧ t.sent = s.sent ++ fs ∧ Expected (e.list s) fs

theorem ruCommand_frame (s : Nic) (val : Byte) : place (eepro100RuCommand s val) = place s ∧
    (eepro100RuCommand s val).sent = s.sent ∧ (eepro100RuCommand s val).pointer = s.pointer := by
  unfold eepro100RuCommand
  split_ifs <;> exact ⟨rfl, rfl, rfl⟩

theorem actionCommand_iff {w : Walk} {s : Nic} (hw : place s = w) :
    (∃ fuel u fs, actionCommand fuel fuel s = .ok u ∧ u.sent = s.sent ++ fs ∧ w.Served fs) ↔ w.Sound := by
  constructor
  · rintro ⟨fuel, u, fs, hu, hsent, hserved⟩
    subst hw
    exact sound_of_actionCommand hu hsent hserved
  · intro hsound
    obtain ⟨N, hN⟩ := actionCommand_of_sound hsound
    obtain ⟨u, fs, hu⟩ := hN s hw N N le_rfl le_rfl
    exact ⟨N, u, fs, hu⟩

theorem cuCommand_iff (s : Nic) (val : Byte) :
    (∃ fuel u fs, eepro100CuCommand fuel s (val &&& 0xf0) = .ok u ∧ u.sent = s.sent ++ fs ∧
      Expected (started s val) fs) ↔ ∀ w, started s val = some w → w.Sound := by
  unfold started eepro100CuCommand
  by_cases h₁ : val &&& 0xf0 = 0x10
  · simp only [if_pos h₁]
    refine (actionCommand_iff (w := { place s with offset := s.pointer }) rfl).trans ?_
    simp
  by_cases h₂ : val &&& 0xf0 = 0x20
  · simp only [if_neg h₁, if_pos h₂]
    have hplace : place (if s.cuState ≠ .suspended then setCuState s .suspended else s) = place s := by
      split_ifs <;> rfl
    have hsent : (if s.cuState ≠ .suspended then setCuState s .suspended else s).sent = s.sent := by
      split_ifs <;> rfl
    have hsusp : (if s.cuState ≠ .suspended then setCuState s .suspended else s).cuState = .suspended := by
      split_ifs with h
      · rfl
      · exact not_not.1 h
    generalize (if s.cuState ≠ .suspended then setCuState s .suspended else s) = s₁ at hplace hsent hsusp ⊢
    simp only [if_pos hsusp]
    rw [← hsent]
    refine (actionCommand_iff (w := place s) (s := setCuState s₁ .active) hplace).trans ?_
    simp
  simp only [if_neg h₁, if_neg h₂]
  refine ⟨fun _ => nofun, fun _ => ?_⟩
  split_ifs
  all_goals exact ⟨0, _, [], rfl, (List.append_nil _).symm, rfl⟩

theorem writeCommand_iff (s : Nic) (val : Byte) :
    (∃ fuel u fs, eepro100WriteCommand fuel s val = .ok u ∧ u.sent = s.sent ++ fs ∧
      Expected (started s val) fs) ↔ ∀ w, started s val = some w → w.Sound := by
  obtain ⟨hplace, hsent, hpointer⟩ := ruCommand_frame s (val &&& 0x0f)
  have hstarted : started (eepro100RuCommand s (val &&& 0x0f)) val = started s val := by
    rw [started, hplace, hpointer, started]
  rw [← hstarted, ← cuCommand_iff, hsent]
  constructor
  · rintro ⟨fuel, u, fs, hu, hrest⟩
    obtain ⟨u', hu', hu⟩ := bind_ok hu
    cases hu
    exact ⟨fuel, u', fs, hu', hrest⟩
  · rintro ⟨fuel, u, fs, hu, hrest⟩
    refine ⟨fuel, { u with mem := Function.update u.mem scbCmd 0 }, fs, ?_, hrest⟩
    rw [eepro100WriteCommand, hu]
    rfl

theorem quiet_iff (fuel : ℕ) {s t : Nic} {e : RegWrite} (hlist : e.list s = none)
    (ht : handle fuel s e.event = .ok t) (hsent : t.sent = s.sent) :
    Unharmed s e ↔ ∀ w, e.list s = some w → w.Sound := by
  refine ⟨fun _ w hw => ?_, fun _ => ⟨fuel, t, [], ht, by rw [hsent, List.append_nil], by rw [hlist]; rfl⟩⟩
  rw [hlist] at hw
  cases hw

theorem write1_intmask_ok (fuel : ℕ) (s : Nic) (val : Byte) :
    ∃ t, eepro100Write1 fuel s scbIntmask val = .ok t ∧ t.sent = s.sent := by
  refine ⟨_, rfl, (interrupt_frame _ 0).2.1.trans ?_⟩
  split_ifs
  · exact (interrupt_frame _ 0x04).2.1
  · rfl

theorem sent_acknowledge (s : Nic) : (eepro100Acknowledge s).sent = s.sent := by
  unfold eepro100Acknowledge disableInterrupt
  dsimp only
  split_ifs <;> rfl

theorem sent_writeMdi (s : Nic) (val : Word) : (eepro100WriteMdi s val).sent = s.sent := by
  unfold eepro100WriteMdi
  dsimp only
  split_ifs
  · exact (interrupt_frame _ 0x08).2.1
  · rfl
  · rfl

theorem sent_write4 (s : Nic) (addr : ℕ) (val : Word) : (eepro100Write4 s addr val).sent = s.sent := by
  unfold eepro100Write4
  dsimp only
  split_ifs
  all_goals first | rfl | exact sent_writeMdi _ _ | (unfold eepro100WritePort; split <;> rfl)

theorem unharmed_write1 (s : Nic) (addr : ℕ) (val : Byte) :
    Unharmed s (.write1 addr val) ↔ ∀ w, (RegWrite.write1 addr val).list s = some w → w.Sound := by
  by_cases h₂ : addr = scbCmd
  · subst h₂
    exact writeCommand_iff (storeReg s scbCmd [val]) val
  have hlist : (RegWrite.write1 addr val).list s = none := if_neg h₂
  by_cases h₁ : addr = scbAck
  · subst h₁
    exact quiet_iff 0 hlist rfl (sent_acknowledge (storeReg s scbAck [val]))
  by_cases h₃ : addr = scbIntmask
  · subst h₃
    obtain ⟨t, ht, hsent⟩ := write1_intmask_ok 0 s val
    exact quiet_iff 0 hlist ht hsent
  have hother : ∃ t, eepro100Write1 0 s addr val = .ok t ∧ t.sent = s.sent := by
    unfold eepro100Write1
    dsimp only
    rw [if_neg h₁, if_neg h₂, if_neg h₃]
    split_ifs <;> exact ⟨_, rfl, rfl⟩
  obtain ⟨t, ht, hsent⟩ := hother
  exact quiet_iff 0 hlist ht hsent

theorem unharmed_write2 (s : Nic) (addr : ℕ) (val : BitVec 16) :
    Unharmed s (.write2 addr val) ↔ ∀ w, (RegWrite.write2 addr val).list s = some w → w.Sound := by
  by_cases h₂ : addr = scbCmd
  · subst h₂
    show (∃ fuel t fs, eepro100Write2 fuel s scbCmd val = .ok t ∧ _ ∧
      Expected (started s ((if s.bigEndian then bswap16 val else val).extractLsb' 0 8)) fs) ↔
      ∀ w, started s ((if s.bigEndian then bswap16 val else val).extractLsb' 0 8) = some w → w.Sound
    unfold eepro100Write2
    dsimp only
    generalize (if s.bigEndian then bswap16 val else val) = v
    refine Iff.trans ?_ (writeCommand_iff (storeReg s scbCmd (GuestMem.bytes16 v)) (v.extractLsb' 0 8))
    constructor
    · rintro ⟨fuel, t, fs, ht, hsent, hexp⟩
      obtain ⟨u, hu, ht⟩ := bind_ok ht
      obtain ⟨t', ht', hsent'⟩ := write1_intmask_ok fuel u (v.extractLsb' 8 8)
      rw [ht'] at ht
      cases ht
      exact ⟨fuel, u, fs, hu, hsent'.symm.trans hsent, hexp⟩
    · rintro ⟨fuel, u, fs, hu, hsent, hexp⟩
      obtain ⟨t, ht, hsent'⟩ := write1_intmask_ok fuel u (v.extractLsb' 8 8)
      refine ⟨fuel, t, fs, ?_, hsent'.trans hsent, hexp⟩
      show (eepro100WriteCommand fuel (storeReg s scbCmd (GuestMem.bytes16 v)) (v.extractLsb' 0 8) >>= _) = _
      rw [hu]
      exact ht
  have hlist : (RegWrite.write2 addr val).list s = none := if_neg h₂
  have hother : ∃ t, eepro100Write2 0 s addr val = .ok t ∧ t.sent = s.sent := by
    unfold eepro100Write2
    dsimp only
    rw [if_neg h₂]
    split_ifs
    all_goals first | exact ⟨_, rfl, rfl⟩ | exact ⟨_, rfl, sent_acknowledge _⟩
  obtain ⟨t, ht, hsent⟩ := hother
  exact quiet_iff 0 hlist ht hsent

/-- A register write leaves the card unharmed exactly when the list that it starts has a last
block and sound transmit blocks up to it. -/
theorem eepro100_unharmed_iff (s : Nic) (e : RegWrite) :
    Unharmed s e ↔ ∀ w, e.list s = some w → w.Sound := by
  cases e with
  | write1 addr val => exact unharmed_write1 s addr val
  | write2 addr val => exact unharmed_write2 s addr val
  | write4 addr val => exact quiet_iff 0 rfl rfl (sent_write4 s addr val)

/-- A block at address zero that links to itself. -/
structure Looping (w : Walk) : Prop where
  cuBase : w.cuBase = 0
  offset : w.offset = 0
  guest : ∀ a : Word, 2 ≤ a.toNat → w.guest a = 0

theorem Looping.tx {w : Walk} (h : Looping w) : w.tx.command = 0 ∧ w.tx.link = 0 := by
  have haddr : w.address = 0 := by
    rw [Walk.address, h.cuBase, h.offset]
    rfl
  simp only [Walk.tx, readCb, haddr, GuestMem.le16, GuestMem.le32]
  rw [h.guest (0 + 2 + 1) (by decide), h.guest (0 + 2) (by decide), h.guest (0 + 4 + 3) (by decide),
    h.guest (0 + 4 + 2) (by decide), h.guest (0 + 4 + 1) (by decide), h.guest (0 + 4) (by decide)]
  decide

theorem Looping.next {w : Walk} (h : Looping w) : Looping w.next := by
  refine ⟨h.cuBase, h.tx.2, fun a ha => ?_⟩
  have haddr : w.address = 0 := by
    rw [Walk.address, h.cuBase, h.offset]
    rfl
  have hsub : a - 0 = a := BitVec.sub_zero a
  show (w.guest.putLe16 w.address _) a = 0
  rw [haddr, GuestMem.putLe16, GuestMem.write, hsub, List.getD_eq_default _ _ ha]
  exact h.guest a ha

theorem Looping.not_sound {w : Walk} (hw : w.Sound) : ¬ Looping w := by
  induction hw with
  | last hl _ =>
    intro h
    rcases hl with hel | hs
    · exact hel (by rw [h.tx.1]; rfl)
    · exact hs (by rw [h.tx.1]; rfl)
  | next _ _ _ ih => exact fun h => ih h.next

/-- With an empty memory the command unit goes round the block at address zero for ever. -/
theorem eepro100_command_loop : ¬ ∀ (s : Nic) (e : RegWrite), Unharmed s e := by
  intro h
  have hsound := (unharmed_write1 (nicReset (zeroed .i82551 0x8086 0x1209 (List.replicate 6 0)
    ⟨0, 0, 0, false, false, false, false, 6, 64, 0, fun _ => 0⟩ (fun _ => 0) false)) scbCmd 0x10).1 (h _ _) _ rfl
  exact Looping.not_sound hsound ⟨rfl, rfl, fun _ _ => rfl⟩

end Ar7Qemu.Hw.Eepro100
