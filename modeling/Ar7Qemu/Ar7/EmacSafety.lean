import Ar7Qemu.Ar7.EmacVector

/-! What a guest or a peer can do to the MAC. The loop of `emac_transmit` follows a chain of
descriptors in guest memory without a bound, copies a buffer before it compares its length, and asserts
what it expects of a descriptor. The reception of a frame asserts that it fits its descriptor. The
theorem at the end says which chains and which frames are harmless. -/

namespace Ar7Qemu.Ar7

open Lib

/-! ### Transmission with its faults -/

/-- An assertion that fails, a copy behind the frame buffer, or a chain that is still going on when the
fuel is used up. -/
inductive TxFault where
  | assertion | overrun | fuel
  deriving DecidableEq

def bufferLength (tcb : Cb) : ℕ := (tcb.length &&& bits 15 0).toNat

def packetLength (tcb : Cb) : ℕ := (tcb.mode &&& bits 15 0).toNat

/-- One pass of the loop of `emac_transmit`. The first assertion comes before the copy into the frame
buffer, and the others after it. -/
def transmitPass (s : Emac) (offset channel : ℕ) (address : Word) : Except TxFault (Emac × Word) :=
  if maxEthFrameSize < packetLength (readCb s.mem address) then .error .assertion
  else if maxEthFrameSize + 4 < bufferLength (readCb s.mem address) then .error .overrun
  else
    match transmitOne s offset channel address with
    | none => .error .assertion
    | some r => .ok r

def transmitPasses (offset channel : ℕ) : ℕ → Word → Emac → Except TxFault Emac
  | 0, _, _ => .error .fuel
  | fuel + 1, address, s => do
    let (s, next) ← transmitPass s offset channel address
    if next ≠ 0 then transmitPasses offset channel fuel next s else .ok s

/-- `emac_transmit` with its faults. -/
def emacTransmitFault (fuel : ℕ) (s : Emac) (offset : ℕ) (address : Word) : Except TxFault Emac :=
  let channel := (offset - cpmacTx0hdp) / 4
  let s := s.set offset address
  if address = 0 then
    .ok s
  else if s.get cpmacMaccontrol &&& maccontrolGmiien = 0 then
    .ok s
  else if s.get cpmacTxcontrol &&& txcontrolTxen = 0 then
    .ok s
  else
    transmitPasses offset channel fuel address s

/-! ### Descriptors -/

/-- The descriptor of a whole frame, without what the source refuses. -/
def WellFormed (tcb : Cb) : Prop :=
  packetLength tcb ≤ maxEthFrameSize ∧ packetLength tcb = bufferLength tcb ∧ (tcb.mode &&& bits 31 16) &&& cbSop ≠ 0 ∧
    (tcb.mode &&& bits 31 16) &&& cbEop ≠ 0 ∧ (tcb.mode &&& bits 31 16) &&& cbPasscrc = 0 ∧ tcb.length >>> 16 = 0

instance (tcb : Cb) : Decidable (WellFormed tcb) := inferInstanceAs (Decidable (_ ∧ _ ∧ _ ∧ _ ∧ _ ∧ _))

def described (m : GuestMem) (address : Word) : List (BitVec 8) :=
  m.read (readCb m address).buff (bufferLength (readCb m address))

/-- The mode word of a descriptor that has been sent. -/
def releasedMode (tcb : Cb) : Word :=
  (((tcb.mode &&& bits 31 16) &&& ~~~cbOwner) ||| cbEoq) ||| BitVec.ofNat 32 (packetLength tcb)

/-- The memory after the mode word of the descriptor at an address has been stored, in the byte order of
the target. -/
def release (bigEndian : Bool) (m : GuestMem) (address : Word) : GuestMem :=
  m.stl bigEndian (address + cbMode) (releasedMode (readCb m address))

/-- A big-endian target stores bit 5 of the packet length where the little-endian descriptor has OWNER. -/
def GivenBack (bigEndian : Bool) (tcb : Cb) : Prop := bigEndian = true → tcb.mode.getLsbD 5 = false

/-- The chain at an address ends, and each descriptor is well-formed and can be given back when it is
reached, after the ones before it. -/
inductive SoundChain (bigEndian : Bool) : GuestMem → Word → Prop where
  | last {m a} : WellFormed (readCb m a) → GivenBack bigEndian (readCb m a) → (readCb m a).next = 0 →
    SoundChain bigEndian m a
  | more {m a} : WellFormed (readCb m a) → GivenBack bigEndian (readCb m a) → (readCb m a).next ≠ 0 →
    SoundChain bigEndian (release bigEndian m a) (readCb m a).next → SoundChain bigEndian m a

/-- The descriptor at an address is the guest's. -/
def Unowned (m : GuestMem) (address : Word) : Prop := (readCb m address).mode &&& cbOwner = 0

/-- The frames that the descriptors of a chain describe, in the order of the chain, and the memory after
each of them has been given back. -/
inductive Transmits (bigEndian : Bool) : GuestMem → Word → List (List (BitVec 8)) → GuestMem → Prop where
  | last {m a} : Unowned (release bigEndian m a) a → (readCb m a).next = 0 →
    Transmits bigEndian m a [described m a] (release bigEndian m a)
  | more {m a fs m'} : Unowned (release bigEndian m a) a → (readCb m a).next ≠ 0 →
    Transmits bigEndian (release bigEndian m a) (readCb m a).next fs m' →
    Transmits bigEndian m a (described m a :: fs) m'

/-- The transmission ends without a fault. When it is ignored, nothing is sent and no memory is written.
When not, the frames of the chain are sent once each in their order, and its descriptors are given back. -/
def TransmitsSafely (s : Emac) (offset : ℕ) (address : Word) : Prop :=
  ∃ fuel s', emacTransmitFault fuel s offset address = .ok s' ∧
    (¬ s.Sends offset address → s'.mem = s.mem ∧ s'.sent = s.sent) ∧
    (s.Sends offset address → ∃ fs, Transmits s.bigEndian s.mem address fs s'.mem ∧
      s'.sent = if s.vc then s.sent ++ fs else s.sent)

/-- The reception fails no assertion and writes at most the buffer of the descriptor, and the descriptor
itself. -/
def ReceivesSafely (s : Emac) (buf : List (BitVec 8)) : Prop :=
  ∃ s', ar7NicReceive s buf = some s' ∧ ∃ channel < 8, ∀ x,
    16 ≤ (x - s.get (cpmacRx0hdp + 4 * channel)).toNat →
    (readCb s.mem (s.get (cpmacRx0hdp + 4 * channel))).length.toNat ≤
      (x - (readCb s.mem (s.get (cpmacRx0hdp + 4 * channel))).buff).toNat → s'.mem x = s.mem x

/-- The receiver is off. -/
def RxIgnores (s : Emac) : Prop :=
  s.get cpmacMaccontrol &&& maccontrolGmiien = 0 ∨ s.get cpmacRxcontrol &&& rxcontrolRxen = 0

/-- The registers do not ask for what the source refuses. -/
def RxSupported (s : Emac) : Prop :=
  s.get cpmacRxmbpenable &&& rxmbpenableRxpasscrc = 0 ∧ s.get cpmacRxmbpenable &&& rxmbpenableRxqosen = 0 ∧
    s.get cpmacRxmbpenable &&& rxmbpenableRxcmemfen = 0 ∧ s.get cpmacRxmbpenable &&& rxmbpenableRxcefen = 0 ∧
    s.get cpmacRxbufferoffset = 0

/-- The frame is for no channel, or its channel has no free descriptor, or it fits the descriptor. -/
def RxFits (s : Emac) (buf : List (BitVec 8)) : Prop :=
  ∀ r, rxChannel s buf = some r → s.get (cpmacRx0hdp + 4 * r.1) = 0 ∨
    (readCb s.mem (s.get (cpmacRx0hdp + 4 * r.1))).mode &&& cbOwner = 0 ∨
    buf.length ≤ (readCb s.mem (s.get (cpmacRx0hdp + 4 * r.1))).length.toNat

/-! ### What leaves the memory alone -/

/-- The memory, the client, the frames sent and the byte order stay as they are. -/
structure Local (s s' : Emac) : Prop where
  mem : s'.mem = s.mem
  vc : s'.vc = s.vc
  sent : s'.sent = s.sent
  order : s'.bigEndian = s.bigEndian

theorem Local.trans {s s₁ s₂ : Emac} (h : Local s s₁) (h' : Local s₁ s₂) : Local s s₂ :=
  ⟨h'.mem.trans h.mem, h'.vc.trans h.vc, h'.sent.trans h.sent, h'.order.trans h.order⟩

theorem local_statusregInc (s : Emac) (offset : ℕ) : Local s (statusregInc s offset) := by
  rw [statusregInc]
  split_ifs <;> exact ⟨rfl, rfl, rfl, rfl⟩

theorem local_txSignal (s : Emac) (offset channel : ℕ) (address next : Word) :
    Local s (txSignal s offset channel address next) :=
  (local_statusregInc s cpmacTxgoodframes).trans ⟨rfl, rfl, rfl, rfl⟩

theorem local_rxCount (s : Emac) (counter : Option ℕ) (size : ℕ) : Local s (rxCount s counter size).1 := by
  have hkind : Local s (counter.elim s (statusregInc s)) := by
    cases counter with
    | none => exact ⟨rfl, rfl, rfl, rfl⟩
    | some o => exact local_statusregInc s o
  rw [rxCount]
  split_ifs
  · exact (hkind.trans (local_statusregInc _ _)).trans (local_statusregInc _ _)
  · exact (hkind.trans (local_statusregInc _ _)).trans (local_statusregInc _ _)
  · exact hkind.trans (local_statusregInc _ _)

theorem get_statusregInc (s : Emac) {offset a : ℕ} (ho : offset < a) (ha : 0x200 ≤ a) :
    (statusregInc s offset).get a = s.get a := by
  have hderived : a ∉ derivedRegs := by
    intro h
    have hall : ∀ b ∈ derivedRegs, b < 0x200 := by decide
    exact absurd (hall a h) (Nat.not_lt.2 ha)
  have hraw : a ≠ cpmacMacintstatraw := fun h => absurd (h ▸ ha) (by decide)
  rw [statusregInc]
  split_ifs
  · rw [get_update _ hderived, get_regSet, if_neg hraw, get_set, if_neg (Nat.ne_of_gt ho)]
  · rw [get_set, if_neg (Nat.ne_of_gt ho)]

/-! ### Transmission -/

section Transmit

variable {s s' : Emac} {offset channel : ℕ} {address : Word}

/-- The card after the frame of a well-formed descriptor. -/
def transmitted (s : Emac) (offset channel : ℕ) (address : Word) : Emac :=
  txSignal (sendPacket { s with mem := release s.bigEndian s.mem address } (described s.mem address)) offset channel address
    (readCb s.mem address).next

theorem transmitOne_eq (s : Emac) (offset channel : ℕ) (address : Word) : transmitOne s offset channel address =
    if WellFormed (readCb s.mem address) then some (transmitted s offset channel address, (readCb s.mem address).next)
    else none := by
  by_cases h : WellFormed (readCb s.mem address)
  · have hlen : bufferLength (readCb s.mem address) = packetLength (readCb s.mem address) := h.2.1.symm
    rw [if_pos h, transmitted, release, releasedMode, described]
    exact if_pos h
  · rw [if_neg h]
    exact if_neg h

theorem transmitted_mem (s : Emac) (offset channel : ℕ) (address : Word) :
    (transmitted s offset channel address).mem = release s.bigEndian s.mem address := by
  rw [transmitted, (local_txSignal _ _ _ _ _).mem, sendPacket]
  split_ifs <;> rfl

theorem transmitted_vc (s : Emac) (offset channel : ℕ) (address : Word) :
    (transmitted s offset channel address).vc = s.vc := by
  rw [transmitted, (local_txSignal _ _ _ _ _).vc, sendPacket]
  split_ifs <;> rfl

theorem transmitted_order (s : Emac) (offset channel : ℕ) (address : Word) :
    (transmitted s offset channel address).bigEndian = s.bigEndian := by
  rw [transmitted, (local_txSignal _ _ _ _ _).order, sendPacket]
  split_ifs <;> rfl

theorem transmitted_sent (s : Emac) (offset channel : ℕ) (address : Word) :
    (transmitted s offset channel address).sent = if s.vc then s.sent ++ [described s.mem address] else s.sent := by
  rw [transmitted, (local_txSignal _ _ _ _ _).sent, sendPacket]
  split_ifs <;> rfl

theorem transmitPass_ok_iff (r : Emac × Word) : transmitPass s offset channel address = .ok r ↔
    WellFormed (readCb s.mem address) ∧ (transmitted s offset channel address, (readCb s.mem address).next) = r := by
  rw [transmitPass, transmitOne_eq]
  by_cases h : WellFormed (readCb s.mem address)
  · have hpacket : packetLength (readCb s.mem address) ≤ maxEthFrameSize := h.1
    have hbuffer : packetLength (readCb s.mem address) = bufferLength (readCb s.mem address) := h.2.1
    rw [if_neg (by omega), if_neg (by omega), if_pos h]
    exact ⟨fun hr => ⟨h, Except.ok.inj hr⟩, fun hr => congrArg Except.ok hr.2⟩
  · refine iff_of_false (fun hr => ?_) fun hr => h hr.1
    rw [if_neg h] at hr
    split_ifs at hr

theorem transmitPass_toOption : (transmitPass s offset channel address).toOption = transmitOne s offset channel address := by
  by_cases h : WellFormed (readCb s.mem address)
  · rw [(transmitPass_ok_iff _).2 ⟨h, rfl⟩, transmitOne_eq, if_pos h]
    rfl
  · rw [transmitPass, transmitOne_eq, if_neg h]
    split_ifs <;> rfl

theorem transmitPasses_toOption (fuel : ℕ) : ∀ (address : Word) (s : Emac),
    (transmitPasses offset channel fuel address s).toOption = transmitLoop offset channel fuel address s := by
  induction fuel with
  | zero => exact fun _ _ => rfl
  | succ fuel ih =>
    intro address s
    rw [transmitPasses, transmitLoop, ← transmitPass_toOption]
    cases transmitPass s offset channel address with
    | error e => rfl
    | ok r =>
      show (if r.2 ≠ 0 then _ else _ : Except TxFault Emac).toOption = if r.2 ≠ 0 then _ else _
      split_ifs
      · exact ih _ _
      · rfl

/-- But for the kind of fault, this is the transmission. -/
theorem emacTransmitFault_toOption (fuel : ℕ) (s : Emac) :
    (emacTransmitFault fuel s offset address).toOption = emacTransmit fuel s offset address := by
  unfold emacTransmitFault emacTransmit
  dsimp only
  split_ifs <;> first | rfl | exact transmitPasses_toOption fuel address _

theorem getLsbD_packetLength (tcb : Cb) {i : ℕ} (hi : i < 32) :
    (BitVec.ofNat 32 (packetLength tcb)).getLsbD i = (decide (i < 16) && tcb.mode.getLsbD i) := by
  rw [packetLength, BitVec.ofNat_toNat, BitVec.setWidth_eq, BitVec.getLsbD_and, Bool.and_comm]
  refine congrArg (· && _) ?_
  have hmask : bits 15 0 = BitVec.ofNat 32 (2 ^ 16 - 1) := rfl
  rw [hmask, BitVec.getLsbD_ofNat, Nat.testBit_two_pow_sub_one, decide_eq_true hi, Bool.true_and]

theorem unowned_iff (m : GuestMem) (address : Word) : Unowned m address ↔ (readCb m address).mode.getLsbD 29 = false := by
  constructor
  · intro h
    have hbit := congrArg (BitVec.getLsbD · 29) h
    rw [BitVec.getLsbD_and, cbOwner, getLsbD_bit (by decide), decide_eq_true rfl, Bool.and_true] at hbit
    exact hbit.trans BitVec.getLsbD_zero
  · intro h
    apply BitVec.eq_of_getLsbD_eq
    intro i hi
    rw [BitVec.getLsbD_and, cbOwner, getLsbD_bit hi]
    refine Eq.trans ?_ BitVec.getLsbD_zero.symm
    by_cases howner : i = 29
    · rw [howner, h, Bool.false_and]
    · rw [decide_eq_false howner, Bool.and_false]

/-- A descriptor that has been sent is the guest's, but for the bit that a big-endian target stores there. -/
theorem unowned_release (bigEndian : Bool) (m : GuestMem) (address : Word) :
    Unowned (release bigEndian m address) address ↔ GivenBack bigEndian (readCb m address) := by
  rw [unowned_iff, GivenBack,
    show (readCb (release bigEndian m address) address).mode = _ from GuestMem.le32_stl bigEndian m (address + cbMode) _]
  generalize readCb m address = tcb
  have hlow : (releasedMode tcb).getLsbD 5 = tcb.mode.getLsbD 5 := by
    have hmask : (bits 31 16).getLsbD 5 = false ∧ cbEoq.getLsbD 5 = false := by decide
    rw [releasedMode, BitVec.getLsbD_or, BitVec.getLsbD_or, BitVec.getLsbD_and, BitVec.getLsbD_and, hmask.1, hmask.2,
      getLsbD_packetLength tcb (by decide), Bool.and_false, Bool.false_and, Bool.false_or, Bool.false_or]
    rfl
  have hhigh : (releasedMode tcb).getLsbD 29 = false := by
    have hbit : cbOwner.getLsbD 29 = true ∧ cbEoq.getLsbD 29 = false := by decide
    rw [releasedMode, BitVec.getLsbD_or, BitVec.getLsbD_or, BitVec.getLsbD_and, BitVec.getLsbD_not, hbit.1, hbit.2,
      getLsbD_packetLength tcb (by decide), Bool.not_true, Bool.and_false, Bool.and_false, Bool.or_false, Bool.false_or]
    rfl
  cases bigEndian with
  | false => exact iff_of_true hhigh fun h => nomatch h
  | true =>
    rw [imp_iff_right rfl, ← hlow]
    simp only [if_true, BitVec.getLsbD_append, BitVec.getLsbD_extractLsb']
    rfl

/-- A loop that ends without a fault and gives the descriptors back has gone along a sound chain. -/
theorem soundChain_of_passes (fuel : ℕ) (address : Word) (s : Emac) {fs : List (List (BitVec 8))} {m : GuestMem}
    (h : transmitPasses offset channel fuel address s = .ok s') (hback : Transmits s.bigEndian s.mem address fs m) :
    SoundChain s.bigEndian s.mem address := by
  induction fuel generalizing address s fs with
  | zero => cases h
  | succ fuel ih =>
    rw [transmitPasses] at h
    cases hpass : transmitPass s offset channel address with
    | error e =>
      rw [hpass] at h
      cases h
    | ok r =>
      obtain ⟨hwell, rfl⟩ := (transmitPass_ok_iff r).1 hpass
      rw [hpass] at h
      cases hback with
      | last howner hnext => exact .last hwell ((unowned_release _ _ _).1 howner) hnext
      | more howner hnext hrest =>
        refine .more hwell ((unowned_release _ _ _).1 howner) hnext ?_
        have hih := ih _ _ ((if_pos hnext).symm.trans h) (by rw [transmitted_mem, transmitted_order]; exact hrest)
        rwa [transmitted_mem, transmitted_order] at hih

/-- Along a sound chain the loop ends, and it sends the frames of the chain. -/
theorem passes_of_soundChain {bigEndian : Bool} {m : GuestMem} (h : SoundChain bigEndian m address) (offset channel : ℕ) :
    ∀ s : Emac, s.mem = m → s.bigEndian = bigEndian →
      ∃ fuel s' fs, transmitPasses offset channel fuel address s = .ok s' ∧
        Transmits bigEndian m address fs s'.mem ∧ s'.sent = if s.vc then s.sent ++ fs else s.sent := by
  induction h with
  | @last m a hwell hback hnext =>
    rintro s rfl rfl
    refine ⟨1, transmitted s offset channel a, [described s.mem a], ?_, ?_, transmitted_sent s offset channel a⟩
    · rw [transmitPasses, (transmitPass_ok_iff _).2 ⟨hwell, rfl⟩]
      exact if_neg (not_not.2 hnext)
    · rw [transmitted_mem]
      exact .last ((unowned_release _ _ _).2 hback) hnext
  | @more m a hwell hback hnext hrest ih =>
    rintro s rfl rfl
    obtain ⟨fuel, s', fs, hloop, htransmits, hsent⟩ :=
      ih _ (transmitted_mem s offset channel a) (transmitted_order s offset channel a)
    refine ⟨fuel + 1, s', described s.mem a :: fs, ?_, .more ((unowned_release _ _ _).2 hback) hnext htransmits, ?_⟩
    · rw [transmitPasses, (transmitPass_ok_iff _).2 ⟨hwell, rfl⟩]
      exact (if_pos hnext).trans hloop
    · rw [hsent, transmitted_vc, transmitted_sent]
      split_ifs
      · rw [List.append_assoc, List.singleton_append]
      · rfl

/-- Whether a transmission is ignored is decided by registers that the pointer does not overwrite. -/
theorem emacTransmitFault_eq (fuel : ℕ) (s : Emac) (hlo : cpmacTx0hdp ≤ offset) (hhi : offset ≤ cpmacTx7hdp) (address : Word) :
    emacTransmitFault fuel s offset address =
      if s.Sends offset address then
        transmitPasses offset ((offset - cpmacTx0hdp) / 4) fuel address (s.set offset address)
      else .ok (s.set offset address) := by
  have hget : ∀ a, a < cpmacTx0hdp → (s.set offset address).get a = s.get a := by
    intro a ha
    rw [get_set, if_neg (by omega)]
  rw [emacTransmitFault, hget _ (by decide), hget _ (by decide)]
  by_cases hsend : s.Sends offset address
  · rw [if_pos hsend, if_neg hsend.2.2.1, if_neg hsend.2.2.2.1, if_neg hsend.2.2.2.2]
  · rw [if_neg hsend]
    split_ifs with hzero hmii htx
    · rfl
    · rfl
    · rfl
    · exact absurd ⟨hlo, hhi, hzero, hmii, htx⟩ hsend

theorem transmitsSafely_iff (s : Emac) (hlo : cpmacTx0hdp ≤ offset) (hhi : offset ≤ cpmacTx7hdp) (address : Word) :
    TransmitsSafely s offset address ↔ (s.Sends offset address → SoundChain s.bigEndian s.mem address) := by
  constructor
  · rintro ⟨fuel, s', h, -, hsends⟩ hsend
    obtain ⟨fs, hback, -⟩ := hsends hsend
    rw [emacTransmitFault_eq fuel s hlo hhi, if_pos hsend] at h
    exact soundChain_of_passes fuel address (s.set offset address) h hback
  · intro h
    by_cases hsend : s.Sends offset address
    · obtain ⟨fuel, s', fs, hloop, htransmits, hsent⟩ :=
        passes_of_soundChain (h hsend) offset ((offset - cpmacTx0hdp) / 4) (s.set offset address) rfl rfl
      refine ⟨fuel, s', ?_, fun hn => absurd hsend hn, fun _ => ⟨fs, htransmits, hsent⟩⟩
      rw [emacTransmitFault_eq fuel s hlo hhi, if_pos hsend]
      exact hloop
    · refine ⟨0, s.set offset address, ?_, fun _ => ⟨rfl, rfl⟩, fun hs => absurd hs hsend⟩
      rw [emacTransmitFault_eq 0 s hlo hhi, if_neg hsend]

end Transmit

/-! ### Reception -/

section Receive

variable {s s' : Emac} {buf : List (BitVec 8)}

theorem rxChannel_lt {r : ℕ × Option ℕ × Word} (h : rxChannel s buf = some r) : r.1 < 8 := by
  have hfield : ∀ (x mask : Word) (k : ℕ), mask.toNat / 2 ^ k < 8 → ((x &&& mask) >>> k).toNat < 8 := by
    intro x mask k hmask
    rw [BitVec.toNat_ushiftRight, Nat.shiftRight_eq_div_pow, BitVec.toNat_and]
    exact Nat.lt_of_le_of_lt (Nat.div_le_div_right Nat.and_le_right) hmask
  simp only [rxChannel] at h
  split_ifs at h <;> cases h
  · exact hfield _ _ 8 (by decide)
  · have hlow := hfield (s.get cpmacRxmbpenable) rxmbpenableRxmultch 0 (by decide)
    rwa [BitVec.ushiftRight_zero] at hlow
  · exact Nat.zero_lt_succ 7
  · exact hfield _ _ 16 (by decide)

/-- The head descriptor pointers are behind the counters. -/
theorem get_rxCount {counter : Option ℕ} (hcounter : ∀ o, counter = some o → o < cpmacRx0hdp) (size : ℕ) {a : ℕ}
    (ha : cpmacRx0hdp ≤ a) : (rxCount s counter size).1.get a = s.get a := by
  have hle : 0x200 ≤ a := Nat.le_trans (by decide) ha
  have hlt : ∀ o, o < cpmacRx0hdp → o < a := fun o ho => Nat.lt_of_lt_of_le ho ha
  have hkind : (counter.elim s (statusregInc s)).get a = s.get a := by
    cases counter with
    | none => rfl
    | some o => exact get_statusregInc s (hlt o (hcounter o rfl)) hle
  rw [rxCount]
  split_ifs
  · show (statusregInc (statusregInc _ cpmacRxundersizedframes) cpmacRxgoodframes).get a = _
    rw [get_statusregInc _ (hlt _ (by decide)) hle, get_statusregInc _ (hlt _ (by decide)) hle, hkind]
  · show (statusregInc (statusregInc _ cpmacRxoversizedframes) cpmacRxgoodframes).get a = _
    rw [get_statusregInc _ (hlt _ (by decide)) hle, get_statusregInc _ (hlt _ (by decide)) hle, hkind]
  · show (statusregInc _ cpmacRxgoodframes).get a = _
    rw [get_statusregInc _ (hlt _ (by decide)) hle, hkind]

theorem length_cb_bytes (cb : Cb) : cb.bytes.length = 16 := by
  simp [Cb.bytes, GuestMem.bytes32]

/-- A frame is stored, or not, exactly when its channel has no free descriptor or the frame fits it. -/
theorem rxStore_iff (channel : ℕ) (flags : Word) : (∃ s', rxStore s channel flags buf = some s') ↔
    s.get (cpmacRx0hdp + 4 * channel) = 0 ∨ (readCb s.mem (s.get (cpmacRx0hdp + 4 * channel))).mode &&& cbOwner = 0 ∨
      buf.length ≤ (readCb s.mem (s.get (cpmacRx0hdp + 4 * channel))).length.toNat := by
  rw [rxStore]
  dsimp only
  by_cases hdp : s.get (cpmacRx0hdp + 4 * channel) = 0
  · rw [if_pos hdp]
    exact iff_of_true ⟨s, rfl⟩ (Or.inl hdp)
  rw [if_neg hdp, or_iff_right hdp]
  by_cases howner : (readCb s.mem (s.get (cpmacRx0hdp + 4 * channel))).mode &&& cbOwner = 0
  · rw [if_neg (not_not.2 howner)]
    exact iff_of_true ⟨s, rfl⟩ (Or.inl howner)
  rw [if_pos howner, or_iff_right howner]
  by_cases hlen : buf.length ≤ (readCb s.mem (s.get (cpmacRx0hdp + 4 * channel))).length.toNat
  · rw [if_pos hlen]
    exact iff_of_true ⟨_, rfl⟩ hlen
  · rw [if_neg hlen]
    refine iff_of_false ?_ hlen
    rintro ⟨_, h⟩
    cases h

/-- Only the buffer of the descriptor and the descriptor are written. -/
theorem rxStore_mem {channel : ℕ} {flags : Word} (h : rxStore s channel flags buf = some s') {x : Word}
    (hdesc : 16 ≤ (x - s.get (cpmacRx0hdp + 4 * channel)).toNat)
    (hbuff : (readCb s.mem (s.get (cpmacRx0hdp + 4 * channel))).length.toNat ≤
      (x - (readCb s.mem (s.get (cpmacRx0hdp + 4 * channel))).buff).toNat) : s'.mem x = s.mem x := by
  rw [rxStore] at h
  dsimp only at h
  split_ifs at h with hdp howner hlen
  all_goals cases h
  · rfl
  -- the frame is stored, and with or without the end of the queue
  all_goals
    first
    | rfl
    | refine (GuestMem.write_of_le ?_).trans (GuestMem.write_of_le (hlen.trans hbuff))
      rw [length_cb_bytes]
      exact hdesc

theorem receivesSafely_iff (s : Emac) (buf : List (BitVec 8)) :
    ReceivesSafely s buf ↔ RxIgnores s ∨ RxSupported s ∧ RxFits s buf := by
  have hsame : ∃ channel < 8, ∀ x, 16 ≤ (x - s.get (cpmacRx0hdp + 4 * channel)).toNat →
      (readCb s.mem (s.get (cpmacRx0hdp + 4 * channel))).length.toNat ≤
        (x - (readCb s.mem (s.get (cpmacRx0hdp + 4 * channel))).buff).toNat → s.mem x = s.mem x :=
    ⟨0, by decide, fun _ _ _ => rfl⟩
  unfold ReceivesSafely
  by_cases hignores : RxIgnores s
  · refine iff_of_true ⟨s, ?_, hsame⟩ (Or.inl hignores)
    rw [ar7NicReceive]
    rcases hignores with hmii | hrx
    · rw [if_pos hmii]
    · split_ifs
      · rfl
      · rfl
  obtain ⟨hmii, hrx⟩ := not_or.1 hignores
  rw [or_iff_right hignores, ar7NicReceive, if_neg hmii, if_neg hrx]
  by_cases hsupported : RxSupported s
  · rw [if_pos (show s.get cpmacRxmbpenable &&& rxmbpenableRxpasscrc = 0 ∧ _ from hsupported), and_iff_right hsupported]
    cases hch : rxChannel s buf with
    | none => exact iff_of_true ⟨s, rfl, hsame⟩ fun r hr => by rw [hch] at hr; cases hr
    | some r =>
      obtain ⟨channel, counter, flags⟩ := r
      have hlt : channel < 8 := rxChannel_lt hch
      have hcounter : ∀ o, counter = some o → o < cpmacRx0hdp := by
        rintro o rfl
        have hin := rxChannel_counter hch
        exact Nat.lt_trans hin.2 (by decide)
      have hget : (rxCount s counter buf.length).1.get (cpmacRx0hdp + 4 * channel) = s.get (cpmacRx0hdp + 4 * channel) :=
        get_rxCount hcounter buf.length (Nat.le_add_right _ _)
      have hmem := (local_rxCount s counter buf.length).mem
      have hfits : RxFits s buf ↔ ∃ s', rxStore (rxCount s counter buf.length).1 channel
          (flags ||| (rxCount s counter buf.length).2) buf = some s' := by
        rw [rxStore_iff, hget, hmem]
        constructor
        · exact fun h => h _ hch
        · rintro h r hr
          cases hch.symm.trans hr
          exact h
      rw [hfits]
      dsimp only
      rw [if_pos hlt]
      constructor
      · rintro ⟨s', h, -⟩
        exact ⟨s', h⟩
      · rintro ⟨s', h⟩
        refine ⟨s', h, channel, hlt, fun x hdesc hbuff => ?_⟩
        rw [← hget] at hdesc hbuff
        rw [← hmem] at hbuff ⊢
        exact rxStore_mem h hdesc hbuff
  · rw [if_neg (show ¬ (s.get cpmacRxmbpenable &&& rxmbpenableRxpasscrc = 0 ∧ _) from hsupported)]
    refine iff_of_false ?_ fun h => hsupported h.1
    rintro ⟨_, h, -⟩
    cases h

end Receive

theorem next_release (m : GuestMem) (a : Word) : (readCb (release false m a) a).next = (readCb m a).next := by
  have hbyte : ∀ i : Word, 4 ≤ (i - cbMode).toNat → release false m a (a + i) = m (a + i) := by
    intro i hi
    refine GuestMem.write_of_le ?_
    rw [add_sub_add_left_eq_sub]
    exact hi
  have h₀ := hbyte 0 (by decide)
  rw [add_zero] at h₀
  show (release false m a).le32 a = m.le32 a
  rw [GuestMem.le32, GuestMem.le32, h₀, hbyte 1 (by decide), hbyte 2 (by decide), hbyte 3 (by decide)]

theorem SoundChain.next_ne {m : GuestMem} {a : Word} (h : SoundChain false m a) (ha : a ≠ 0) : (readCb m a).next ≠ a := by
  induction h with
  | last _ _ hnext =>
    rw [hnext]
    exact ha.symm
  | @more m a _ _ hnext _ ih =>
    intro hself
    rw [hself] at ih
    exact ih ha ((next_release m a).trans hself)

/-- A MAC that is enabled, with the head of a receive queue at address 16. -/
def enabledEmac (mem : GuestMem) (bigEndian : Bool) : Emac where
  cpmac := fun a => if a = cpmacMaccontrol then maccontrolGmiien else if a = cpmacTxcontrol then txcontrolTxen
    else if a = cpmacRxcontrol then rxcontrolRxen else if a = cpmacRx0hdp then 16 else 0
  mem
  phys := List.replicate 6 0
  vc := true
  irq := false
  sent := []
  bigEndian

/-- A descriptor at address 16, by the low bytes of its next and length words and by the ends of its
mode word. -/
def descriptorAt16 (next length lengthHigh modeLow modeHigh : BitVec 8) : GuestMem := fun x =>
  if x = 16 then next else if x = 24 then length else if x = 25 then lengthHigh
    else if x = 28 then modeLow else if x = 31 then modeHigh else 0

end Ar7Qemu.Ar7
