import Ar7Qemu.Ar7.EmacRun
import Ar7Qemu.Lib.Run

/-! The statistics registers of the MAC. Every counted event adds one to a register, and with
the MII enabled a write to a register takes the value off it, so that a guest which writes back
what it has read loses no count. The source computes the difference and then stores the value
that was written. -/

namespace Ar7Qemu.Ar7

open Lib

def ar7CpmacRead (s : Emac) (offset : ℕ) : Word := s.get offset

abbrev StatReg := { r : ℕ // r % 4 = 0 ∧ cpmacRxgoodframes ≤ r ∧ r ≤ cpmacRxdmaoverruns }

/-- `MACCONTROL` and the statistics registers. -/
def Steady (a : ℕ) : Prop := a = cpmacMaccontrol ∨ cpmacRxgoodframes ≤ a ∧ a ≤ cpmacRxdmaoverruns

instance (a : ℕ) : Decidable (Steady a) := inferInstanceAs (Decidable (_ ∨ _))

theorem StatReg.steady (r : StatReg) : Steady r := .inr r.2.2

/-! ### The counted events -/

/-- How often a received frame is counted in a register. -/
def rxCounted (s : Emac) (buf : List (BitVec 8)) (r : ℕ) : ℕ :=
  if s.get cpmacMaccontrol &&& maccontrolGmiien = 0 ∨ s.get cpmacRxcontrol &&& rxcontrolRxen = 0 then 0
  else match rxChannel s buf with
    | none => 0
    | some (_, counter, _) =>
      (if counter = some r then 1 else 0) +
      (if buf.length < 64 then if r = cpmacRxundersizedframes then 1 else 0
      else if (s.get cpmacRxmaxlen).toNat < buf.length then if r = cpmacRxoversizedframes then 1 else 0
      else 0) +
      (if r = cpmacRxgoodframes then 1 else 0)

def framesSent (offset channel : ℕ) : ℕ → Word → Emac → ℕ
  | 0, _, _ => 0
  | fuel + 1, address, s =>
    match transmitOne s offset channel address with
    | none => 0
    | some (s, next) => 1 + if next ≠ 0 then framesSent offset channel fuel next s else 0

/-- How often an event is counted in a register. -/
def counted (fuel : ℕ) (s : Emac) (r : ℕ) : EmacEvent → ℕ
  | .write offset _ val =>
    if s.Sends offset val ∧ r = cpmacTxgoodframes then
      framesSent offset ((offset - cpmacTx0hdp) / 4) fuel val (s.set offset val)
    else 0
  | .receive buf => rxCounted s buf r
  | .memory _ => 0

/-! ### What the operations add -/

/-- The steady registers have grown by so much. -/
def Adds (s s' : Emac) (n : ℕ → ℕ) : Prop := ∀ a, Steady a → s'.get a = s.get a + BitVec.ofNat 32 (n a)

theorem Adds.congr {s s' : Emac} {n m : ℕ → ℕ} (h : Adds s s' n) (hnm : ∀ a, Steady a → n a = m a) : Adds s s' m := by
  intro a ha
  rw [h a ha, hnm a ha]

theorem Adds.trans {s s₁ s₂ : Emac} {n m : ℕ → ℕ} (h : Adds s s₁ n) (h' : Adds s₁ s₂ m) :
    Adds s s₂ fun a => n a + m a := by
  intro a ha
  rw [h' a ha, h a ha, BitVec.ofNat_add, BitVec.add_assoc]

/-- The steady registers are unchanged. -/
abbrev Keeps (s s' : Emac) : Prop := Adds s s' fun _ => 0

theorem keeps_of_get {s s' : Emac} (h : ∀ a, Steady a → s'.get a = s.get a) : Keeps s s' := by
  intro a ha
  rw [h a ha]
  simp

theorem Keeps.refl (s : Emac) : Keeps s s := keeps_of_get fun _ _ => rfl

theorem Keeps.adds {s s₁ s₂ : Emac} {n : ℕ → ℕ} (h : Keeps s s₁) (h' : Adds s₁ s₂ n) : Adds s s₂ n :=
  (Adds.trans h h').congr fun _ _ => Nat.zero_add _

theorem Adds.keeps {s s₁ s₂ : Emac} {n : ℕ → ℕ} (h : Adds s s₁ n) (h' : Keeps s₁ s₂) : Adds s s₂ n :=
  Adds.trans h h'

theorem keeps_set (s : Emac) {b : ℕ} (hb : ¬ Steady b) (val : Word) : Keeps s (s.set b val) := by
  refine keeps_of_get fun a ha => ?_
  rw [get_set, if_neg]
  rintro rfl
  exact hb ha

theorem keeps_regSet (s : Emac) {b : ℕ} (hb : ¬ Steady b) (val : Word) :
    Keeps s { s with cpmac := regSet s.cpmac b val } := by
  refine keeps_of_get fun a ha => ?_
  rw [get_regSet, if_neg]
  rintro rfl
  exact hb ha

theorem keeps_regClear (s : Emac) {b : ℕ} (hb : ¬ Steady b) (val : Word) :
    Keeps s { s with cpmac := regClear s.cpmac b val } := by
  refine keeps_of_get fun a ha => ?_
  rw [get_regClear, if_neg]
  rintro rfl
  exact hb ha

theorem keeps_update (s : Emac) : Keeps s (emacUpdateInterrupt s) := by
  refine keeps_of_get fun a ha => get_update s fun hmem => ?_
  have hall : ∀ b ∈ derivedRegs, ¬ Steady b := by decide
  exact hall a hmem ha

theorem keeps_of_cpmac {s s' : Emac} (h : s'.cpmac = s.cpmac) : Keeps s s' :=
  keeps_of_get fun a _ => by rw [Emac.get, Emac.get, h]

theorem not_steady_of_lt {a : ℕ} (h : cpmacRxdmaoverruns < a) : ¬ Steady a := by
  rintro (h' | h')
  · subst h'
    exact absurd h (by decide)
  · omega

theorem adds_statusregInc (s : Emac) (offset : ℕ) :
    Adds s (statusregInc s offset) fun a => if a = offset then 1 else 0 := by
  have hset : Adds s (s.set offset (s.get offset + 1)) fun a => if a = offset then 1 else 0 := by
    intro a ha
    rw [get_set]
    dsimp only
    by_cases h : a = offset
    · rw [if_pos h, if_pos h, h]
      rfl
    · rw [if_neg h, if_neg h]
      simp
  rw [statusregInc]
  split_ifs
  · exact (hset.keeps (keeps_regSet _ (by decide) _)).keeps (keeps_update _)
  · exact hset

theorem keeps_sendPacket (s : Emac) (buffer : List (BitVec 8)) : Keeps s (sendPacket s buffer) := by
  rw [sendPacket]
  split_ifs
  · exact keeps_of_cpmac rfl
  · exact Keeps.refl s

/-! ### Transmission -/

section Transmit

variable {s s' : Emac} {offset channel : ℕ}

theorem adds_txSignal (s : Emac) (ho : cpmacTx0hdp ≤ offset) (address next : Word) :
    Adds s (txSignal s offset channel address next) fun a => if a = cpmacTxgoodframes then 1 else 0 := by
  have ho' : ¬ Steady offset := not_steady_of_lt (Nat.lt_of_lt_of_le (by decide) ho)
  have hcp : ¬ Steady (cpmacTx0cp + 4 * channel) :=
    not_steady_of_lt (Nat.lt_of_lt_of_le (by decide) (Nat.le_add_right cpmacTx0cp _))
  have hcount := adds_statusregInc s cpmacTxgoodframes
  rw [txSignal]
  exact (((((hcount.keeps (keeps_set _ ho' _)).keeps (keeps_set _ hcp _)).keeps (keeps_regSet _ (by decide) _)).keeps
    (keeps_regSet _ (by decide) _)).keeps (keeps_update _))

theorem adds_packet (s : Emac) (ho : cpmacTx0hdp ≤ offset) (m : GuestMem) (buffer : List (BitVec 8)) (address next : Word) :
    Adds s (txSignal (sendPacket { s with mem := m } buffer) offset channel address next)
      fun a => if a = cpmacTxgoodframes then 1 else 0 := by
  have hmem : Keeps s { s with mem := m } := keeps_of_cpmac rfl
  exact Keeps.adds hmem (Keeps.adds (keeps_sendPacket _ buffer) (adds_txSignal _ ho address next))

theorem adds_transmitOne (ho : cpmacTx0hdp ≤ offset) {address next : Word}
    (h : transmitOne s offset channel address = some (s', next)) :
    Adds s s' fun a => if a = cpmacTxgoodframes then 1 else 0 := by
  rw [transmitOne] at h
  split_ifs at h
  obtain ⟨rfl, -⟩ := Prod.mk.inj (Option.some.inj h)
  exact adds_packet s ho _ _ _ _

theorem adds_transmitLoop (ho : cpmacTx0hdp ≤ offset) (fuel : ℕ) (address : Word)
    (h : transmitLoop offset channel fuel address s = some s') :
    Adds s s' fun a => if a = cpmacTxgoodframes then framesSent offset channel fuel address s else 0 := by
  induction fuel generalizing s address with
  | zero => cases h
  | succ fuel ih =>
    rw [transmitLoop] at h
    cases hone : transmitOne s offset channel address with
    | none =>
      rw [hone] at h
      cases h
    | some r =>
      obtain ⟨s₁, next⟩ := r
      have hone' := adds_transmitOne ho hone
      rw [hone] at h
      dsimp only at h
      by_cases hn : next = 0
      · rw [if_neg (not_not.2 hn)] at h
        cases h
        refine hone'.congr fun a _ => ?_
        simp [framesSent, hone, hn]
      · rw [if_pos hn] at h
        refine (hone'.trans (ih next h)).congr fun a _ => ?_
        by_cases ha : a = cpmacTxgoodframes
        · simp only [if_pos ha, framesSent, hone, if_pos hn]
        · simp only [if_neg ha]

theorem adds_emacTransmit {fuel : ℕ} {address : Word} (hlo : cpmacTx0hdp ≤ offset) (hhi : offset ≤ cpmacTx7hdp)
    (h : emacTransmit fuel s offset address = some s') :
    Adds s s' fun a => if s.Sends offset address ∧ a = cpmacTxgoodframes then
      framesSent offset ((offset - cpmacTx0hdp) / 4) fuel address (s.set offset address) else 0 := by
  have ho : ¬ Steady offset := not_steady_of_lt (Nat.lt_of_lt_of_le (by decide) hlo)
  have hset := keeps_set s ho address
  have hget : ∀ a, a < cpmacTx0hdp → (s.set offset address).get a = s.get a := by
    intro a ha
    rw [get_set, if_neg (by omega)]
  rw [emacTransmit, hget _ (by decide), hget _ (by decide)] at h
  split_ifs at h with hzero hmii htx
  · cases h
    refine hset.congr fun a _ => (if_neg fun hs => ?_).symm
    exact hs.1.2.2.1 hzero
  · cases h
    refine hset.congr fun a _ => (if_neg fun hs => ?_).symm
    exact hs.1.2.2.2.1 hmii
  · cases h
    refine hset.congr fun a _ => (if_neg fun hs => ?_).symm
    exact hs.1.2.2.2.2 htx
  · have hsends : s.Sends offset address := ⟨hlo, hhi, hzero, hmii, htx⟩
    refine (Keeps.adds hset (adds_transmitLoop hlo fuel address h)).congr fun a _ => ?_
    simp [hsends]

end Transmit

/-! ### Reception -/

section Receive

variable {s s' : Emac}

theorem adds_rxCount (s : Emac) (counter : Option ℕ) (size : ℕ) :
    Adds s (rxCount s counter size).1 fun a => (if counter = some a then 1 else 0) +
      (if size < 64 then if a = cpmacRxundersizedframes then 1 else 0
      else if (s.get cpmacRxmaxlen).toNat < size then if a = cpmacRxoversizedframes then 1 else 0
      else 0) +
      (if a = cpmacRxgoodframes then 1 else 0) := by
  have hkind : Adds s (counter.elim s (statusregInc s)) fun a => if counter = some a then 1 else 0 := by
    cases counter with
    | none => exact (Keeps.refl s).congr fun a _ => by simp
    | some o => exact (adds_statusregInc s o).congr fun a _ => by simp [eq_comm]
  rw [rxCount]
  split_ifs with hshort hlong
  · exact (hkind.trans (adds_statusregInc _ _)).trans (adds_statusregInc _ _)
  · exact (hkind.trans (adds_statusregInc _ _)).trans (adds_statusregInc _ _)
  · exact hkind.trans (adds_statusregInc _ _)

theorem keeps_rxStore {channel : ℕ} {flags : Word} {buf : List (BitVec 8)} (h : rxStore s channel flags buf = some s') :
    Keeps s s' := by
  have hhdp : ¬ Steady (cpmacRx0hdp + 4 * channel) :=
    not_steady_of_lt (Nat.lt_of_lt_of_le (by decide) (Nat.le_add_right cpmacRx0hdp _))
  have hcp : ¬ Steady (cpmacRx0cp + 4 * channel) :=
    not_steady_of_lt (Nat.lt_of_lt_of_le (by decide) (Nat.le_add_right cpmacRx0cp _))
  have hsignal : ∀ (u : Emac) (dp next : Word), Keeps u (rxSignal u channel dp next) := by
    intro u dp next
    rw [rxSignal]
    exact ((((keeps_set u hhdp _).keeps (keeps_set _ hcp _)).keeps (keeps_regSet _ (by decide) _)).keeps
      (keeps_regSet _ (by decide) _)).keeps (keeps_update _)
  have hstored : ∀ (m : GuestMem) (dp next : Word), Keeps s (rxSignal { s with mem := m } channel dp next) := by
    intro m dp next
    have hmem : Keeps s { s with mem := m } := keeps_of_cpmac rfl
    exact hmem.keeps (hsignal _ dp next)
  rw [rxStore] at h
  by_cases hdp : s.get (cpmacRx0hdp + 4 * channel) = 0
  · rw [if_pos hdp] at h
    cases h
    exact Keeps.refl s
  rw [if_neg hdp] at h
  by_cases howner : (readCb s.mem (s.get (cpmacRx0hdp + 4 * channel))).mode &&& cbOwner ≠ 0
  · rw [if_pos howner] at h
    by_cases hlen : buf.length ≤ (readCb s.mem (s.get (cpmacRx0hdp + 4 * channel))).length.toNat
    · rw [if_pos hlen] at h
      cases h
      exact hstored _ _ _
    · rw [if_neg hlen] at h
      cases h
  · rw [if_neg howner] at h
    cases h
    exact Keeps.refl s

theorem adds_receive {buf : List (BitVec 8)} (h : ar7NicReceive s buf = some s') : Adds s s' (rxCounted s buf) := by
  rw [ar7NicReceive] at h
  split_ifs at h with hmii hrx hassert
  · cases h
    exact (Keeps.refl s).congr fun a _ => by rw [rxCounted, if_pos (.inl hmii)]
  · cases h
    exact (Keeps.refl s).congr fun a _ => by rw [rxCounted, if_pos (.inr hrx)]
  have hon : ¬ (s.get cpmacMaccontrol &&& maccontrolGmiien = 0 ∨ s.get cpmacRxcontrol &&& rxcontrolRxen = 0) :=
    not_or.2 ⟨hmii, hrx⟩
  cases hch : rxChannel s buf with
  | none =>
    rw [hch] at h
    cases h
    exact (Keeps.refl s).congr fun a _ => by rw [rxCounted, if_neg hon, hch]
  | some r =>
    obtain ⟨channel, counter, flags⟩ := r
    rw [hch] at h
    dsimp only at h
    split_ifs at h with hc
    have hcount := adds_rxCount s counter buf.length
    refine (hcount.keeps (keeps_rxStore h)).congr fun a _ => ?_
    rw [rxCounted, if_neg hon, hch]

end Receive

/-! ### Register writes -/

section Write

variable {s s' : Emac}

theorem keeps_teardown {hdp cp raw : ℕ} {val : Word} (hhdp : cpmacRxdmaoverruns < hdp) (hcp : cpmacRxdmaoverruns < cp)
    (hraw : ¬ Steady raw) (h : teardown s hdp cp raw val = some s') : Keeps s s' := by
  rw [teardown] at h
  dsimp only at h
  split_ifs at h with hc hdp0
  · cases h
    have hmem : ∀ m : GuestMem, Keeps s { s with mem := m } := fun m => keeps_of_cpmac rfl
    exact ((((hmem _).keeps (keeps_set _ (not_steady_of_lt (by omega)) _)).keeps
      (keeps_set _ (not_steady_of_lt (by omega)) _)).keeps (keeps_regSet _ hraw _)).keeps (keeps_update _)
  · cases h
    exact (((keeps_set s (not_steady_of_lt (by omega)) _).keeps
      (keeps_set _ (not_steady_of_lt (by omega)) _)).keeps (keeps_regSet _ hraw _)).keeps (keeps_update _)

theorem keeps_completionPointer (s : Emac) {raw : ℕ} (hraw : ¬ Steady raw) (cp offset : ℕ) (val : Word) :
    Keeps s (completionPointer s cp raw offset val) := by
  rw [completionPointer]
  split_ifs
  · exact (keeps_regClear s hraw _).keeps (keeps_update _)
  · exact Keeps.refl s

theorem keeps_maskSet (s : Emac) {offset : ℕ} (ho : ¬ Steady offset) (valid val : Word) :
    Keeps s (maskSet s offset valid val) := by
  rw [maskSet]
  exact (keeps_set s ho _).keeps (keeps_update _)

theorem keeps_maskClear (s : Emac) {offset : ℕ} (ho : ¬ Steady offset) (val : Word) :
    Keeps s (maskClear s offset val) := by
  rw [maskClear]
  exact (keeps_set s ho _).keeps (keeps_update _)

/-- A write to another register counts the frames that it sends. -/
theorem adds_write {fuel offset : ℕ} {val : Word} (ho : ¬ Steady offset) (h : ar7CpmacWrite fuel s offset val = some s') :
    Adds s s' fun a => if s.Sends offset val ∧ a = cpmacTxgoodframes then
      framesSent offset ((offset - cpmacTx0hdp) / 4) fuel val (s.set offset val) else 0 := by
  have quiet : ¬ (cpmacTx0hdp ≤ offset ∧ offset ≤ cpmacTx7hdp) → Keeps s s' →
      Adds s s' fun a => if s.Sends offset val ∧ a = cpmacTxgoodframes then
        framesSent offset ((offset - cpmacTx0hdp) / 4) fuel val (s.set offset val) else 0 := by
    intro hhdp hkeeps
    refine hkeeps.congr fun a _ => (if_neg fun hs => ?_).symm
    exact hhdp ⟨hs.1.1, hs.1.2.1⟩
  cases writeStep h with
  | teardown d hdp hoff hhdp h =>
    refine quiet (by rw [hoff]; cases d <;> decide) ?_
    exact keeps_teardown (Nat.lt_of_lt_of_le (by decide) hhdp) (by cases d <;> decide) (by cases d <;> decide) h
  | maskSet d hoff hstep =>
    subst hoff
    subst hstep
    exact quiet (by cases d <;> decide) (keeps_maskSet s ho _ _)
  | maskClear d hoff hstep =>
    subst hoff
    subst hstep
    exact quiet (by cases d <;> decide) (keeps_maskClear s (by cases d <;> decide) _)
  | macMask v hoff h =>
    subst h
    exact quiet (by rcases hoff with rfl | rfl <;> decide) ((keeps_set s (by decide) v).keeps (keeps_update _))
  | address phys hoff h =>
    subst h
    have hphys : ∀ u : Emac, Keeps u { u with phys := phys } := fun u => keeps_of_cpmac rfl
    exact quiet (by rw [hoff]; decide) ((keeps_set s (by decide) val).keeps (hphys _))
  | send hlo hhi h => exact adds_emacTransmit hlo hhi h
  | cp d hlo hhi h =>
    subst h
    refine quiet (fun hn => ?_) (keeps_completionPointer s (by cases d <;> decide) _ _ _)
    have : cpmacTx7hdp < d.cp := by cases d <;> decide
    omega
  | set a v ha hplain hmac h =>
    subst h
    refine quiet hplain.2 (keeps_set s ?_ v)
    rcases ha with rfl | rfl
    · exact ho
    · decide

/-- A write to a statistics register in write-to-decrement mode: the value is stored unless it
is more than the register has. -/
theorem write_stat {fuel : ℕ} (r : StatReg) (val : Word) (hmii : s.get cpmacMaccontrol &&& maccontrolGmiien ≠ 0) :
    ar7CpmacWrite fuel s r val = some (s.set r (if (s.get r).toNat < val.toNat then 0 else val)) := by
  obtain ⟨r, halign, hlo, hhi⟩ := r
  have hne : ∀ b, b < cpmacRxgoodframes → r ≠ b := by
    intro b hb
    omega
  rw [ar7CpmacWrite, if_neg (not_not.2 halign), if_neg (hne cpmacTxteardown (by decide)),
    if_neg (hne cpmacRxteardown (by decide)), if_neg (hne cpmacRxmbpenable (by decide)),
    if_neg (hne cpmacRxunicastset (by decide)), if_neg (hne cpmacRxunicastclear (by decide)),
    if_neg (hne cpmacRxmaxlen (by decide)), if_neg (hne cpmacTxintmaskset (by decide)),
    if_neg (hne cpmacTxintmaskclear (by decide)), if_neg (hne cpmacRxintmaskset (by decide)),
    if_neg (hne cpmacRxintmaskclear (by decide)), if_neg (hne cpmacMacintmaskset (by decide)),
    if_neg (hne cpmacMacintmaskclear (by decide)), if_neg (hne cpmacMacaddrhi (by decide)), if_pos ⟨hlo, hhi⟩, if_pos hmii]

theorem adds_handle {fuel : ℕ} {e : EmacEvent} (he : ∀ offset ho val, e = .write offset ho val → ¬ Steady offset)
    (h : s.handle fuel e = some s') : Adds s s' fun a => counted fuel s a e := by
  cases e with
  | write offset ho val => exact adds_write (he offset ho val rfl) h
  | receive buf => exact adds_receive h
  | memory mem =>
    cases h
    exact keeps_of_cpmac rfl

end Write

/-- `MACCONTROL` is no counter. -/
theorem counted_maccontrol (fuel : ℕ) (s : Emac) (e : EmacEvent) : counted fuel s cpmacMaccontrol e = 0 := by
  cases e with
  | write offset ho val => exact if_neg fun h => absurd h.2 (by decide)
  | receive buf =>
    show rxCounted s buf cpmacMaccontrol = 0
    rw [rxCounted]
    by_cases hoff : s.get cpmacMaccontrol &&& maccontrolGmiien = 0 ∨ s.get cpmacRxcontrol &&& rxcontrolRxen = 0
    · exact if_pos hoff
    rw [if_neg hoff]
    cases hch : rxChannel s buf with
    | none => rfl
    | some r =>
      obtain ⟨channel, counter, flags⟩ := r
      have hcounter : counter ≠ some cpmacMaccontrol := by
        rintro rfl
        exact absurd (rxChannel_counter hch).1 (by decide)
      dsimp only
      rw [if_neg hcounter, if_neg (by decide : ¬ cpmacMaccontrol = cpmacRxundersizedframes),
        if_neg (by decide : ¬ cpmacMaccontrol = cpmacRxoversizedframes),
        if_neg (by decide : ¬ cpmacMaccontrol = cpmacRxgoodframes)]
      simp
  | memory mem => rfl

/-! ### The books of the guest -/

/-- The MAC, the value of each statistics register that the guest has read and not yet written
back, what it has written back, and how often events have been counted. -/
structure Books where
  mac : Emac
  held : StatReg → Option Word
  drained : StatReg → ℕ
  counted : StatReg → ℕ

/-- What happens: an event that is no write to `MACCONTROL` or a statistics register, or the guest
reads a statistics register or writes it back. -/
inductive StatEvent where
  | other (e : EmacEvent) (he : ∀ offset ho val, e = .write offset ho val → ¬ Steady offset)
  | read (r : StatReg)
  | writeBack (r : StatReg)

def Books.step (fuel : ℕ) (b : Books) : StatEvent → Option Books
  | .other e _ => (b.mac.handle fuel e).map fun mac =>
      { b with mac := mac, counted := fun r => b.counted r + Ar7.counted fuel b.mac r e }
  | .read r => some { b with held := Function.update b.held r (some (ar7CpmacRead b.mac r)) }
  | .writeBack r =>
    match b.held r with
    | none => some b
    | some val => (ar7CpmacWrite fuel b.mac r val).map fun mac =>
        ⟨mac, Function.update b.held r none, Function.update b.drained r (b.drained r + val.toNat), b.counted⟩

def Books.fresh (mac : Emac) : Books := ⟨mac, fun _ => none, fun _ => 0, fun _ => 0⟩

/-- Nothing is lost from what the registers had and what was counted since, and a write of more
than a register has leaves zero. -/
structure Balanced (fuel : ℕ) (start : StatReg → ℕ) (b : Books) : Prop where
  conserved : ∀ r, b.drained r + (b.mac.get r).toNat = start r + b.counted r
  overdraw : ∀ r : StatReg, ∀ val : Word, (b.mac.get r).toNat < val.toNat →
    ∃ mac, ar7CpmacWrite fuel b.mac r val = some mac ∧ mac.get r = 0

/-- No counter passes `2 ^ 32`. -/
def Small (start : StatReg → ℕ) (b : Books) : Prop := ∀ r, start r + b.counted r < 2 ^ 32

/-- A value is written back when the register has twice as much. -/
def Halves (b : Books) (e : StatEvent) : Prop :=
  ∀ r val, e = .writeBack r → b.held r = some val → (b.mac.get r).toNat = 2 * val.toNat

section Books

variable {fuel : ℕ} {start : StatReg → ℕ} {b b' : Books}

/-- What holds between the steps: the MII is enabled, the books balance, and a register has at
least the value that was read. -/
structure Kept (start : StatReg → ℕ) (b : Books) : Prop where
  enabled : b.mac.get cpmacMaccontrol &&& maccontrolGmiien ≠ 0
  conserved : ∀ r, b.drained r + (b.mac.get r).toNat = start r + b.counted r
  held_le : ∀ r val, b.held r = some val → val.toNat ≤ (b.mac.get r).toNat

theorem Kept.balanced (h : Kept start b) : Balanced fuel start b := by
  refine ⟨h.conserved, fun r val hlt => ?_⟩
  refine ⟨_, write_stat r val h.enabled, ?_⟩
  rw [get_set, if_pos rfl, if_pos hlt]

theorem kept_other (h : Kept start b) (hsmall : Small start b') {e : EmacEvent}
    {he : ∀ offset ho val, e = .write offset ho val → ¬ Steady offset} (hstep : b.step fuel (.other e he) = some b') :
    Kept start b' := by
  obtain ⟨mac, hmac, rfl⟩ := Option.map_eq_some_iff.1 hstep
  have hadds : ∀ a, Steady a → mac.get a = b.mac.get a + BitVec.ofNat 32 (counted fuel b.mac a e) := adds_handle he hmac
  have hgrow : ∀ r : StatReg, (mac.get r).toNat = (b.mac.get r).toNat + counted fuel b.mac r e := by
    intro r
    have hr : start r + (b.counted r + counted fuel b.mac r e) < 2 ^ 32 := hsmall r
    have hc := h.conserved r
    rw [hadds r r.steady, BitVec.toNat_add, BitVec.toNat_ofNat, Nat.add_mod_mod, Nat.mod_eq_of_lt (by omega)]
  refine ⟨?_, fun r => ?_, fun r val hheld => ?_⟩
  · show mac.get cpmacMaccontrol &&& maccontrolGmiien ≠ 0
    rw [hadds cpmacMaccontrol (.inl rfl), counted_maccontrol, BitVec.ofNat_eq_ofNat, BitVec.add_zero]
    exact h.enabled
  · show b.drained r + (mac.get r).toNat = start r + (b.counted r + counted fuel b.mac r e)
    rw [hgrow]
    have := h.conserved r
    omega
  · show val.toNat ≤ (mac.get r).toNat
    rw [hgrow]
    exact (h.held_le r val hheld).trans (Nat.le_add_right _ _)

theorem kept_read (h : Kept start b) (r : StatReg) :
    Kept start { b with held := Function.update b.held r (some (ar7CpmacRead b.mac r)) } := by
  refine ⟨h.enabled, h.conserved, fun r' val hheld => ?_⟩
  by_cases hr : r' = r
  · subst hr
    have hval : some (ar7CpmacRead b.mac r') = some val := by simpa using hheld
    cases hval
    exact Nat.le_refl _
  · exact h.held_le r' val (by simpa [hr] using hheld)

theorem writeBack_some (h : Kept start b) {r : StatReg} {val : Word} (hheld : b.held r = some val)
    (hstep : b.step fuel (.writeBack r) = some b') :
    b' = ⟨b.mac.set r val, Function.update b.held r none,
      Function.update b.drained r (b.drained r + val.toNat), b.counted⟩ := by
  rw [Books.step, hheld] at hstep
  dsimp only at hstep
  rw [write_stat r val h.enabled, if_neg (Nat.not_lt.2 (h.held_le r val hheld))] at hstep
  exact (Option.some.inj hstep).symm

theorem kept_writeBack (h : Kept start b) {r : StatReg} (hhalf : Halves b (.writeBack r))
    (hstep : b.step fuel (.writeBack r) = some b') : Kept start b' := by
  cases hheld : b.held r with
  | none =>
    rw [Books.step, hheld] at hstep
    cases hstep
    exact h
  | some val =>
    rw [writeBack_some h hheld hstep]
    have hcur := hhalf r val rfl hheld
    refine ⟨?_, fun r' => ?_, fun r' val' hheld' => ?_⟩
    · show (b.mac.set r val).get cpmacMaccontrol &&& maccontrolGmiien ≠ 0
      rw [get_set, if_neg]
      · exact h.enabled
      · intro heq
        exact absurd (heq ▸ r.2.2.1) (by decide)
    · have hcons := h.conserved r'
      show Function.update b.drained r (b.drained r + val.toNat) r' + ((b.mac.set r val).get r').toNat =
        start r' + b.counted r'
      rw [get_set]
      by_cases hr : r' = r
      · subst hr
        rw [Function.update_self, if_pos rfl]
        omega
      · rw [Function.update_of_ne hr, if_neg fun heq => hr (Subtype.ext heq)]
        exact hcons
    · show val'.toNat ≤ ((b.mac.set r val).get r').toNat
      by_cases hr : r' = r
      · subst hr
        simp at hheld'
      · rw [get_set, if_neg fun heq => hr (Subtype.ext heq)]
        exact h.held_le r' val' (by simpa [hr] using hheld')

theorem halves_of_balanced (h : Kept start b) {r : StatReg} (hstep : b.step fuel (.writeBack r) = some b')
    (hbal : Balanced fuel start b') : Halves b (.writeBack r) := by
  rintro r' val heq hheld
  cases heq
  have hcons := h.conserved r
  have hcons' := hbal.conserved r
  rw [writeBack_some h hheld hstep] at hcons'
  have hcons'' : Function.update b.drained r (b.drained r + val.toNat) r + ((b.mac.set r val).get r).toNat =
      start r + b.counted r := hcons'
  rw [Function.update_self, get_set, if_pos rfl] at hcons''
  omega

end Books

/-- With the MII enabled and no counter passing `2 ^ 32`, the books balance in every state of a
run exactly when each value is written back while the register has twice as much. -/
theorem emac_statistics_iff (fuel : ℕ) (mac : Emac) (hmii : mac.get cpmacMaccontrol &&& maccontrolGmiien ≠ 0)
    (es : List StatEvent)
    (hsmall : ∀ n b, (es.take n).foldlM (Books.step fuel) (Books.fresh mac) = some b →
      Small (fun r => (mac.get r).toNat) b) :
    (∀ n b, (es.take n).foldlM (Books.step fuel) (Books.fresh mac) = some b →
        Balanced fuel (fun r => (mac.get r).toNat) b) ↔
      MeetsDone (Books.step fuel) Halves (Books.fresh mac) es := by
  have hfresh : Kept (fun r => (mac.get r).toNat) (Books.fresh mac) :=
    ⟨hmii, fun r => Nat.zero_add _, fun r val h => absurd h (by simp [Books.fresh])⟩
  refine foldlM_take_iff_meetsDone_within (P := Kept fun r => (mac.get r).toNat)
    (R := Small fun r => (mac.get r).toNat) (fun b h => h.balanced) ?_ ?_ es _ hfresh hsmall
  · intro b e b' h hstep hs hhalf
    cases e with
    | other e he => exact kept_other h hs hstep
    | read r =>
      cases hstep
      exact kept_read h r
    | writeBack r => exact kept_writeBack h hhalf hstep
  · intro b e b' h hstep _ hbal
    cases e with
    | other e he => exact fun r val heq => nomatch heq
    | read r => exact fun r val heq => nomatch heq
    | writeBack r => exact halves_of_balanced h hstep hbal

/-! ### A MAC that counts -/

theorem rxgoodframes_range : cpmacRxgoodframes % 4 = 0 ∧ cpmacRxgoodframes ≤ cpmacRxgoodframes ∧
    cpmacRxgoodframes ≤ cpmacRxdmaoverruns := by decide

/-- `CPMAC_RXGOODFRAMES`. -/
def rxgoodframes : StatReg := ⟨cpmacRxgoodframes, rxgoodframes_range⟩

/-- A MAC that receives frames to an address of zeros. -/
def listening : Emac where
  cpmac a := if a = cpmacMaccontrol then maccontrolGmiien else if a = cpmacRxcontrol then rxcontrolRxen
    else if a = cpmacRxmaxlen then 1518 else 0
  mem _ := 0
  phys := List.replicate 6 0
  vc := false
  irq := false
  sent := []
  bigEndian := false

theorem listening_get (r : StatReg) : listening.get r = 0 := by
  have hlo : cpmacRxgoodframes ≤ r.val := r.2.2.1
  have hconfig : cpmacMaccontrol < cpmacRxgoodframes ∧ cpmacRxcontrol < cpmacRxgoodframes ∧
    cpmacRxmaxlen < cpmacRxgoodframes := by decide
  show (if r.val = cpmacMaccontrol then _ else if r.val = cpmacRxcontrol then _
    else if r.val = cpmacRxmaxlen then _ else (0 : Word)) = 0
  rw [if_neg (by omega), if_neg (by omega), if_neg (by omega)]

theorem rxCounted_le (s : Emac) (buf : List (BitVec 8)) (r : ℕ) : rxCounted s buf r ≤ 3 := by
  rw [rxCounted]
  split_ifs with hoff
  · exact Nat.zero_le 3
  all_goals
    cases rxChannel s buf with
    | none => exact Nat.zero_le 3
    | some c => dsimp only; split_ifs <;> simp

/-- A frame of zeros arrives. -/
def zerosArrive : StatEvent := .other (.receive (List.replicate 64 0)) fun _ _ _ h => nomatch h

/-- A counter is read, and written back after a second frame. -/
def readAndDrain : List StatEvent := [zerosArrive, .read rxgoodframes, zerosArrive, .writeBack rxgoodframes]

theorem counted_step {b b' : Books} {e : StatEvent} (he : e ∈ readAndDrain) (hstep : b.step 0 e = some b') (r : StatReg) :
    b'.counted r ≤ b.counted r + 3 := by
  simp only [readAndDrain, List.mem_cons, List.not_mem_nil, or_false] at he
  have hframe : b.step 0 zerosArrive = some b' → b'.counted r ≤ b.counted r + 3 := by
    intro hstep
    obtain ⟨mac, -, rfl⟩ := Option.map_eq_some_iff.1 hstep
    exact Nat.add_le_add_left (rxCounted_le b.mac _ r) _
  rcases he with rfl | rfl | rfl | rfl
  · exact hframe hstep
  · cases hstep
    exact Nat.le_add_right _ _
  · exact hframe hstep
  · rw [Books.step] at hstep
    cases hheld : b.held rxgoodframes with
    | none =>
      rw [hheld] at hstep
      cases hstep
      exact Nat.le_add_right _ _
    | some val =>
      rw [hheld] at hstep
      obtain ⟨mac, -, rfl⟩ := Option.map_eq_some_iff.1 hstep
      exact Nat.le_add_right _ _

theorem counted_run {es : List StatEvent} {b b' : Books} (hes : ∀ e ∈ es, e ∈ readAndDrain)
    (hrun : es.foldlM (Books.step 0) b = some b') (r : StatReg) : b'.counted r ≤ b.counted r + 3 * es.length := by
  induction es generalizing b with
  | nil =>
    cases hrun
    exact Nat.le_add_right _ _
  | cons e es ih =>
    rw [List.foldlM_cons] at hrun
    obtain ⟨b₁, hstep, hrun⟩ := Option.bind_eq_some_iff.1 hrun
    have hfirst := counted_step (hes e List.mem_cons_self) hstep r
    have hrest := ih (fun e he => hes e (List.mem_cons_of_mem _ he)) hrun
    rw [List.length_cons]
    omega

theorem statistics_read_back : listening.get cpmacMaccontrol &&& maccontrolGmiien ≠ 0 ∧ ∀ n b,
    (readAndDrain.take n).foldlM (Books.step 0) (Books.fresh listening) = some b →
      Balanced 0 (fun r => (listening.get r).toNat) b := by
  refine ⟨by decide, (emac_statistics_iff 0 listening (by decide) readAndDrain fun n b h r => ?_).2 ?_⟩
  · have hle := counted_run (fun e he => List.mem_of_mem_take he) h r
    have hlen : (readAndDrain.take n).length ≤ 4 := List.length_take_le' n readAndDrain
    have hnone : (Books.fresh listening).counted r = 0 := rfl
    show (listening.get r).toNat + b.counted r < 2 ^ 32
    rw [listening_get, show (0 : Word).toNat = 0 from rfl]
    omega
  · -- at the write the register has both frames, and one was read
    have hrun : ∃ b, [zerosArrive, .read rxgoodframes, zerosArrive].foldlM (Books.step 0) (Books.fresh listening) = some b ∧
        b.held rxgoodframes = some 1 ∧ (b.mac.get rxgoodframes).toNat = 2 := ⟨_, rfl, rfl, rfl⟩
    obtain ⟨b, hb, hheld, hreg⟩ := hrun
    have hframe : ∀ b, Halves b zerosArrive := by
      intro b r val heq
      unfold zerosArrive at heq
      cases heq
    intro b₁ h₁
    refine ⟨hframe _, ?_⟩
    intro b₂ h₂
    refine ⟨by rintro r val ⟨⟩, ?_⟩
    intro b₃ h₃
    refine ⟨hframe _, ?_⟩
    intro b₄ _
    refine ⟨?_, trivial⟩
    have hb₃ : b = b₃ := by
      simp only [List.foldlM_cons, List.foldlM_nil, h₁, h₂, h₃, Option.bind_eq_bind, Option.bind_some] at hb
      exact (Option.some.inj hb).symm
    rintro r val heq hval
    cases heq
    rw [← hb₃] at hval ⊢
    obtain rfl := Option.some.inj (hheld.symm.trans hval)
    exact hreg

/-- A frame is counted, its counter read and written back. -/
def countAndDrain : List StatEvent := [zerosArrive, .read rxgoodframes, .writeBack rxgoodframes]

/-- The register keeps the count that the guest has taken. -/
theorem statistics_keep_count : ¬ ∀ (es : List StatEvent) (b : Books),
    es.foldlM (Books.step 0) (Books.fresh listening) = some b → Small (fun r => (listening.get r).toNat) b →
      Balanced 0 (fun r => (listening.get r).toNat) b := by
  intro h
  have hrun : ∃ b, countAndDrain.foldlM (Books.step 0) (Books.fresh listening) = some b ∧
      b.drained rxgoodframes = 1 ∧ (b.mac.get rxgoodframes).toNat = 1 ∧
        b.counted = fun r : StatReg => 0 + rxCounted listening (List.replicate 64 0) r :=
    ⟨_, rfl, rfl, rfl, rfl⟩
  obtain ⟨b, hb, hdrained, hreg, hcounted⟩ := hrun
  have hsmall : Small (fun r => (listening.get r).toNat) b := by
    intro r
    have hzero := listening_get r
    have hle := rxCounted_le listening (List.replicate 64 0) r
    dsimp only
    rw [hzero, hcounted]
    show (0 : Word).toNat + (0 + rxCounted listening (List.replicate 64 0) r) < 2 ^ 32
    have hnone : (0 : Word).toNat = 0 := rfl
    omega
  have hcons := (h _ b hb hsmall).conserved rxgoodframes
  rw [hdrained, hreg, hcounted] at hcons
  exact absurd hcons (by decide)

end Ar7Qemu.Ar7
