import Ar7Qemu.Lib.Run
import Ar7Qemu.Ar7.Emac
import Mathlib.Tactic.FinCases

/-! The interrupt request of the MAC and its vector register. `emac_update_interrupt` is the
only place that drives the request, and every change of a status or mask register reaches
it, so the request is always right. The vector collects channel numbers by `or` and drops
them only when no channel is left, so the theorem at the end says which steps leave it the
number of a pending channel. -/

namespace Ar7Qemu.Ar7

open Lib

/-- The two halves of the MAC. -/
inductive Dir where
  | tx
  | rx
  deriving DecidableEq

namespace Dir

def raw : Dir → ℕ
  | tx => cpmacTxintstatraw
  | rx => cpmacRxintstatraw

def mask : Dir → ℕ
  | tx => cpmacTxintmaskset
  | rx => cpmacRxintmaskset

def maskClear : Dir → ℕ
  | tx => cpmacTxintmaskclear
  | rx => cpmacRxintmaskclear

def teardown : Dir → ℕ
  | tx => cpmacTxteardown
  | rx => cpmacRxteardown

def cp : Dir → ℕ
  | tx => cpmacTx0cp
  | rx => cpmacRx0cp

/-- First bit of the field of the vector register. -/
def vecBit : Dir → ℕ
  | tx => 0
  | rx => 8

/-- The bit of the vector register that says whether the field is in use. -/
def orBit : Dir → ℕ
  | tx => 16
  | rx => 17

end Dir

namespace Emac

def stat (s : Emac) (d : Dir) : Word := s.get d.raw &&& s.get d.mask

/-- `TX_INT_VEC` or `RX_INT_VEC`. -/
def vec (s : Emac) (d : Dir) : BitVec 3 := (s.get cpmacMacinvector).extractLsb' d.vecBit 3

/-- `TX_INT_OR` or `RX_INT_OR`. -/
def intOr (s : Emac) (d : Dir) : Bool := (s.get cpmacMacinvector).getLsbD d.orBit

def macStat (s : Emac) : Word := s.get cpmacMacintstatraw &&& s.get cpmacMacintmaskset

/-- The request is high when a raw status bit is set and not masked. -/
def IrqRight (s : Emac) : Prop :=
  s.irq = true ↔ s.stat .tx ≠ 0 ∨ s.stat .rx ≠ 0 ∨ s.macStat ≠ 0

/-- A field in use names a channel whose raw status bit is set and not masked. -/
def VecRight (s : Emac) (d : Dir) : Prop :=
  s.intOr d = true → (s.stat d).getLsbD (s.vec d).toNat = true

end Emac

/-! ### Runs -/

/-- The raw status and vector registers, which the guest only reads. -/
def statusRegs : List ℕ := [cpmacTxintstatraw, cpmacRxintstatraw, cpmacMacintstatraw, cpmacMacinvector]

/-- A register write of the guest, a frame from the network, or a change of memory by the
guest or another device. -/
inductive EmacEvent where
  | write (offset : ℕ) (hoffset : offset ∉ statusRegs) (val : Word)
  | receive (buf : List (BitVec 8))
  | memory (mem : GuestMem)

def Emac.handle (fuel : ℕ) (s : Emac) : EmacEvent → Option Emac
  | .write offset _ val => ar7CpmacWrite fuel s offset val
  | .receive buf => ar7NicReceive s buf
  | .memory mem => some { s with mem := mem }

/-- The MAC at the start, with its registers zero or as `emac_reset` leaves them. -/
def Emac.init (reset : Bool) (mem : GuestMem) (phys : List (BitVec 8)) (vc bigEndian : Bool) : Emac :=
  ⟨if reset then emacReset else fun _ => 0, mem, phys, vc, false, [], bigEndian⟩

/-! ### What a step leaves -/

/-- A write of a head descriptor pointer that starts a transmission. -/
def Emac.Sends (s : Emac) (offset : ℕ) (val : Word) : Prop :=
  cpmacTx0hdp ≤ offset ∧ offset ≤ cpmacTx7hdp ∧ val ≠ 0 ∧
    s.get cpmacMaccontrol &&& maccontrolGmiien ≠ 0 ∧ s.get cpmacTxcontrol &&& txcontrolTxen ≠ 0

instance (s : Emac) (offset : ℕ) (val : Word) : Decidable (s.Sends offset val) :=
  inferInstanceAs (Decidable (_ ∧ _ ∧ _ ∧ _ ∧ _))

/-- The channel through whose descriptor a frame is stored, if there is one. -/
def Emac.stores (s : Emac) (buf : List (BitVec 8)) : Option ℕ :=
  if s.get cpmacMaccontrol &&& maccontrolGmiien = 0 ∨ s.get cpmacRxcontrol &&& rxcontrolRxen = 0 then
    none
  else
    match rxChannel s buf with
    | none => none
    | some (channel, _, _) =>
      let dp := s.get (cpmacRx0hdp + 4 * channel)
      if dp ≠ 0 ∧ (readCb s.mem dp).mode &&& cbOwner ≠ 0 then some channel else none

namespace EmacEvent

def raw (s : Emac) (d : Dir) : EmacEvent → Word
  | .write offset _ val =>
    if offset = d.teardown then s.get d.raw ||| bit val.toNat
    else if d.cp ≤ offset ∧ offset ≤ d.cp + 28 then
      if s.get offset = val then s.get d.raw &&& ~~~bit ((offset - d.cp) / 4) else s.get d.raw
    else if d = .tx ∧ s.Sends offset val then s.get d.raw ||| bit ((offset - cpmacTx0hdp) / 4)
    else s.get d.raw
  | .receive buf =>
    match d, s.stores buf with
    | .rx, some channel => s.get d.raw ||| bit channel
    | _, _ => s.get d.raw
  | .memory _ => s.get d.raw

def mask (s : Emac) (d : Dir) : EmacEvent → Word
  | .write offset _ val =>
    if offset = d.mask then s.get d.mask ||| (val &&& bits 7 0)
    else if offset = d.maskClear then s.get d.mask &&& ~~~val
    else s.get d.mask
  | _ => s.get d.mask

/-- The channel number that an event brings to the vector. -/
def num (s : Emac) (d : Dir) : EmacEvent → BitVec 3
  | .write offset _ val =>
    if d = .tx ∧ s.Sends offset val then BitVec.ofNat 3 ((offset - cpmacTx0hdp) / 4) else 0
  | .receive buf =>
    match d, s.stores buf with
    | .rx, some channel => BitVec.ofNat 3 channel
    | _, _ => 0
  | .memory _ => 0

end EmacEvent

/-- The steps that leave both vector fields right: no channel of the direction will be
pending and unmasked, or the old field together with the number of a channel that sends or
stores a frame is the number of one that will be. -/
def VectorSafe (s : Emac) (e : EmacEvent) : Prop :=
  ∀ d, e.raw s d &&& e.mask s d = 0 ∨
    (e.raw s d &&& e.mask s d).getLsbD (s.vec d ||| e.num s d).toNat = true

/-! ### The recomputed registers -/

@[simp]
theorem get_set (s : Emac) (a b : ℕ) (val : Word) : (s.set a val).get b = if b = a then val else s.get b :=
  regRead_regWrite _ _ _ _

theorem get_regSet (s : Emac) (a b : ℕ) (val : Word) :
    Emac.get { s with cpmac := regSet s.cpmac a val } b = if b = a then s.get b ||| val else s.get b :=
  regRead_regSet _ _ _ _

theorem get_regClear (s : Emac) (a b : ℕ) (val : Word) :
    Emac.get { s with cpmac := regClear s.cpmac a val } b = if b = a then s.get b &&& ~~~val else s.get b :=
  regRead_regClear _ _ _ _

/-- The registers that `emac_update_interrupt` writes. -/
def derivedRegs : List ℕ := [cpmacTxintstatmasked, cpmacRxintstatmasked, cpmacMacintstatmasked, cpmacMacinvector]

theorem get_update (s : Emac) {a : ℕ} (ha : a ∉ derivedRegs) : (emacUpdateInterrupt s).get a = s.get a := by
  simp only [derivedRegs, List.mem_cons, not_or, List.not_mem_nil, not_false_eq_true, and_true] at ha
  obtain ⟨h₁, h₂, h₃, h₄⟩ := ha
  simp only [emacUpdateInterrupt, Emac.get, Emac.set, regRead_regWrite, if_neg h₁, if_neg h₂, if_neg h₃, if_neg h₄]

/-- The vector register as `emac_update_interrupt` computes it from its old value. -/
def vectorOf (old tx rx mac : Word) : Word :=
  let v := old &&& 0xffff
  let v := if tx ≠ 0 then v ||| macinvectorTxIntOr else v &&& ~~~macinvectorTxIntVec
  let v := if rx ≠ 0 then v ||| macinvectorRxIntOr else v &&& ~~~macinvectorRxIntVec
  let v := if mac &&& macintstatHostpend ≠ 0 then v ||| macinvectorHostInt else v
  if mac &&& macintstatStatpend ≠ 0 then v ||| macinvectorStatusInt else v

theorem get_update_vector (s : Emac) : (emacUpdateInterrupt s).get cpmacMacinvector =
    vectorOf (s.get cpmacMacinvector) (s.stat .tx) (s.stat .rx) s.macStat :=
  (regRead_regWrite _ _ _ _).trans (if_pos rfl)

theorem irq_update (s : Emac) :
    (emacUpdateInterrupt s).irq = decide (s.stat .tx ≠ 0 ∨ s.stat .rx ≠ 0 ∨ s.macStat ≠ 0) := rfl

theorem getLsbD_vectorConstants : ∀ i < 18, macinvectorTxIntVec.getLsbD i = decide (i < 3) ∧
    macinvectorRxIntVec.getLsbD i = decide (8 ≤ i ∧ i < 11) ∧ macinvectorTxIntOr.getLsbD i = decide (i = 16) ∧
    macinvectorRxIntOr.getLsbD i = decide (i = 17) ∧ macinvectorHostInt.getLsbD i = false ∧
    macinvectorStatusInt.getLsbD i = false ∧ (0xffff : Word).getLsbD i = decide (i < 16) := by
  decide

/-- The bits of the vector register: a field survives while a channel of its direction is
pending, and the bit that announces it says whether one is. -/
theorem getLsbD_vectorOf (old tx rx mac : Word) {i : ℕ} (hi : i < 18) : (vectorOf old tx rx mac).getLsbD i =
    if i = 16 then decide (tx ≠ 0) else if i = 17 then decide (rx ≠ 0)
    else old.getLsbD i && (decide (tx ≠ 0) || !decide (i < 3)) && (decide (rx ≠ 0) || !decide (8 ≤ i ∧ i < 11)) := by
  obtain ⟨htv, hrv, hto, hro, hh, hs, hlow⟩ := getLsbD_vectorConstants i hi
  have hi32 : i < 32 := by omega
  have hstat : ∀ (p : Prop) [Decidable p] (v w : Word), w.getLsbD i = false →
      (if p then v ||| w else v).getLsbD i = v.getLsbD i := by
    intro p _ v w hw
    split_ifs
    · rw [BitVec.getLsbD_or, hw, Bool.or_false]
    · rfl
  have hfield : ∀ (p : Prop) [Decidable p] (v bit field : Word), (if p then v ||| bit else v &&& ~~~field).getLsbD i =
      (v.getLsbD i && (decide p || !field.getLsbD i) || decide p && bit.getLsbD i) := by
    intro p _ v bit field
    by_cases hp : p <;> simp [hp, hi32]
  unfold vectorOf
  dsimp only
  rw [hstat _ _ _ hs, hstat _ _ _ hh, hfield, hfield, BitVec.getLsbD_and, htv, hrv, hto, hro, hlow]
  generalize old.getLsbD i = b, decide (tx ≠ 0) = t, decide (rx ≠ 0) = r
  clear htv hrv hto hro hlow hstat hfield hh hs
  by_cases h₁₆ : i = 16
  · subst h₁₆
    simp
  by_cases h₁₇ : i = 17
  · subst h₁₇
    simp
  have hlt : i < 16 := by omega
  simp [h₁₆, h₁₇, hlt]

theorem stat_update (s : Emac) (d : Dir) : (emacUpdateInterrupt s).stat d = s.stat d := by
  cases d <;> rw [Emac.stat, get_update _ (by decide), get_update _ (by decide)] <;> rfl

theorem intOr_update (s : Emac) (d : Dir) : (emacUpdateInterrupt s).intOr d = decide (s.stat d ≠ 0) := by
  rw [Emac.intOr, get_update_vector]
  cases d with
  | tx => exact (getLsbD_vectorOf _ _ _ _ (by decide)).trans (if_pos rfl)
  | rx => exact (getLsbD_vectorOf _ _ _ _ (by decide)).trans rfl

theorem vec_update (s : Emac) (d : Dir) :
    (emacUpdateInterrupt s).vec d = if s.stat d ≠ 0 then s.vec d else 0 := by
  refine BitVec.eq_of_getLsbD_eq fun i hi => ?_
  have hlt : d.vecBit + i < 18 := by cases d <;> simp only [Dir.vecBit] <;> omega
  have h16 : ¬ (d.vecBit + i = 16) := by cases d <;> simp only [Dir.vecBit] <;> omega
  have h17 : ¬ (d.vecBit + i = 17) := by cases d <;> simp only [Dir.vecBit] <;> omega
  rw [Emac.vec, get_update_vector, BitVec.getLsbD_extractLsb', getLsbD_vectorOf _ _ _ _ hlt, if_neg h16, if_neg h17]
  cases d with
  | tx =>
    have h₁ : Dir.tx.vecBit + i < 3 := by simpa [Dir.vecBit] using hi
    have h₂ : ¬ (8 ≤ Dir.tx.vecBit + i ∧ Dir.tx.vecBit + i < 11) := fun h => by omega
    by_cases hz : s.stat .tx = 0
    · simp [hz, h₁]
    · rw [if_pos hz, decide_eq_true hz, Emac.vec, BitVec.getLsbD_extractLsb']
      simp [h₁, h₂]
  | rx =>
    have h₁ : ¬ Dir.rx.vecBit + i < 3 := by simp only [Dir.vecBit]; omega
    have h₂ : 8 ≤ Dir.rx.vecBit + i ∧ Dir.rx.vecBit + i < 11 := by simp only [Dir.vecBit]; omega
    by_cases hz : s.stat .rx = 0
    · simp [hz, h₂]
    · rw [if_pos hz, decide_eq_true hz, Emac.vec, BitVec.getLsbD_extractLsb']
      simp [h₁, h₂]

/-! ### Settled states -/

/-- The state as `emac_update_interrupt` leaves it. -/
structure Emac.Settled (s : Emac) : Prop where
  irq : s.IrqRight
  intOr : ∀ d, s.intOr d = decide (s.stat d ≠ 0)
  vec : ∀ d, s.stat d = 0 → s.vec d = 0

theorem settled_update (s : Emac) : (emacUpdateInterrupt s).Settled where
  irq := by
    have hmac : (emacUpdateInterrupt s).macStat = s.macStat := by
      rw [Emac.macStat, get_update _ (by decide), get_update _ (by decide)]
      rfl
    rw [Emac.IrqRight, stat_update, stat_update, hmac, irq_update, decide_eq_true_iff]
  intOr d := by rw [stat_update, intOr_update]
  vec d h := by
    rw [stat_update] at h
    rw [vec_update, if_neg (not_not.2 h)]

/-- The registers that the request and the vector depend on. -/
def signalRegs : List ℕ := [cpmacTxintstatraw, cpmacTxintmaskset, cpmacRxintstatraw, cpmacRxintmaskset,
  cpmacMacintstatraw, cpmacMacintmaskset, cpmacMacinvector]

/-- Two states with the same signals. -/
structure SameSignals (s s' : Emac) : Prop where
  irq : s'.irq = s.irq
  get : ∀ a ∈ signalRegs, s'.get a = s.get a

namespace SameSignals

theorem refl (s : Emac) : SameSignals s s := ⟨rfl, fun _ _ => rfl⟩

theorem trans {s s₁ s₂ : Emac} (h : SameSignals s s₁) (h' : SameSignals s₁ s₂) : SameSignals s s₂ :=
  ⟨h'.irq.trans h.irq, fun a ha => (h'.get a ha).trans (h.get a ha)⟩

theorem set (s : Emac) {a : ℕ} (ha : a ∉ signalRegs) (val : Word) : SameSignals s (s.set a val) := by
  refine ⟨rfl, fun b hb => ?_⟩
  have hne : b ≠ a := fun h => ha (h ▸ hb)
  rw [get_set, if_neg hne]

theorem of_cpmac {s s' : Emac} (hcpmac : s'.cpmac = s.cpmac) (hirq : s'.irq = s.irq) : SameSignals s s' := by
  refine ⟨hirq, fun a _ => ?_⟩
  rw [Emac.get, hcpmac]
  rfl

variable {s s' : Emac} (h : SameSignals s s')
include h

theorem raw (d : Dir) : s'.get d.raw = s.get d.raw := by cases d <;> exact h.get _ (by decide)

theorem mask (d : Dir) : s'.get d.mask = s.get d.mask := by cases d <;> exact h.get _ (by decide)

theorem stat (d : Dir) : s'.stat d = s.stat d := by rw [Emac.stat, h.raw, h.mask]; rfl

theorem vec (d : Dir) : s'.vec d = s.vec d := by rw [Emac.vec, h.get _ (by decide)]; rfl

theorem settled (hs : s.Settled) : s'.Settled where
  irq := by
    have hmac : s'.macStat = s.macStat := by
      rw [Emac.macStat, h.get _ (by decide), h.get _ (by decide)]
      rfl
    rw [Emac.IrqRight, h.irq, h.stat, h.stat, hmac]
    exact hs.irq
  intOr d := by
    rw [Emac.intOr, h.get _ (by decide), h.stat]
    exact hs.intOr d
  vec d hz := by
    rw [h.stat] at hz
    rw [h.vec, hs.vec d hz]

end SameSignals

/-- What an operation makes of the raw status, the masks and the vector, when it brings the
channel numbers `num` to the vector. -/
structure Effect (s s' : Emac) (r m : Dir → Word) (num : Dir → BitVec 3) : Prop where
  settled : s'.Settled
  raw : ∀ d, s'.get d.raw = r d
  mask : ∀ d, s'.get d.mask = m d
  vec : ∀ d, s'.vec d = if r d &&& m d ≠ 0 then s.vec d ||| num d else 0

/-- An operation without effect on the signals of the channels. -/
abbrev Quiet (s s' : Emac) : Prop := Effect s s' (fun d => s.get d.raw) (fun d => s.get d.mask) fun _ => 0

theorem Effect.update {s u : Emac} {num : Dir → BitVec 3} (hvec : ∀ d, u.vec d = s.vec d ||| num d) :
    Effect s (emacUpdateInterrupt u) (fun d => u.get d.raw) (fun d => u.get d.mask) num where
  settled := settled_update u
  raw d := by cases d <;> exact get_update _ (by decide)
  mask d := by cases d <;> exact get_update _ (by decide)
  vec d := by rw [vec_update, hvec]; rfl

theorem SameSignals.quiet {s s' : Emac} (h : SameSignals s s') (hs : s.Settled) : Quiet s s' where
  settled := h.settled hs
  raw := h.raw
  mask := h.mask
  vec d := by
    rw [h.vec]
    split_ifs with hz
    · simp
    · exact hs.vec d (not_not.1 hz)

theorem Quiet.vec_eq {s s' : Emac} (hs : s.Settled) (h : Quiet s s') (d : Dir) : s'.vec d = s.vec d := by
  rw [h.vec]
  split_ifs with hz
  · simp
  · exact (hs.vec d (not_not.1 hz)).symm

theorem Quiet.then {s s₁ s₂ : Emac} {raw mask : Dir → Word} {num : Dir → BitVec 3} (hs : s.Settled)
    (h : Quiet s s₁) (h' : Effect s₁ s₂ raw mask num) : Effect s s₂ raw mask num where
  settled := h'.settled
  raw := h'.raw
  mask := h'.mask
  vec d := by rw [h'.vec, Quiet.vec_eq hs h]

theorem Effect.congr {s s' : Emac} {r r' m m' : Dir → Word} {num num' : Dir → BitVec 3} (h : Effect s s' r m num)
    (hr : ∀ d, r d = r' d) (hm : ∀ d, m d = m' d) (hn : ∀ d, num d = num' d) : Effect s s' r' m' num' := by
  rw [← funext hr, ← funext hm, ← funext hn]
  exact h

theorem Effect.trans {s s₁ s₂ : Emac} {r m : Dir → Word} {num : Dir → BitVec 3} (h : Effect s s₁ r m num)
    (h' : Effect s₁ s₂ r m num) : Effect s s₂ r m num where
  settled := h'.settled
  raw := h'.raw
  mask := h'.mask
  vec d := by
    rw [h'.vec, h.vec]
    split_ifs
    · rw [BitVec.or_assoc, BitVec.or_self]
    · rfl

theorem vec_congr {s u : Emac} (h : u.get cpmacMacinvector = s.get cpmacMacinvector) (d : Dir) :
    u.vec d = s.vec d ||| 0 := by
  rw [Emac.vec, h, show (0 : BitVec 3) = 0#3 from rfl, BitVec.or_zero]
  rfl

/-! ### The operations -/

section Operations

variable {s s' : Emac} (hs : s.Settled)

include hs in
theorem quiet_statusregInc {offset : ℕ} (ho : offset ∉ signalRegs) : Quiet s (statusregInc s offset) := by
  have hset := SameSignals.set s ho (s.get offset + 1)
  rw [statusregInc]
  split_ifs
  · refine (Effect.update (vec_congr ?_)).congr (fun d => ?_) (fun d => ?_) fun d => rfl
    · rw [get_regSet, if_neg (by decide)]
      exact hset.get _ (by decide)
    · rw [get_regSet, if_neg (by cases d <;> decide), hset.raw]
    · rw [get_regSet, if_neg (by cases d <;> decide), hset.mask]
  · exact hset.quiet hs

theorem vec_regSet (d d' : Dir) {channel : ℕ} (hc : channel < 8) :
    Emac.vec { s with cpmac := regSet s.cpmac cpmacMacinvector (BitVec.ofNat 32 channel <<< d.vecBit) } d' =
      s.vec d' ||| if d' = d then BitVec.ofNat 3 channel else 0 := by
  have hbits : ∀ c < 8, (BitVec.ofNat 32 c <<< d.vecBit).extractLsb' d'.vecBit 3 =
      if d' = d then BitVec.ofNat 3 c else 0 := by
    cases d <;> cases d' <;> decide
  rw [Emac.vec, get_regSet, if_pos rfl, BitVec.extractLsb'_or, hbits channel hc]
  rfl

/-- Raising a raw status bit together with the number of its channel. -/
theorem effect_signal (d : Dir) {channel : ℕ} (hc : channel < 8) :
    Effect s (emacUpdateInterrupt { s with
        cpmac := regSet (regSet s.cpmac d.raw (bit channel)) cpmacMacinvector (BitVec.ofNat 32 channel <<< d.vecBit) })
      (fun d' => if d' = d then s.get d'.raw ||| bit channel else s.get d'.raw) (fun d' => s.get d'.mask)
      fun d' => if d' = d then BitVec.ofNat 3 channel else 0 := by
  refine (Effect.update fun d' => ?_).congr (fun d' => ?_) (fun d' => ?_) fun d' => rfl
  · have hv : Emac.vec { s with cpmac := regSet s.cpmac d.raw (bit channel) } d' = s.vec d' := by
      rw [Emac.vec, get_regSet, if_neg (by cases d <;> decide)]
      rfl
    rw [← hv]
    exact vec_regSet (s := { s with cpmac := regSet s.cpmac d.raw (bit channel) }) d d' hc
  · show regRead (regSet (regSet s.cpmac d.raw _) cpmacMacinvector _) d'.raw = _
    rw [regRead_regSet, if_neg (by cases d' <;> decide), regRead_regSet]
    cases d <;> cases d' <;> rfl
  · show regRead (regSet (regSet s.cpmac d.raw _) cpmacMacinvector _) d'.mask = _
    rw [regRead_regSet, if_neg (by cases d' <;> decide), regRead_regSet,
      if_neg (by cases d <;> cases d' <;> decide)]
    rfl

theorem effect_raw {u : Emac} (hu : SameSignals s u) (d : Dir) (v : Word) :
    Effect s (emacUpdateInterrupt (u.set d.raw v)) (fun d' => if d' = d then v else s.get d'.raw)
      (fun d' => s.get d'.mask) fun _ => 0 := by
  refine (Effect.update (vec_congr ?_)).congr (fun d' => ?_) (fun d' => ?_) fun _ => rfl
  · rw [get_set, if_neg (by cases d <;> decide)]
    exact hu.get _ (by decide)
  · rw [get_set, hu.raw]
    cases d <;> cases d' <;> rfl
  · rw [get_set, if_neg (by cases d <;> cases d' <;> decide), hu.mask]

theorem effect_mask (d : Dir) (v : Word) :
    Effect s (emacUpdateInterrupt (s.set d.mask v)) (fun d' => s.get d'.raw)
      (fun d' => if d' = d then v else s.get d'.mask) fun _ => 0 := by
  refine (Effect.update (vec_congr ?_)).congr (fun d' => ?_) (fun d' => ?_) fun _ => rfl
  · rw [get_set, if_neg (by cases d <;> decide)]
  · rw [get_set, if_neg (by cases d <;> cases d' <;> decide)]
  · rw [get_set]
    cases d <;> cases d' <;> rfl

theorem quiet_macMask (v : Word) : Quiet s (emacUpdateInterrupt (s.set cpmacMacintmaskset v)) := by
  refine (Effect.update (vec_congr ?_)).congr (fun d => ?_) (fun d => ?_) fun _ => rfl
  · rw [get_set, if_neg (by decide)]
  · rw [get_set, if_neg (by cases d <;> decide)]
  · rw [get_set, if_neg (by cases d <;> decide)]

/-- What the transmission of a chain on a channel does. -/
abbrev Sent (s s' : Emac) (channel : ℕ) : Prop :=
  Effect s s' (fun d => if d = .tx then s.get d.raw ||| bit channel else s.get d.raw) (fun d => s.get d.mask)
    fun d => if d = .tx then BitVec.ofNat 3 channel else 0

theorem not_mem_signalRegs_of_le {a : ℕ} (ha : 0x200 ≤ a) : a ∉ signalRegs := by
  intro h
  have hall : ∀ b ∈ signalRegs, b < 0x200 := by decide
  exact absurd (hall a h) (Nat.not_lt.2 ha)

theorem Quiet.signal {s u : Emac} (hs : s.Settled) (h : Quiet s u) (d : Dir) {channel : ℕ} (hc : channel < 8) :
    Effect s (emacUpdateInterrupt { u with
        cpmac := regSet (regSet u.cpmac d.raw (bit channel)) cpmacMacinvector (BitVec.ofNat 32 channel <<< d.vecBit) })
      (fun d' => if d' = d then s.get d'.raw ||| bit channel else s.get d'.raw) (fun d' => s.get d'.mask)
      fun d' => if d' = d then BitVec.ofNat 3 channel else 0 :=
  Quiet.then hs h ((effect_signal d hc).congr (fun d' => by rw [h.raw]) (fun d' => h.mask d') fun _ => rfl)

include hs in
theorem sent_txSignal {offset channel : ℕ} (address next : Word) (ho : cpmacTx0hdp ≤ offset) (hc : channel < 8) :
    Sent s (txSignal s offset channel address next) channel := by
  have ho' : offset ∉ signalRegs := not_mem_signalRegs_of_le (Nat.le_trans (by decide) ho)
  have hcp : cpmacTx0cp + 4 * channel ∉ signalRegs :=
    not_mem_signalRegs_of_le (Nat.le_trans (by decide) (Nat.le_add_right cpmacTx0cp _))
  have hcount : Quiet s (statusregInc s cpmacTxgoodframes) := quiet_statusregInc hs (by decide)
  have hsame := (SameSignals.set (statusregInc s cpmacTxgoodframes) ho' next).trans (SameSignals.set _ hcp address)
  have hquiet := Quiet.then hs hcount ((hsame.quiet hcount.settled).congr hcount.raw hcount.mask fun _ => rfl)
  have hnum : BitVec.ofNat 32 channel = BitVec.ofNat 32 channel <<< Dir.tx.vecBit := (BitVec.shiftLeft_zero _).symm
  rw [txSignal, hnum]
  exact Quiet.signal hs hquiet .tx hc

theorem same_sendPacket (s : Emac) (m : GuestMem) (buffer : List (BitVec 8)) :
    SameSignals s (sendPacket { s with mem := m } buffer) := by
  unfold sendPacket
  split_ifs
  · exact SameSignals.of_cpmac rfl rfl
  · exact SameSignals.of_cpmac rfl rfl

include hs in
theorem sent_packet {offset channel : ℕ} (m : GuestMem) (buffer : List (BitVec 8)) (address next : Word)
    (ho : cpmacTx0hdp ≤ offset) (hc : channel < 8) :
    Sent s (txSignal (sendPacket { s with mem := m } buffer) offset channel address next) channel := by
  have hsame := same_sendPacket s m buffer
  have hsig := sent_txSignal (hsame.settled hs) address next ho hc
  refine Quiet.then hs (hsame.quiet hs) (hsig.congr (fun d => ?_) hsame.mask fun _ => rfl)
  rw [hsame.raw]

include hs in
theorem sent_transmitOne {offset channel : ℕ} {address next : Word} (ho : cpmacTx0hdp ≤ offset) (hc : channel < 8)
    (h : transmitOne s offset channel address = some (s', next)) : Sent s s' channel := by
  rw [transmitOne] at h
  split_ifs at h with hok
  obtain ⟨rfl, -⟩ := Prod.mk.inj (Option.some.inj h)
  exact sent_packet hs _ _ _ _ ho hc

include hs in
theorem sent_transmitLoop {offset channel : ℕ} (ho : cpmacTx0hdp ≤ offset) (hc : channel < 8) :
    ∀ (fuel : ℕ) (address : Word), transmitLoop offset channel fuel address s = some s' → Sent s s' channel := by
  intro fuel
  induction fuel generalizing s with
  | zero =>
    intro address h
    cases h
  | succ fuel ih =>
    intro address h
    rw [transmitLoop] at h
    cases hone : transmitOne s offset channel address with
    | none =>
      rw [hone] at h
      cases h
    | some r =>
      obtain ⟨s₁, next⟩ := r
      have hone' := sent_transmitOne hs ho hc hone
      rw [hone] at h
      dsimp only at h
      by_cases hn : next = 0
      · rw [if_neg (not_not.2 hn)] at h
        cases h
        exact hone'
      · rw [if_pos hn] at h
        -- the bit and the number of the channel are there already
        refine hone'.trans ((ih hone'.settled next h).congr (fun d => ?_) hone'.mask fun _ => rfl)
        rw [hone'.raw]
        split_ifs
        · rw [BitVec.or_assoc, BitVec.or_self]
        · rfl

include hs in
theorem effect_emacTransmit {fuel offset : ℕ} {address : Word} (hlo : cpmacTx0hdp ≤ offset) (hhi : offset ≤ cpmacTx7hdp)
    (h : emacTransmit fuel s offset address = some s') :
    if s.Sends offset address then Sent s s' ((offset - cpmacTx0hdp) / 4) else Quiet s s' := by
  have ho : offset ∉ signalRegs := not_mem_signalRegs_of_le (Nat.le_trans (by decide) hlo)
  have hset := SameSignals.set s ho address
  have hget : ∀ a, a < cpmacTx0hdp → (s.set offset address).get a = s.get a := fun a ha => by
    have hne : a ≠ offset := by omega
    rw [get_set, if_neg hne]
  rw [emacTransmit, hget _ (by decide), hget _ (by decide)] at h
  by_cases hsend : s.Sends offset address
  · rw [if_pos hsend]
    obtain ⟨_, _, haddr, hmii, htxen⟩ := hsend
    rw [if_neg haddr, if_neg hmii, if_neg htxen] at h
    have hc : (offset - cpmacTx0hdp) / 4 < 8 := by
      have : cpmacTx7hdp = cpmacTx0hdp + 28 := rfl
      omega
    have hsent := sent_transmitLoop (hset.settled hs) hlo hc fuel address h
    refine Quiet.then hs (hset.quiet hs) (hsent.congr (fun d => ?_) hset.mask fun _ => rfl)
    rw [hset.raw]
  · rw [if_neg hsend]
    have hdone : some (s.set offset address) = some s' := by
      rw [← h]
      by_cases haddr : address = 0
      · rw [if_pos haddr]
      by_cases hmii : s.get cpmacMaccontrol &&& maccontrolGmiien = 0
      · rw [if_neg haddr, if_pos hmii]
      by_cases htxen : s.get cpmacTxcontrol &&& txcontrolTxen = 0
      · rw [if_neg haddr, if_neg hmii, if_pos htxen]
      exact absurd ⟨hlo, hhi, haddr, hmii, htxen⟩ hsend
    cases hdone
    exact hset.quiet hs

theorem effect_teardown {hdp cp : ℕ} {val : Word} (d : Dir) (hhdp : 0x200 ≤ hdp) (hcp : 0x200 ≤ cp)
    (h : teardown s hdp cp d.raw val = some s') :
    Effect s s' (fun d' => if d' = d then s.get d.raw ||| bit val.toNat else s.get d'.raw) (fun d' => s.get d'.mask)
      fun _ => 0 := by
  have key : ∀ u, SameSignals s u →
      Effect s (emacUpdateInterrupt { (u.set (hdp + 4 * val.toNat) 0).set (cp + 4 * val.toNat) 0xfffffffc with
        cpmac := regSet ((u.set (hdp + 4 * val.toNat) 0).set (cp + 4 * val.toNat) 0xfffffffc).cpmac d.raw
          (bit val.toNat) })
        (fun d' => if d' = d then s.get d.raw ||| bit val.toNat else s.get d'.raw) (fun d' => s.get d'.mask)
        fun _ => 0 := by
    intro u hu
    have hhdp' := not_mem_signalRegs_of_le (Nat.le_trans hhdp (Nat.le_add_right _ (4 * val.toNat)))
    have hcp' := not_mem_signalRegs_of_le (Nat.le_trans hcp (Nat.le_add_right _ (4 * val.toNat)))
    have hsame := (hu.trans (SameSignals.set u hhdp' 0)).trans (SameSignals.set _ hcp' 0xfffffffc)
    rw [← hsame.raw d]
    exact effect_raw hsame d _
  rw [teardown] at h
  split_ifs at h with hc hdp0
  · cases h
    exact key { s with mem := _ } (SameSignals.of_cpmac rfl rfl)
  · cases h
    exact key s (SameSignals.refl s)

include hs in
theorem effect_completionPointer (cp offset : ℕ) (val : Word) (d : Dir) :
    Effect s (completionPointer s cp d.raw offset val)
      (fun d' => if d' = d then
        if s.get offset = val then s.get d.raw &&& ~~~bit ((offset - cp) / 4) else s.get d.raw
        else s.get d'.raw) (fun d' => s.get d'.mask) fun _ => 0 := by
  rw [completionPointer]
  split_ifs with hval
  · exact effect_raw (SameSignals.refl s) d _
  · refine ((SameSignals.refl s).quiet hs).congr (fun d' => ?_) (fun _ => rfl) fun _ => rfl
    split_ifs with hd
    · rw [hd]
    · rfl

end Operations

/-! ### Reception -/

/-- What the counters of a frame leave alone. -/
structure Counted (s s' : Emac) : Prop where
  quiet : Quiet s s'
  mem : s'.mem = s.mem
  get : ∀ a, cpmacTx0hdp ≤ a → s'.get a = s.get a

theorem Counted.refl {s : Emac} (hs : s.Settled) : Counted s s :=
  ⟨(SameSignals.refl s).quiet hs, rfl, fun _ _ => rfl⟩

theorem Counted.trans {s s₁ s₂ : Emac} (hs : s.Settled) (h : Counted s s₁) (h' : Counted s₁ s₂) : Counted s s₂ :=
  ⟨Quiet.then hs h.quiet (h'.quiet.congr h.quiet.raw h.quiet.mask fun _ => rfl), h'.mem.trans h.mem,
    fun a ha => (h'.get a ha).trans (h.get a ha)⟩

theorem counted_statusregInc {s : Emac} (hs : s.Settled) (offset : ℕ) (hlo : cpmacRxgoodframes ≤ offset)
    (hhi : offset < cpmacTx0hdp) : Counted s (statusregInc s offset) := by
  refine ⟨quiet_statusregInc hs (not_mem_signalRegs_of_le hlo), ?_, fun a ha => ?_⟩
  · rw [statusregInc]
    split_ifs <;> rfl
  · have hne : a ≠ offset := by omega
    have hbig : ∀ b, b ∈ cpmacMacintstatraw :: derivedRegs → b < cpmacTx0hdp := by decide
    have hraw : a ≠ cpmacMacintstatraw := fun h => by
      have := hbig a (h ▸ List.mem_cons_self)
      omega
    have hder : a ∉ derivedRegs := fun h => by
      have := hbig a (List.mem_cons_of_mem _ h)
      omega
    rw [statusregInc]
    split_ifs
    · rw [get_update _ hder, get_regSet, if_neg hraw, get_set, if_neg hne]
    · rw [get_set, if_neg hne]

theorem rxChannel_counter {s : Emac} {buf : List (BitVec 8)} {channel counter : ℕ} {flags : Word}
    (h : rxChannel s buf = some (channel, some counter, flags)) :
    cpmacRxgoodframes ≤ counter ∧ counter < cpmacTx0hdp := by
  simp only [rxChannel] at h
  split_ifs at h <;> cases h <;> decide

theorem counted_rxCount {s : Emac} (hs : s.Settled) {counter : Option ℕ} (size : ℕ)
    (hc : ∀ o, counter = some o → cpmacRxgoodframes ≤ o ∧ o < cpmacTx0hdp) :
    Counted s (rxCount s counter size).1 := by
  have h₁ : Counted s (counter.elim s (statusregInc s)) := by
    cases counter with
    | none => exact Counted.refl hs
    | some o => exact counted_statusregInc hs o (hc o rfl).1 (hc o rfl).2
  have hs₁ := h₁.quiet.settled
  rw [rxCount]
  split_ifs
  · have h₂ := counted_statusregInc hs₁ cpmacRxundersizedframes (by decide) (by decide)
    exact (h₁.trans hs h₂).trans hs (counted_statusregInc h₂.quiet.settled _ (by decide) (by decide))
  · have h₂ := counted_statusregInc hs₁ cpmacRxoversizedframes (by decide) (by decide)
    exact (h₁.trans hs h₂).trans hs (counted_statusregInc h₂.quiet.settled _ (by decide) (by decide))
  · exact h₁.trans hs (counted_statusregInc hs₁ _ (by decide) (by decide))

abbrev Stored (s s' : Emac) (channel : ℕ) : Prop :=
  Effect s s' (fun d => if d = .rx then s.get d.raw ||| bit channel else s.get d.raw) (fun d => s.get d.mask)
    fun d => if d = .rx then BitVec.ofNat 3 channel else 0

theorem stored_rxSignal {s : Emac} (hs : s.Settled) (m : GuestMem) {channel : ℕ} (dp next : Word)
    (hc : channel < 8) : Stored s (rxSignal { s with mem := m } channel dp next) channel := by
  have hu : SameSignals s { s with mem := m } := SameSignals.of_cpmac rfl rfl
  have hhdp : cpmacRx0hdp + 4 * channel ∉ signalRegs :=
    not_mem_signalRegs_of_le (Nat.le_trans (by decide) (Nat.le_add_right cpmacRx0hdp _))
  have hcp : cpmacRx0cp + 4 * channel ∉ signalRegs :=
    not_mem_signalRegs_of_le (Nat.le_trans (by decide) (Nat.le_add_right cpmacRx0cp _))
  have hsame := (hu.trans (SameSignals.set _ hhdp next)).trans (SameSignals.set _ hcp dp)
  exact Quiet.signal hs (hsame.quiet hs) .rx hc

theorem effect_rxStore {s s' : Emac} (hs : s.Settled) {channel : ℕ} {flags : Word} {buf : List (BitVec 8)}
    (hc : channel < 8) (h : rxStore s channel flags buf = some s') :
    if s.get (cpmacRx0hdp + 4 * channel) ≠ 0 ∧
        (readCb s.mem (s.get (cpmacRx0hdp + 4 * channel))).mode &&& cbOwner ≠ 0 then
      Stored s s' channel
    else Quiet s s' := by
  rw [rxStore] at h
  by_cases hdp : s.get (cpmacRx0hdp + 4 * channel) = 0
  · rw [if_pos hdp] at h
    cases h
    rw [if_neg fun hn => hn.1 hdp]
    exact (SameSignals.refl s).quiet hs
  rw [if_neg hdp] at h
  by_cases howner : (readCb s.mem (s.get (cpmacRx0hdp + 4 * channel))).mode &&& cbOwner ≠ 0
  · rw [if_pos ⟨hdp, howner⟩]
    dsimp only at h
    rw [if_pos howner] at h
    by_cases hlen : buf.length ≤ (readCb s.mem (s.get (cpmacRx0hdp + 4 * channel))).length.toNat
    · rw [if_pos hlen] at h
      cases h
      exact stored_rxSignal hs _ _ _ hc
    · rw [if_neg hlen] at h
      cases h
  · rw [if_neg fun hn => howner hn.2]
    dsimp only at h
    rw [if_neg howner] at h
    cases h
    exact (SameSignals.refl s).quiet hs

theorem effect_receive {s s' : Emac} (hs : s.Settled) {buf : List (BitVec 8)} (h : ar7NicReceive s buf = some s') :
    match s.stores buf with
    | some channel => Stored s s' channel
    | none => Quiet s s' := by
  have hrefl := (SameSignals.refl s).quiet hs
  rw [ar7NicReceive] at h
  rw [Emac.stores]
  split_ifs at h with hmii hrx hassert
  · cases h
    rw [if_pos (.inl hmii)]
    exact hrefl
  · cases h
    rw [if_pos (.inr hrx)]
    exact hrefl
  rw [if_neg (by simp only [not_or]; exact ⟨hmii, hrx⟩)]
  cases hch : rxChannel s buf with
  | none =>
    rw [hch] at h
    cases h
    exact hrefl
  | some r =>
    obtain ⟨channel, counter, flags⟩ := r
    rw [hch] at h
    dsimp only at h ⊢
    have hcount : Counted s (rxCount s counter buf.length).1 :=
      counted_rxCount hs _ fun o ho => rxChannel_counter (ho ▸ hch)
    split_ifs at h with hc
    have hstore := effect_rxStore hcount.quiet.settled hc h
    have hget := hcount.get (cpmacRx0hdp + 4 * channel)
      (Nat.le_trans (by decide) (Nat.le_add_right cpmacRx0hdp _))
    rw [hget, hcount.mem] at hstore
    split_ifs at hstore ⊢ with hdp
    · refine Quiet.then hs hcount.quiet (hstore.congr (fun d => ?_) hcount.quiet.mask fun _ => rfl)
      rw [hcount.quiet.raw]
    · exact Quiet.then hs hcount.quiet (hstore.congr hcount.quiet.raw hcount.quiet.mask fun _ => rfl)

end Ar7Qemu.Ar7
