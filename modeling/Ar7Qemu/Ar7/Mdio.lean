import Ar7Qemu.Ar7.Reg
import Ar7Qemu.Lib.Results

/-! The MDIO registers of `hw/ar7.c` and the PHY of `hw/phy.c` behind them. Proved: in every run of register
accesses a PHY register reads as the history of the writes to the PHY says, whichever channel is used. -/

namespace Ar7Qemu.Ar7

open Lib

/-! ### The PHY -/

def phyBmcr : ℕ := 0x00
def phyBmsr : ℕ := 0x01
def phyPhyidr1 : ℕ := 0x02
def phyPhyidr2 : ℕ := 0x03
def phyAnar : ℕ := 0x04
def phyAnlpar : ℕ := 0x05

/-- `PHY_RESET`. -/
def phyResetBit : BitVec 16 := 1 <<< 15
def phy100 : BitVec 16 := 1 <<< 13
def autoNegotiateEn : BitVec 16 := 1 <<< 12
def renegotiate : BitVec 16 := 1 <<< 9
def phyFd : BitVec 16 := 1 <<< 8

def phy100BaseTxFd : BitVec 16 := 1 <<< 14
def phy100BaseTxHd : BitVec 16 := 1 <<< 13
def phy10BaseTFd : BitVec 16 := 1 <<< 12
def phy10BaseTHd : BitVec 16 := 1 <<< 11
def nwayComplete : BitVec 16 := 1 <<< 5
def nwayCapable : BitVec 16 := 1 <<< 3
def phyLinked : BitVec 16 := 1 <<< 2
def phyExtendedCapability : BitVec 16 := 1

def nwayFd100 : BitVec 16 := 1 <<< 8
def nwayHd100 : BitVec 16 := 1 <<< 7
def nwayFd10 : BitVec 16 := 1 <<< 6
def nwayHd10 : BitVec 16 := 1 <<< 5
def nwayAuto : BitVec 16 := 1

/-- `phy_t`, and the variable of `phy_enable`. -/
structure Phy where
  reg : ℕ → BitVec 16
  enabled : Bool
  first : Bool

namespace Phy

def phyReset (p : Phy) : Phy :=
  let bmsr := phy100BaseTxFd ||| phy100BaseTxHd ||| (phy10BaseTFd ||| phy10BaseTHd) ||| nwayCapable |||
    phyExtendedCapability ||| (nwayComplete + phyLinked)
  let anar := nwayFd100 + nwayHd100 + nwayFd10 + nwayHd10 + nwayAuto
  { p with reg := fun k =>
      if k = phyBmcr then phy100 ||| autoNegotiateEn ||| phyFd
      else if k = phyBmsr then bmsr
      else if k = phyPhyidr1 then 0
      else if k = phyPhyidr2 then 0
      else if k = phyAnar then anar
      else if k = phyAnlpar then nwayAuto ||| (0x8400 + (anar &&& 0x1e0))
      else p.reg k }

def phyAutoneg (p : Phy) : Phy :=
  let p := p.phyReset
  { p with reg := Function.update p.reg phyBmsr (p.reg phyBmsr ||| (nwayComplete + phyLinked)) }

def phyEnable (p : Phy) : Phy :=
  let p := if p.first then { p.phyReset with first := false } else p
  { p with enabled := true }

def phyDisable (p : Phy) : Phy := { p with enabled := false }

def phyRead (p : Phy) (addr : ℕ) : BitVec 16 := if p.enabled then p.reg addr else 0

/-- A write of the control register, after a reset and an auto-negotiation that it asks for. -/
def writeBmcr (p : Phy) (val : BitVec 16) : Phy :=
  let p := if val &&& phyResetBit ≠ 0 then p.phyReset else p
  let val := val &&& ~~~phyResetBit
  let p := if val &&& renegotiate ≠ 0 ∧ p.reg phyBmcr &&& autoNegotiateEn ≠ 0 then p.phyAutoneg else p
  { p with reg := Function.update p.reg phyBmcr (val &&& ~~~renegotiate) }

def phyWrite (p : Phy) (addr : ℕ) (val : BitVec 16) : Phy :=
  if !p.enabled then p
  else if addr = phyBmcr then p.writeBmcr val
  else if addr = phyBmsr ∨ addr = phyPhyidr1 ∨ addr = phyPhyidr2 then p
  else { p with reg := Function.update p.reg addr val }

end Phy

/-! ### The MDIO registers -/

def mdioVersion : ℕ := 0x00
def mdioControl : ℕ := 0x04
def mdioAlive : ℕ := 0x08
def mdioUseraccess0 : ℕ := 0x80
def mdioUseraccess1 : ℕ := 0x88

def mdioControlEnable : Word := bit 30

def mdioUseraccessGo : Word := bit 31
def mdioUseraccessWrite : Word := bit 30
def mdioUseraccessAck : Word := bit 29
def mdioUseraccessRegadr : Word := 0x03e00000
def mdioUseraccessPhyadr : Word := 0x001f0000
def mdioUseraccessData : Word := 0x0000ffff

/-- What the MDIO registers are connected to. -/
structure PhyOps (σ : Type) where
  enable : σ → σ
  disable : σ → σ
  read : σ → ℕ → BitVec 16
  write : σ → ℕ → BitVec 16 → σ

/-- The register block and what it is connected to. -/
structure Mdio (σ : Type) where
  mdio : Regs
  phy : σ

namespace Mdio

variable {σ : Type} (ops : PhyOps σ) (phyaddr : ℕ)

/-- `MDIO_USERACCESS0` or `MDIO_USERACCESS1`. -/
def useraccess (phyIndex : ℕ) : ℕ := if phyIndex = 0 then mdioUseraccess0 else mdioUseraccess1

/-- An access that the state machine carries out, and the word that it leaves. -/
def go (val : Word) (s : Mdio σ) : Mdio σ × Word :=
  let regaddr := (val &&& mdioUseraccessRegadr) >>> 21
  let addr := (val &&& mdioUseraccessPhyadr) >>> 16
  let data := val &&& (mdioUseraccessWrite ||| mdioUseraccessRegadr ||| mdioUseraccessPhyadr ||| mdioUseraccessData)
  if regRead s.mdio mdioControl &&& mdioControlEnable = 0 then (s, 0)
  else if addr.toNat = phyaddr then
    let mdio := regSet s.mdio mdioAlive (bit addr.toNat)
    if val &&& mdioUseraccessWrite ≠ 0 then
      (⟨mdio, ops.write s.phy regaddr.toNat ((data &&& mdioUseraccessData).setWidth 16)⟩, data)
    else
      (⟨mdio, s.phy⟩, (ops.read s.phy regaddr.toNat).setWidth 32 ||| mdioUseraccessAck ||| regaddr <<< 21 ||| addr <<< 16)
  else (⟨regClear s.mdio mdioAlive (bit addr.toNat), s.phy⟩, 0)

def mdioPhyWrite (phyIndex : ℕ) (val : Word) (s : Mdio σ) : Mdio σ :=
  let (s, val) := if val &&& mdioUseraccessGo ≠ 0 then s.go ops phyaddr val else (s, val)
  { s with mdio := regWrite s.mdio (useraccess phyIndex) val }

/-- `ar7_mdio_read`. Every branch of it reads the register. -/
def ar7MdioRead (offset : ℕ) (s : Mdio σ) : Word := regRead s.mdio offset

def writeControl (val : Word) (s : Mdio σ) : Mdio σ :=
  let oldval := regRead s.mdio mdioControl
  let s :=
    if (val ^^^ oldval) &&& mdioControlEnable ≠ 0 then
      if val &&& mdioControlEnable ≠ 0 then ⟨regWrite s.mdio mdioAlive (bit phyaddr), ops.enable s.phy⟩
      else ⟨s.mdio, ops.disable s.phy⟩
    else s
  { s with mdio := regWrite s.mdio mdioControl val }

def ar7MdioWrite (offset : ℕ) (val : Word) (s : Mdio σ) : Mdio σ :=
  if offset = mdioVersion then s
  else if offset = mdioControl then s.writeControl ops phyaddr val
  else if offset = mdioUseraccess0 then s.mdioPhyWrite ops phyaddr 0 val
  else if offset = mdioUseraccess1 then s.mdioPhyWrite ops phyaddr 1 val
  else { s with mdio := regWrite s.mdio offset val }

abbrev Offset := { o : ℕ // 4 ∣ o ∧ o < 0x90 }

/-- An access by the guest. -/
inductive Access where
  | read (offset : Offset)
  | write (offset : Offset) (val : Word)

/-- An access and the word that is read. A write is read back. -/
def step (s : Mdio σ) : Access → Mdio σ × Word
  | .read offset => (s, s.ar7MdioRead offset)
  | .write offset val =>
    let s := s.ar7MdioWrite ops phyaddr offset val
    (s, s.ar7MdioRead offset)

/-- The registers as `ar7_init` sets them. -/
def init (version : Word) (phy : σ) : Mdio σ :=
  ⟨regWrite (regWrite (fun _ => 0) mdioVersion version) mdioControl (bit 31 ||| bit 24 ||| 0xff), phy⟩

end Mdio

def Phy.ops : PhyOps Phy := ⟨phyEnable, phyDisable, phyRead, phyWrite⟩

/-! ### The history of a PHY -/

/-- The value of a register after a reset of a PHY that was not written to. -/
def resetValue (r : ℕ) : BitVec 16 := (Phy.phyReset ⟨fun _ => 0, false, false⟩).reg r

/-- A write of the control register resets the registers. -/
def Restarts (val bmcr : BitVec 16) : Prop :=
  val &&& phyResetBit ≠ 0 ∨ val &&& renegotiate ≠ 0 ∧ bmcr &&& autoNegotiateEn ≠ 0

instance (val bmcr : BitVec 16) : Decidable (Restarts val bmcr) := inferInstanceAs (Decidable (_ ∨ _))

/-- The value of a register after some writes, latest first. -/
def stored : List (ℕ × BitVec 16) → ℕ → BitVec 16
  | [], r => resetValue r
  | (addr, val) :: older, r =>
    if addr = phyBmcr then
      if r = phyBmcr then val &&& ~~~(phyResetBit ||| renegotiate)
      else if r ≤ phyAnlpar ∧ Restarts val (stored older phyBmcr) then resetValue r
      else stored older r
    else if r = addr ∧ phyAnar ≤ r then val
    else stored older r

/-- A PHY that keeps its history only. It is never switched off. -/
def historyOps : PhyOps (List (ℕ × BitVec 16)) := ⟨id, id, stored, fun hist addr val => (addr, val) :: hist⟩

/-! ### The word that an access leaves -/

namespace Mdio

section Useraccess

variable {σ : Type} (ops : PhyOps σ) (phyaddr : ℕ) (s : Mdio σ) (val : Word)

theorem go_complete : (s.go ops phyaddr val).2.getLsbD 31 = false := by
  have hmask : ∀ m : Word, m.getLsbD 31 = false → (val &&& m).getLsbD 31 = false := fun m hm => by
    rw [BitVec.getLsbD_and, hm, Bool.and_false]
  have hfield : ∀ m : Word, m.getLsbD 31 = false → ∀ n : ℕ, ((val &&& m) >>> n <<< n).getLsbD 31 = false := by
    intro m hm n
    rw [BitVec.getLsbD_shiftLeft, BitVec.getLsbD_ushiftRight]
    by_cases hn : n ≤ 31
    · rw [Nat.add_sub_cancel' hn, hmask m hm, Bool.and_false]
    · simp [Nat.not_le.1 hn]
  unfold go
  dsimp only
  split_ifs
  · exact BitVec.getLsbD_zero
  · exact hmask _ (by decide)
  · rw [BitVec.getLsbD_or, BitVec.getLsbD_or, BitVec.getLsbD_or, BitVec.getLsbD_setWidth,
      BitVec.getLsbD_of_ge (ops.read s.phy _) 31 (by decide), hfield _ (by decide), hfield _ (by decide)]
    rfl
  · exact BitVec.getLsbD_zero

/-- The PHY is left alone while the state machine is off, and by an access to another address. -/
theorem go_elsewhere (h : regRead s.mdio mdioControl &&& mdioControlEnable = 0 ∨
    ((val &&& mdioUseraccessPhyadr) >>> 16).toNat ≠ phyaddr) :
    (s.go ops phyaddr val).2 = 0 ∧ (s.go ops phyaddr val).1.phy = s.phy := by
  unfold go
  dsimp only
  by_cases hoff : regRead s.mdio mdioControl &&& mdioControlEnable = 0
  · rw [if_pos hoff]
    exact ⟨rfl, rfl⟩
  · rw [if_neg hoff, if_neg (h.resolve_left hoff)]
    exact ⟨rfl, rfl⟩

/-- What is read back of an access that was started. -/
theorem useraccess_readBack (phyIndex : Fin 2) (hgo : val &&& mdioUseraccessGo ≠ 0) :
    (s.ar7MdioWrite ops phyaddr (useraccess phyIndex) val).ar7MdioRead (useraccess phyIndex) = (s.go ops phyaddr val).2 := by
  have hread : ∀ i, regRead (s.mdioPhyWrite ops phyaddr i val).mdio (useraccess i) = (s.go ops phyaddr val).2 := fun i => by
    rw [mdioPhyWrite, if_pos hgo]
    exact (regRead_regWrite _ _ _ _).trans (if_pos rfl)
  revert phyIndex
  exact Fin.forall_fin_two.2 ⟨hread 0, hread 1⟩

end Useraccess

end Mdio

/-! ### The registers after an operation of the PHY -/

namespace Phy

variable (p : Phy) (r : ℕ)

theorem reg_phyReset : p.phyReset.reg r = if r ≤ phyAnlpar then resetValue r else p.reg r := by
  by_cases hr : r ≤ phyAnlpar
  · have hlt : r < 6 := Nat.lt_succ_of_le hr
    rw [if_pos hr]
    obtain rfl | rfl | rfl | rfl | rfl | rfl : r = 0 ∨ r = 1 ∨ r = 2 ∨ r = 3 ∨ r = 4 ∨ r = 5 := by omega
    all_goals rfl
  · have hne : ∀ k ≤ phyAnlpar, r ≠ k := fun k hk h => hr (h ▸ hk)
    rw [if_neg hr]
    simp only [phyReset, hne phyBmcr (by decide), hne phyBmsr (by decide), hne phyPhyidr1 (by decide),
      hne phyPhyidr2 (by decide), hne phyAnar (by decide), hne phyAnlpar le_rfl, if_false]

/-- Auto-negotiation sets no bit that a reset does not set. -/
theorem phyAutoneg_eq : p.phyAutoneg = p.phyReset := by
  have hbmsr : p.phyReset.reg phyBmsr ||| (nwayComplete + phyLinked) = p.phyReset.reg phyBmsr := by
    rw [reg_phyReset, if_pos (by decide)]
    decide
  show ({ p.phyReset with reg := Function.update p.phyReset.reg phyBmsr _ } : Phy) = _
  rw [hbmsr, Function.update_eq_self]

theorem reg_writeBmcr (val : BitVec 16) : (p.writeBmcr val).reg r =
    if r = phyBmcr then val &&& ~~~(phyResetBit ||| renegotiate)
    else if r ≤ phyAnlpar ∧ Restarts val (p.reg phyBmcr) then resetValue r else p.reg r := by
  have hbits : val &&& ~~~phyResetBit &&& ~~~renegotiate = val &&& ~~~(phyResetBit ||| renegotiate) := by
    rw [BitVec.not_or, BitVec.and_assoc]
  have hreneg : val &&& ~~~phyResetBit &&& renegotiate = val &&& renegotiate := by
    rw [BitVec.and_assoc]
    rfl
  unfold writeBmcr
  dsimp only
  rw [hbits, hreneg, phyAutoneg_eq]
  by_cases hr : r = phyBmcr
  · rw [if_pos hr, hr, Function.update_self]
  · rw [if_neg hr, Function.update_of_ne hr]
    by_cases hreset : val &&& phyResetBit ≠ 0
    · have hrestarts : Restarts val (p.reg phyBmcr) := .inl hreset
      simp only [if_pos hreset, hrestarts, and_true]
      split_ifs <;> simp_all [reg_phyReset]
    · have hrestarts : Restarts val (p.reg phyBmcr) ↔ val &&& renegotiate ≠ 0 ∧ p.reg phyBmcr &&& autoNegotiateEn ≠ 0 :=
        or_iff_right hreset
      rw [if_neg hreset]
      by_cases hauto : val &&& renegotiate ≠ 0 ∧ p.reg phyBmcr &&& autoNegotiateEn ≠ 0
      · simp only [if_pos hauto, hrestarts.2 hauto, and_true, reg_phyReset]
      · rw [if_neg hauto, if_neg fun h => hauto (hrestarts.1 h.2)]

theorem reg_phyWrite {hist : List (ℕ × BitVec 16)} (hp : p.enabled = true) (hreg : ∀ r, p.reg r = stored hist r)
    (addr : ℕ) (val : BitVec 16) : (p.phyWrite addr val).reg r = stored ((addr, val) :: hist) r := by
  rw [phyWrite, hp, stored]
  simp only [Bool.not_true, Bool.false_eq_true, if_false]
  by_cases haddr : addr = phyBmcr
  · rw [if_pos haddr, if_pos haddr, reg_writeBmcr, hreg phyBmcr, hreg r]
  · rw [if_neg haddr, if_neg haddr]
    by_cases hro : addr = phyBmsr ∨ addr = phyPhyidr1 ∨ addr = phyPhyidr2
    · have hkeep : ¬ (r = addr ∧ phyAnar ≤ r) := by
        rintro ⟨rfl, hle⟩
        rcases hro with rfl | rfl | rfl <;> exact absurd hle (by decide)
      rw [if_pos hro, if_neg hkeep, hreg r]
    · rw [if_neg hro]
      show Function.update p.reg addr val r = _
      by_cases hr : r = addr
      · have hle : phyAnar ≤ r := by
          simp only [phyBmcr, phyBmsr, phyPhyidr1, phyPhyidr2, phyAnar] at *
          omega
        rw [if_pos ⟨hr, hle⟩, hr, Function.update_self]
      · rw [if_neg fun h => hr h.1, Function.update_of_ne hr, hreg r]

theorem phyWrite_kept (addr : ℕ) (val : BitVec 16) :
    (p.phyWrite addr val).enabled = p.enabled ∧ (p.phyWrite addr val).first = p.first := by
  have hite : ∀ (c : Prop) [Decidable c] (q : Phy), (if c then q.phyReset else q).enabled = q.enabled ∧
      (if c then q.phyReset else q).first = q.first := fun c _ q => by
    split_ifs <;> exact ⟨rfl, rfl⟩
  unfold phyWrite
  split_ifs
  · exact ⟨rfl, rfl⟩
  · unfold writeBmcr
    dsimp only
    rw [phyAutoneg_eq, (hite _ _).1, (hite _ _).2]
    exact hite _ p
  · exact ⟨rfl, rfl⟩
  · exact ⟨rfl, rfl⟩

theorem first_phyEnable : p.phyEnable.first = false := by
  unfold phyEnable
  by_cases hf : p.first = true
  · rw [if_pos hf]
  · rw [if_neg hf]
    exact Bool.eq_false_of_not_eq_true hf

end Phy

/-! ### Runs -/

/-- The state machine is on. -/
def mdioEnabled (mdio : Regs) : Prop := regRead mdio mdioControl &&& mdioControlEnable ≠ 0

/-- The PHY is enabled with the state machine, and its registers are those of the history. -/
structure Agrees (s : Mdio Phy) (t : Mdio (List (ℕ × BitVec 16))) : Prop where
  mdio : s.mdio = t.mdio
  enabled : s.phy.enabled = true ↔ mdioEnabled s.mdio
  fresh : s.phy.first = true → s.phy.enabled = false ∧ ∀ r, s.phy.phyReset.reg r = stored t.phy r
  reg : s.phy.first = false → ∀ r, s.phy.reg r = stored t.phy r

variable (phyaddr : ℕ) {s : Mdio Phy} {t : Mdio (List (ℕ × BitVec 16))}

/-- A change of other registers. -/
theorem Agrees.keep (h : Agrees s t) {mdio : Regs} (hctl : regRead mdio mdioControl = regRead s.mdio mdioControl) :
    Agrees ⟨mdio, s.phy⟩ ⟨mdio, t.phy⟩ :=
  ⟨rfl, h.enabled.trans (by rw [mdioEnabled, mdioEnabled, hctl]), h.fresh, h.reg⟩

theorem agrees_go (h : Agrees s t) (val : Word) :
    (s.go Phy.ops phyaddr val).2 = (t.go historyOps phyaddr val).2 ∧
      Agrees (s.go Phy.ops phyaddr val).1 (t.go historyOps phyaddr val).1 := by
  have hset : ∀ v, regRead (regSet s.mdio mdioAlive v) mdioControl = regRead s.mdio mdioControl := fun v => by
    rw [regRead_regSet, if_neg (by decide)]
  have hclear : ∀ v, regRead (regClear s.mdio mdioAlive v) mdioControl = regRead s.mdio mdioControl := fun v => by
    rw [regRead_regClear, if_neg (by decide)]
  unfold Mdio.go
  dsimp only
  rw [← h.mdio]
  by_cases hoff : regRead s.mdio mdioControl &&& mdioControlEnable = 0
  · rw [if_pos hoff, if_pos hoff]
    exact ⟨rfl, h⟩
  · have henabled : s.phy.enabled = true := h.enabled.2 hoff
    have hfirst : s.phy.first = false := by
      by_contra hf
      rw [(h.fresh (Bool.eq_true_of_not_eq_false hf)).1] at henabled
      exact absurd henabled (by decide)
    rw [if_neg hoff, if_neg hoff]
    split_ifs
    · refine ⟨rfl, rfl, ?_, fun hf => ?_, fun _ r => s.phy.reg_phyWrite r henabled (h.reg hfirst) _ _⟩
      · show (s.phy.phyWrite _ _).enabled = true ↔ regRead _ mdioControl &&& mdioControlEnable ≠ 0
        rw [(s.phy.phyWrite_kept _ _).1, hset]
        exact h.enabled
      · have hkept : (s.phy.phyWrite _ _).first = true := hf
        rw [(s.phy.phyWrite_kept _ _).2, hfirst] at hkept
        exact absurd hkept (by decide)
    · refine ⟨?_, h.keep (hset _)⟩
      have hread : ∀ r, Phy.ops.read s.phy r = historyOps.read t.phy r := fun r => by
        show s.phy.phyRead r = stored t.phy r
        rw [Phy.phyRead, if_pos henabled, h.reg hfirst r]
      rw [hread]
    · exact ⟨rfl, h.keep (hclear _)⟩

theorem agrees_phyWrite (h : Agrees s t) (phyIndex : ℕ) (val : Word) :
    Agrees (s.mdioPhyWrite Phy.ops phyaddr phyIndex val) (t.mdioPhyWrite historyOps phyaddr phyIndex val) := by
  have huser : mdioControl ≠ Mdio.useraccess phyIndex := by
    unfold Mdio.useraccess
    split_ifs <;> decide
  have hstore : ∀ {s t}, Agrees s t → ∀ v, Agrees ⟨regWrite s.mdio (Mdio.useraccess phyIndex) v, s.phy⟩
      ⟨regWrite t.mdio (Mdio.useraccess phyIndex) v, t.phy⟩ := fun {s t} h v => by
    rw [← h.mdio]
    exact h.keep (by rw [regRead_regWrite, if_neg huser])
  unfold Mdio.mdioPhyWrite
  by_cases hgo : val &&& mdioUseraccessGo ≠ 0
  · obtain ⟨hword, hnext⟩ := agrees_go phyaddr h val
    rw [if_pos hgo, if_pos hgo]
    dsimp only
    rw [hword]
    exact hstore hnext _
  · rw [if_neg hgo, if_neg hgo]
    exact hstore h val

theorem agrees_control (h : Agrees s t) (val : Word) :
    Agrees (s.writeControl Phy.ops phyaddr val) (t.writeControl historyOps phyaddr val) := by
  have hwritten : ∀ mdio : Regs, mdioEnabled (regWrite mdio mdioControl val) ↔ val &&& mdioControlEnable ≠ 0 := fun mdio => by
    rw [mdioEnabled, regRead_regWrite, if_pos rfl]
  unfold Mdio.writeControl
  dsimp only
  rw [← h.mdio]
  by_cases hchange : (val ^^^ regRead s.mdio mdioControl) &&& mdioControlEnable ≠ 0
  · rw [if_pos hchange, if_pos hchange]
    by_cases hon : val &&& mdioControlEnable ≠ 0
    · rw [if_pos hon, if_pos hon]
      refine ⟨rfl, iff_of_true rfl ((hwritten _).2 hon), fun hf => ?_, fun _ r => ?_⟩
      · have hdone : s.phy.phyEnable.first = true := hf
        rw [Phy.first_phyEnable] at hdone
        exact absurd hdone (by decide)
      · show s.phy.phyEnable.reg r = stored t.phy r
        unfold Phy.phyEnable
        by_cases hf : s.phy.first = true
        · rw [if_pos hf]
          exact (h.fresh hf).2 r
        · rw [if_neg hf]
          exact h.reg (Bool.eq_false_of_not_eq_true hf) r
    · rw [if_neg hon, if_neg hon]
      exact ⟨rfl, iff_of_false Bool.false_ne_true fun hw => hon ((hwritten _).1 hw), fun hf => ⟨rfl, (h.fresh hf).2⟩, h.reg⟩
  · have hsame : regRead s.mdio mdioControl &&& mdioControlEnable ≠ 0 ↔ val &&& mdioControlEnable ≠ 0 := by
      rw [mdioControlEnable, and_bit_ne_zero_iff _ (by decide), BitVec.getLsbD_xor] at hchange
      rw [mdioControlEnable, and_bit_ne_zero_iff _ (by decide), and_bit_ne_zero_iff _ (by decide)]
      generalize val.getLsbD 30 = a, (regRead s.mdio mdioControl).getLsbD 30 = b at hchange ⊢
      revert a b
      decide
    rw [if_neg hchange, if_neg hchange]
    exact ⟨congrArg (regWrite · _ _) h.mdio, h.enabled.trans (hsame.trans (hwritten _).symm), h.fresh, h.reg⟩

theorem agrees_write (h : Agrees s t) (offset : ℕ) (val : Word) :
    Agrees (s.ar7MdioWrite Phy.ops phyaddr offset val) (t.ar7MdioWrite historyOps phyaddr offset val) := by
  unfold Mdio.ar7MdioWrite
  split_ifs with hversion hcontrol
  · exact h
  · exact agrees_control phyaddr h val
  · exact agrees_phyWrite phyaddr h 0 val
  · exact agrees_phyWrite phyaddr h 1 val
  · rw [← h.mdio]
    exact h.keep (by rw [regRead_regWrite, if_neg (Ne.symm hcontrol)])

/-- The guest reads what the history of the PHY says. -/
theorem mdio_reads_history (phyaddr : ℕ) (version : Word) (es : List Mdio.Access) :
    results (Mdio.step Phy.ops phyaddr) (Mdio.init version ⟨fun _ => 0, false, true⟩) es =
      results (Mdio.step historyOps phyaddr) (Mdio.init version []) es := by
  refine results_eq (R := Agrees) (P := fun _ => True) (fun s t e _ h => ?_) ?_ fun _ _ => trivial
  · cases e with
    | read offset => exact ⟨congrArg (fun mdio => regRead mdio offset) h.mdio, h⟩
    | write offset val =>
      have hnext := agrees_write phyaddr h offset val
      exact ⟨congrArg (fun mdio => regRead mdio offset) hnext.mdio, hnext⟩
  · have hoff : ¬ mdioEnabled (Mdio.init version ([] : List (ℕ × BitVec 16))).mdio := by
      rw [mdioEnabled, Mdio.init, regRead_regWrite, if_pos rfl]
      decide
    exact ⟨rfl, iff_of_false Bool.false_ne_true hoff, fun _ => ⟨rfl, fun _ => rfl⟩, fun hf => (Bool.false_ne_true hf.symm).elim⟩

end Ar7Qemu.Ar7
