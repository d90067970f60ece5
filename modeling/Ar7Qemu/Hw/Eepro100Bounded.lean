import Ar7Qemu.Hw.Eepro100Intr

/-! The arrays of the EEPRO100 are functions on all indices, and stay empty behind their ends in every run.
The station address keeps its six bytes. -/

namespace Ar7Qemu.Hw.Eepro100

open Lib

/-- The arrays are empty behind their ends, and the station address has six bytes. -/
structure Bounded (s : Nic) : Prop where
  mult : ∀ i, 8 ≤ i → s.mult i = 0
  mdimem : ∀ i, 32 ≤ i → s.mdimem i = 0
  mem : ∀ i, pciMemSize ≤ i → s.mem i = 0
  configuration : ∀ i, 22 ≤ i → s.configuration i = 0
  macaddr : s.macaddr.length = 6

theorem Bounded.congr {s t : Nic} (h : Bounded s) (hmult : t.mult = s.mult) (hmdimem : t.mdimem = s.mdimem)
    (hmem : ∀ i, pciMemSize ≤ i → t.mem i = 0) (hconfiguration : t.configuration = s.configuration)
    (hmacaddr : t.macaddr = s.macaddr) : Bounded t :=
  ⟨hmult ▸ h.mult, hmdimem ▸ h.mdimem, hmem, hconfiguration ▸ h.configuration, hmacaddr ▸ h.macaddr⟩

theorem update_mem {mem : ℕ → Byte} (h : ∀ i, pciMemSize ≤ i → mem i = 0) {a : ℕ} (ha : a < pciMemSize) (v : Byte) (i : ℕ)
    (hi : pciMemSize ≤ i) : Function.update mem a v i = 0 := by
  rw [Function.update_of_ne (by omega)]
  exact h i hi

theorem store_mem {mem : ℕ → Byte} (h : ∀ i, pciMemSize ≤ i → mem i = 0) {a : ℕ} {bs : List Byte}
    (ha : a + bs.length ≤ pciMemSize) (i : ℕ) (hi : pciMemSize ≤ i) : store mem a bs i = 0 := by
  rw [store, if_neg (by omega)]
  exact h i hi

section Bounds

variable {s : Nic}

theorem Bounded.interrupt (h : Bounded s) (status : Byte) : Bounded (eepro100Interrupt s status) := by
  have hmem := update_mem h.mem (show scbAck < pciMemSize by decide) (s.mem scbAck ||| status)
  unfold eepro100Interrupt enableInterrupt disableInterrupt
  dsimp only
  split_ifs <;> exact h.congr rfl rfl hmem rfl rfl

theorem Bounded.acknowledge (h : Bounded s) : Bounded (eepro100Acknowledge s) := by
  have hmem := update_mem h.mem (show scbAck < pciMemSize by decide) (s.scbStat &&& ~~~s.mem scbAck)
  unfold eepro100Acknowledge disableInterrupt
  dsimp only
  split_ifs <;> exact h.congr rfl rfl hmem rfl rfl

theorem Bounded.setCuState (h : Bounded s) (st : CuState) : Bounded (setCuState s st) :=
  h.congr rfl rfl (update_mem h.mem (by decide) _) rfl rfl

theorem Bounded.setRuState (h : Bounded s) (st : RuState) : Bounded (setRuState s st) :=
  h.congr rfl rfl (update_mem h.mem (by decide) _) rfl rfl

theorem Bounded.same {t : Nic} (h : Bounded s) (hmult : t.mult = s.mult) (hmdimem : t.mdimem = s.mdimem) (hmem : t.mem = s.mem)
    (hconfiguration : t.configuration = s.configuration) (hmacaddr : t.macaddr = s.macaddr) : Bounded t :=
  h.congr hmult hmdimem (hmem ▸ h.mem) hconfiguration hmacaddr

theorem addMulticast_zero {mult mult' : ℕ → Byte} {idx : ℕ} (hmult : ∀ i, 8 ≤ i → mult i = 0)
    (h : addMulticast mult idx = .ok mult') (i : ℕ) (hi : 8 ≤ i) : mult' i = 0 := by
  rw [addMulticast] at h
  split_ifs at h
  cases h
  rw [Function.update_of_ne (by omega)]
  exact hmult i hi

theorem foldlM_addMulticast_zero (addr : ℕ → List Byte) (l : List ℕ) {mult mult' : ℕ → Byte} (hmult : ∀ i, 8 ≤ i → mult i = 0)
    (h : l.foldlM (fun mult i => addMulticast mult (computeMcastIdx (addr i))) mult = .ok mult') (i : ℕ) (hi : 8 ≤ i) :
    mult' i = 0 := by
  induction l generalizing mult with
  | nil =>
    cases h
    exact hmult i hi
  | cons a l ih =>
    rw [List.foldlM_cons] at h
    obtain ⟨mult₁, h₁, hrest⟩ := bind_ok h
    exact ih (addMulticast_zero hmult h₁) hrest

theorem Bounded.runCommand (h : Bounded s) {fuel : ℕ} {t : Nic} (hrun : runCommand fuel s = .ok t) : Bounded t := by
  unfold Eepro100.runCommand at hrun
  split at hrun
  · cases hrun
    exact ⟨h.mult, h.mdimem, h.mem, h.configuration, GuestMem.length_read _ _ _⟩
  · cases hrun
    refine ⟨h.mult, h.mdimem, h.mem, fun i hi => ?_, h.macaddr⟩
    dsimp only
    rw [if_neg (by omega)]
    exact h.configuration i hi
  · obtain ⟨mult, hfold, hrun⟩ := bind_ok hrun
    cases hrun
    exact ⟨foldlM_addMulticast_zero _ _ (fun _ _ => rfl) hfold, h.mdimem, h.mem, h.configuration, h.macaddr⟩
  · obtain ⟨frame, -, hrun⟩ := bind_ok hrun
    split_ifs at hrun
    cases hrun
    exact h.same rfl rfl rfl rfl rfl
  · cases hrun
    exact h

theorem Bounded.completeBlock (h : Bounded s) : Bounded (completeBlock s) := by
  have hguest : Bounded { s with guest := s.guest.putLe16 s.cbAddress (s.tx.status ||| statusC ||| statusOk) } :=
    h.same rfl rfl rfl rfl rfl
  unfold Eepro100.completeBlock
  dsimp only
  split_ifs
  · exact hguest.interrupt 0x80
  · exact hguest

theorem Bounded.actionCommand {fuel : ℕ} (n : ℕ) {t : Nic} (h : Bounded s) (hrun : actionCommand fuel n s = .ok t) :
    Bounded t := by
  induction n generalizing s with
  | zero => cases hrun
  | succ n ih =>
    obtain ⟨s₁, h₁, hrun⟩ := bind_ok hrun
    have hs₁ : Bounded (Eepro100.completeBlock s₁) :=
      Bounded.completeBlock (Bounded.runCommand (h.same (t := fetchBlock s) rfl rfl rfl rfl rfl) h₁)
    dsimp only at hrun
    split_ifs at hrun
    · cases hrun
      exact (hs₁.setCuState _).interrupt _
    · cases hrun
      exact (hs₁.setCuState _).interrupt _
    · exact ih hs₁ hrun

theorem Bounded.cuCommand {fuel : ℕ} {val : Byte} {t : Nic} (h : Bounded s) (hrun : eepro100CuCommand fuel s val = .ok t) :
    Bounded t := by
  have hresume : Bounded (if s.cuState ≠ .suspended then Eepro100.setCuState s .suspended else s) := by
    split_ifs
    · exact h.setCuState _
    · exact h
  unfold eepro100CuCommand at hrun
  dsimp only at hrun
  generalize (if s.cuState ≠ .suspended then Eepro100.setCuState s .suspended else s) = s₁ at hrun hresume
  split_ifs at hrun
  · have hstart : Bounded { Eepro100.setCuState s .active with cuOffset := s.pointer } :=
      (h.setCuState .active).same rfl rfl rfl rfl rfl
    exact Bounded.actionCommand _ hstart hrun
  · exact Bounded.actionCommand _ (hresume.setCuState .active) hrun
  · cases hrun
    exact hresume
  all_goals
    cases hrun
    exact h.same rfl rfl rfl rfl rfl

theorem Bounded.ruCommand (h : Bounded s) (val : Byte) : Bounded (eepro100RuCommand s val) := by
  unfold eepro100RuCommand
  split_ifs
  · exact (h.setRuState .ready).same rfl rfl rfl rfl rfl
  · exact h.setRuState .ready
  · exact h.same rfl rfl rfl rfl rfl
  · exact h

theorem Bounded.writeCommand {fuel : ℕ} {val : Byte} {t : Nic} (h : Bounded s)
    (hrun : eepro100WriteCommand fuel s val = .ok t) : Bounded t := by
  obtain ⟨s₁, h₁, hrun⟩ := bind_ok hrun
  cases hrun
  have hs₁ := Bounded.cuCommand (h.ruCommand _) h₁
  exact hs₁.congr rfl rfl (update_mem hs₁.mem (by decide) _) rfl rfl

theorem Bounded.storeReg (h : Bounded s) (addr : ℕ) {bs : List Byte} (hbs : bs.length ≤ pciMemSize) :
    Bounded (storeReg s addr bs) := by
  refine h.congr rfl rfl (fun i hi => ?_) rfl rfl
  show (if addr ≤ pciMemSize - bs.length then store s.mem addr bs else s.mem) i = 0
  split_ifs with haddr
  · exact store_mem h.mem (by omega) i hi
  · exact h.mem i hi

theorem Bounded.write1 {fuel addr : ℕ} {val : Byte} {t : Nic} (h : Bounded s) (hrun : eepro100Write1 fuel s addr val = .ok t) :
    Bounded t := by
  have hstore : Bounded (Eepro100.storeReg s addr [val]) := h.storeReg addr (show 1 ≤ pciMemSize by decide)
  unfold eepro100Write1 at hrun
  dsimp only at hrun
  split_ifs at hrun
  · cases hrun
    exact hstore.acknowledge
  · exact hstore.writeCommand hrun
  · cases hrun
    exact (Bounded.interrupt hstore 0x04).interrupt 0
  · cases hrun
    exact hstore.interrupt 0
  · cases hrun
    exact hstore.same rfl rfl rfl rfl rfl
  · cases hrun
    exact hstore

theorem Bounded.write2 {fuel addr : ℕ} {val : BitVec 16} {t : Nic} (h : Bounded s)
    (hrun : eepro100Write2 fuel s addr val = .ok t) : Bounded t := by
  unfold eepro100Write2 at hrun
  dsimp only at hrun
  generalize (if s.bigEndian = true then bswap16 val else val) = v at hrun
  have hstore : Bounded (Eepro100.storeReg s addr (GuestMem.bytes16 v)) := h.storeReg addr (show 2 ≤ pciMemSize by decide)
  split_ifs at hrun
  · cases hrun
    exact hstore.acknowledge
  · obtain ⟨s₁, h₁, hrun⟩ := bind_ok hrun
    exact Bounded.write1 (hstore.writeCommand h₁) hrun
  · cases hrun
    exact hstore.same rfl rfl rfl rfl rfl
  · cases hrun
    exact hstore

theorem bounded_selectiveReset (hmult : ∀ i, 8 ≤ i → s.mult i = 0) (hconfiguration : ∀ i, 22 ≤ i → s.configuration i = 0)
    (hmacaddr : s.macaddr.length = 6) : Bounded (nicSelectiveReset s) where
  mult := hmult
  mdimem := fun i hi => List.getD_eq_default _ _ hi
  mem := store_mem (fun _ _ => rfl) (show scbCtrlMDI + 4 ≤ pciMemSize by decide)
  configuration := hconfiguration
  macaddr := hmacaddr

theorem bounded_reset (hconfiguration : ∀ i, 22 ≤ i → s.configuration i = 0) (hmacaddr : s.macaddr.length = 6) :
    Bounded (nicReset s) := bounded_selectiveReset (fun _ _ => rfl) hconfiguration hmacaddr

theorem mdiAccess_zero {mdimem : ℕ → BitVec 16} (h : ∀ i, 32 ≤ i → mdimem i = 0) (val : Word) (i : ℕ) (hi : 32 ≤ i) :
    mdiAccess mdimem val i = 0 := by
  have hreg : mdiReg val < 32 := (val.extractLsb' 16 5).isLt
  have hne : i ≠ mdiReg val := by omega
  have h₀ : i ≠ 0 := by omega
  have h₁ : i ≠ 1 := by omega
  unfold mdiAccess mdiWrite mdiRead mdiDefaults
  split_ifs <;> simp only [Function.update_of_ne hne, Function.update_of_ne h₀, Function.update_of_ne h₁, h i hi]

theorem Bounded.writeMdi (h : Bounded s) (val : Word) : Bounded (eepro100WriteMdi s val) := by
  have hresult : ∀ {u : Nic} (val : Word) (data : BitVec 16), Bounded u → Bounded (mdiResult u val data) := fun _ _ hu =>
    hu.congr rfl rfl (store_mem hu.mem (show scbCtrlMDI + 4 ≤ pciMemSize by decide)) rfl rfl
  have haccess : Bounded { s with
      mdimem := mdiAccess s.mdimem val
      mem := Function.update s.mem scbAck (s.mem scbAck ||| 0x08) } :=
    ⟨h.mult, mdiAccess_zero h.mdimem val, update_mem h.mem (by decide) _, h.configuration, h.macaddr⟩
  unfold eepro100WriteMdi
  dsimp only
  split_ifs
  · exact hresult _ _ (haccess.interrupt 0x08)
  · exact hresult _ _ haccess
  · exact hresult _ _ h

theorem Bounded.write4 (h : Bounded s) (addr : ℕ) (val : Word) : Bounded (eepro100Write4 s addr val) := by
  unfold eepro100Write4
  dsimp only
  generalize (if s.bigEndian = true then bswap32 val else val) = v
  have hstore : Bounded (Eepro100.storeReg s addr (GuestMem.bytes32 v)) := h.storeReg addr (show 4 ≤ pciMemSize by decide)
  split_ifs
  · exact hstore.same rfl rfl rfl rfl rfl
  · unfold eepro100WritePort
    split
    · exact bounded_reset hstore.configuration hstore.macaddr
    · exact hstore.same rfl rfl rfl rfl rfl
    · exact bounded_selectiveReset hstore.mult hstore.configuration hstore.macaddr
    · exact hstore
  · exact hstore.same rfl rfl rfl rfl rfl
  · exact hstore.writeMdi v
  · exact hstore

theorem Bounded.endReceive (h : Bounded s) (rfdCommand : BitVec 16) : Bounded (endReceive s rfdCommand) := by
  unfold Eepro100.endReceive
  dsimp only
  split_ifs
  · exact (h.setRuState _).setRuState _
  · exact h.setRuState _
  · exact h.setRuState _
  · exact h

theorem Bounded.acceptFrame (h : Bounded s) (status : BitVec 16) (buf : List Byte) : Bounded (acceptFrame s status buf) := by
  have hstored : Bounded { s with
      guest := storeFrame s (if buf.length < 64 then status ||| 0x0080 else status) buf
      statistics := { s.statistics with rxGoodFrames := s.statistics.rxGoodFrames + 1 } } := h.same rfl rfl rfl rfl rfl
  have hlink : Bounded { eepro100FrInterrupt { s with
      guest := storeFrame s (if buf.length < 64 then status ||| 0x0080 else status) buf
      statistics := { s.statistics with rxGoodFrames := s.statistics.rxGoodFrames + 1 } } with
      ruOffset := s.guest.le32 (s.ruBase + s.ruOffset + 4) } := (hstored.interrupt 0x40).same rfl rfl rfl rfl rfl
  exact hlink.endReceive _

theorem Bounded.receive {buf : List Byte} {t : Nic} (h : Bounded s) (hrun : nicReceive s buf = .ok t) : Bounded t := by
  have hfilter : Bounded (receiveFilter s buf).1 := by
    rcases receiveFilter_state s buf with heq | heq <;> rw [heq]
    · exact h
    · exact h.same rfl rfl rfl rfl rfl
  unfold nicReceive at hrun
  split_ifs at hrun
  dsimp only at hrun
  split at hrun
  · cases hrun
    exact hfilter
  · split_ifs at hrun
    · cases hrun
      exact hfilter.same rfl rfl rfl rfl rfl
    · cases hrun
      exact hfilter.acceptFrame _ _

theorem Bounded.handle {fuel : ℕ} {e : Event} {t : Nic} (h : Bounded s) (hrun : handle fuel s e = .ok t) : Bounded t := by
  cases e with
  | read1 | read2 | read4 =>
    cases hrun
    exact h
  | write1 addr val => exact h.write1 hrun
  | write2 addr val => exact h.write2 hrun
  | write4 addr val =>
    cases hrun
    exact h.write4 addr val
  | receive buf => exact h.receive hrun
  | memory guest =>
    cases hrun
    exact h.same rfl rfl rfl rfl rfl

theorem Bounded.step {fuel : ℕ} {t : Nic} {e : Event} (h : Bounded s) (hstep : step fuel s e = some t) : Bounded t := by
  have hhandle : Eepro100.handle fuel s e = .ok t := by
    cases hh : Eepro100.handle fuel s e <;> simp_all [Eepro100.step, Except.toOption]
  exact h.handle hhandle

end Bounds

end Ar7Qemu.Hw.Eepro100
