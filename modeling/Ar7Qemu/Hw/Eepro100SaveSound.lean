import Ar7Qemu.Hw.Eepro100Save
import Ar7Qemu.Hw.Eepro100Bounded

/-! A loaded EEPRO100 against the one that was saved. The state of the command unit, the block it was
working on, and the state of the receive unit are not saved. The first two make no difference to what
the card does later. The last one does when the receive unit was ready. -/

namespace Ar7Qemu.Hw.Eepro100

open Lib

/-! ### What the guest and the network see -/

def nicCanReceive (s : Nic) : Bool := s.ruState = .ready

def readValue (s : Nic) : Event → Option Word
  | .read1 addr => (eepro100Read1 s addr).map fun v => v.setWidth 32
  | .read2 addr => (eepro100Read2 s addr).map fun v => v.setWidth 32
  | .read4 addr => some (eepro100Read4 s addr)
  | _ => none

/-- What is seen of an event: whether the card could receive before it, the value read, and its fault or
the interrupt line, the guest memory and the frames sent after it. -/
structure Answer where
  canReceive : Bool
  value : Option Word
  after : Except Fault (Bool × GuestMem × List (List Byte))

def seen (s : Nic) : Bool × GuestMem × List (List Byte) := (s.irq, s.guest, s.sent)

/-- The answers to a sequence of events, up to a fault. -/
def answers (fuel : ℕ) : Nic → List Event → List Answer
  | _, [] => []
  | s, e :: es =>
    ⟨nicCanReceive s, readValue s e, (handle fuel s e).map seen⟩ ::
      match handle fuel s e with
      | .error _ => []
      | .ok s' => answers fuel s' es

/-- A device that has been initialised, with the EEPROM, the guest memory and the client of another one. -/
def initialised (d : Device100) (macaddr : List Byte) (spare : Spare → ℕ → ℕ) (config irqState : ℕ → ℕ) : Device100 where
  nic := { nicReset (zeroed d.nic.device d.nic.vendorId d.nic.deviceId macaddr d.nic.eeprom d.nic.guest d.nic.bigEndian) with
    eeprom := d.nic.eeprom
    sent := d.nic.sent }
  spare
  config
  irqState

/-- What is saved is loaded, and the device then answers every sequence of events as the saved one
would. -/
def Transparent (d t : Device100) : Prop :=
  ∃ u, nicLoad 3 t (nicSave d) = .ok (u, []) ∧ ∀ fuel es, answers fuel u.nic es = answers fuel d.nic es

/-! ### What is not saved -/

/-- The part of the card that is not saved. -/
structure Hidden where
  cuState : CuState
  ruState : RuState
  tx : Tcb
  cbAddress : Word

/-- The card with another part that is not saved. -/
def hide (s : Nic) (h : Hidden) : Nic :=
  { s with
    cuState := h.cuState
    ruState := h.ruState
    tx := h.tx
    cbAddress := h.cbAddress }

def hidden (s : Nic) : Hidden := ⟨s.cuState, s.ruState, s.tx, s.cbAddress⟩

/-- The part that is not saved, with the block of a card. -/
def Hidden.at (h : Hidden) (s : Nic) : Hidden := { h with tx := s.tx, cbAddress := s.cbAddress }

/-- Two cards that differ in what is not saved only, and of which both or none can receive. -/
def Alike (s t : Nic) : Prop := ∃ h : Hidden, t = hide s h ∧ (h.ruState = .ready ↔ s.ruState = .ready)

/-- Both results are the same fault, or two such cards. -/
inductive Agree : Except Fault Nic → Except Fault Nic → Prop
  | error (e : Fault) : Agree (.error e) (.error e)
  | ok {s t : Nic} (h : Alike s t) : Agree (.ok s) (.ok t)

theorem Agree.bind {x y : Except Fault Nic} {f g : Nic → Except Fault Nic} (h : Agree x y)
    (hfg : ∀ s t, Alike s t → Agree (f s) (g t)) : Agree (x >>= f) (y >>= g) := by
  cases h with
  | error e => exact Agree.error e
  | ok h => exact hfg _ _ h

section Commute

variable (s : Nic) (h : Hidden)

theorem hide_ite (c : Prop) [Decidable c] (s t : Nic) (h : Hidden) :
    hide (if c then s else t) h = if c then hide s h else hide t h := apply_ite (fun s => hide s h) c s t

theorem hide_disable : disableInterrupt (hide s h) = hide (disableInterrupt s) h := by
  rw [disableInterrupt, disableInterrupt, hide_ite]
  rfl

theorem hide_enable : enableInterrupt (hide s h) = hide (enableInterrupt s) h := by
  rw [enableInterrupt, enableInterrupt, hide_ite]
  rfl

theorem hide_acknowledge : eepro100Acknowledge (hide s h) = hide (eepro100Acknowledge s) h := by
  unfold eepro100Acknowledge
  dsimp only
  rw [hide_ite, ← hide_disable]
  rfl

theorem hide_interrupt (status : Byte) : eepro100Interrupt (hide s h) status = hide (eepro100Interrupt s status) h := by
  unfold eepro100Interrupt
  dsimp only
  rw [hide_ite, hide_ite, ← hide_disable, ← hide_enable]
  rfl

theorem hide_writeMdi (val : Word) : eepro100WriteMdi (hide s h) val = hide (eepro100WriteMdi s val) h := by
  have hint := hide_interrupt { s with
    mdimem := mdiAccess s.mdimem val
    mem := Function.update s.mem scbAck (s.mem scbAck ||| 0x08) } h 0x08
  unfold eepro100WriteMdi
  dsimp only
  split_ifs
  · show mdiResult (eepro100Interrupt (hide { s with
      mdimem := mdiAccess s.mdimem val
      mem := Function.update s.mem scbAck (s.mem scbAck ||| 0x08) } h) 0x08) _ _ = _
    rw [hint]
    rfl
  · rfl
  · rfl

theorem hide_writePort (val : Word) : eepro100WritePort (hide s h) val = hide (eepro100WritePort s val) h := by
  unfold eepro100WritePort
  split <;> rfl

theorem hide_write4 (addr : ℕ) (val : Word) : eepro100Write4 (hide s h) addr val = hide (eepro100Write4 s addr val) h := by
  unfold eepro100Write4
  simp only [show (hide s h).bigEndian = s.bigEndian from rfl]
  generalize (if s.bigEndian = true then bswap32 val else val) = v
  split_ifs
  · rfl
  · exact hide_writePort (storeReg s addr (GuestMem.bytes32 v)) h v
  · rfl
  · exact hide_writeMdi (storeReg s addr (GuestMem.bytes32 v)) h v
  · rfl

theorem hide_receiveFilter (buf : List Byte) :
    receiveFilter (hide s h) buf = (hide (receiveFilter s buf).1 h, (receiveFilter s buf).2) := by
  show _ = Prod.map (fun t => hide t h) id (receiveFilter s buf)
  unfold receiveFilter
  simp only [apply_ite (Prod.map (fun t => hide t h) id)]
  rfl

theorem hide_fetchBlock : fetchBlock (hide s h) = hide (fetchBlock s) (h.at (fetchBlock s)) := rfl

theorem hide_completeBlock : completeBlock (hide s (h.at s)) = hide (completeBlock s) (h.at s) := by
  unfold completeBlock
  dsimp only
  rw [hide_ite, eepro100CxInterrupt, eepro100CxInterrupt, ← hide_interrupt]
  rfl

/-- A command reads its block, and keeps it. -/
theorem hide_runCommand (fuel : ℕ) :
    runCommand fuel (hide s (h.at s)) = (runCommand fuel s).map fun t => hide t (h.at s) := by
  unfold runCommand
  simp only [show (hide s (h.at s)).tx = s.tx from rfl]
  split
  · rfl
  · rfl
  · unfold setMulticastList
    simp only [show (hide s (h.at s)).tx = s.tx from rfl, show (hide s (h.at s)).cbAddress = s.cbAddress from rfl,
      show (hide s (h.at s)).guest = s.guest from rfl]
    generalize ((List.range _).foldlM _ _ : Except Fault (ℕ → Byte)) = mult
    cases mult <;> rfl
  · unfold txCommand
    rw [show txFrame fuel (hide s (h.at s)).guest (hide s (h.at s)).device (hide s (h.at s)).configuration
      (hide s (h.at s)).cbAddress (hide s (h.at s)).tx = txFrame fuel s.guest s.device s.configuration s.cbAddress s.tx from rfl]
    cases txFrame fuel s.guest s.device s.configuration s.cbAddress s.tx with
    | error e => rfl
    | ok frame =>
      show (if bufSize < frame.length then _ else _) = Except.map _ (if bufSize < frame.length then _ else _)
      split_ifs <;> rfl
  · rfl

end Commute

/-! ### What the operations keep alike -/

section Operations

variable {s t : Nic}

theorem hidden_eq {h : Hidden} (hst : s = hide s h) : hidden s = h := congrArg hidden hst

theorem Alike.map {f : Nic → Nic} (hf : ∀ s h, f (hide s h) = hide (f s) h) (h : Alike s t) : Alike (f s) (f t) := by
  obtain ⟨h, rfl, hready⟩ := h
  have hself : f s = hide (f s) (hidden s) := hf s (hidden s)
  have hkept : (f s).ruState = s.ruState := (congrArg Nic.ruState hself).trans rfl
  refine ⟨h, hf s h, ?_⟩
  rw [hkept]
  exact hready

theorem Alike.setCuState (h : Alike s t) (st : CuState) : Alike (setCuState s st) (setCuState t st) := by
  obtain ⟨h, rfl, hready⟩ := h
  exact ⟨{ h with cuState := st }, rfl, hready⟩

theorem Alike.setRuState (h : Alike s t) (st : RuState) : Alike (setRuState s st) (setRuState t st) := by
  obtain ⟨h, rfl, -⟩ := h
  exact ⟨{ h with ruState := st }, rfl, Iff.rfl⟩

theorem Alike.interrupt (h : Alike s t) (status : Byte) : Alike (eepro100Interrupt s status) (eepro100Interrupt t status) :=
  h.map (f := fun s => eepro100Interrupt s status) fun s h => hide_interrupt s h status

theorem hidden_runCommand {fuel : ℕ} (hrun : runCommand fuel s = .ok t) : hidden t = hidden s := by
  have hmap : runCommand fuel s = (runCommand fuel s).map fun t => hide t (hidden s) := hide_runCommand s (hidden s) fuel
  rw [hrun] at hmap
  exact hidden_eq (Except.ok.inj hmap)

theorem hidden_completeBlock (s : Nic) : hidden (completeBlock s) = hidden s := hidden_eq (hide_completeBlock s (hidden s))

/-- The blocks of the list are read anew, so the card does not depend on the one it was working on. -/
theorem agree_actionCommand (fuel n : ℕ) (h : Alike s t) : Agree (actionCommand fuel n s) (actionCommand fuel n t) := by
  induction n generalizing s t with
  | zero => exact Agree.error _
  | succ n ih =>
    obtain ⟨h, rfl, hready⟩ := h
    rw [actionCommand, actionCommand, hide_fetchBlock, hide_runCommand]
    cases hrun : runCommand fuel (fetchBlock s) with
    | error e => exact Agree.error e
    | ok v =>
      have hhidden : hidden (completeBlock v) = hidden (fetchBlock s) :=
        (hidden_completeBlock v).trans (hidden_runCommand hrun)
      have hat : h.at (fetchBlock s) = h.at v := by
        show Hidden.mk h.cuState h.ruState (hidden (fetchBlock s)).tx (hidden (fetchBlock s)).cbAddress = _
        rw [← hidden_runCommand hrun]
        rfl
      have hblock : completeBlock (hide v (h.at (fetchBlock s))) = hide (completeBlock v) (h.at (fetchBlock s)) := by
        rw [hat]
        exact hide_completeBlock v h
      have hdone : Alike (completeBlock v) (completeBlock (hide v (h.at (fetchBlock s)))) := by
        refine ⟨h.at (fetchBlock s), hblock, hready.trans ?_⟩
        rw [show (completeBlock v).ruState = s.ruState from congrArg Hidden.ruState hhidden]
      have htx : (completeBlock (hide v (h.at (fetchBlock s)))).tx = (completeBlock v).tx :=
        (congrArg Nic.tx hblock).trans (congrArg Hidden.tx hhidden).symm
      show Agree
        (if (completeBlock v).tx.command &&& commandEl ≠ 0 then _
          else if (completeBlock v).tx.command &&& commandS ≠ 0 then _ else _)
        (if (completeBlock (hide v (h.at (fetchBlock s)))).tx.command &&& commandEl ≠ 0 then _
          else if (completeBlock (hide v (h.at (fetchBlock s)))).tx.command &&& commandS ≠ 0 then _ else _)
      rw [htx]
      split_ifs
      · exact Agree.ok ((hdone.setCuState _).interrupt _)
      · exact Agree.ok ((hdone.setCuState _).interrupt _)
      · exact ih hdone

theorem setCuState_setCuState (s : Nic) (st st' : CuState) : setCuState (setCuState s st) st' = setCuState s st' := by
  have hbits : ∀ b : Byte, ((b &&& 0x3f#8) + st.code <<< 6) &&& 0x3f#8 = b &&& 0x3f#8 := by cases st <;> decide
  unfold setCuState
  simp only [Function.update_self, Function.update_idem, hbits]

theorem cuCommand_resume (fuel : ℕ) (s : Nic) :
    eepro100CuCommand fuel s 0x20 = actionCommand fuel fuel (setCuState s .active) := by
  show (if (if s.cuState ≠ .suspended then setCuState s .suspended else s).cuState = .suspended then
    actionCommand fuel fuel (setCuState (if s.cuState ≠ .suspended then setCuState s .suspended else s) .active) else _) = _
  by_cases hs : s.cuState = .suspended
  · rw [if_neg (not_not.2 hs), if_pos hs]
  · rw [if_pos hs, if_pos (show (setCuState s .suspended).cuState = .suspended from rfl), setCuState_setCuState]

theorem agree_cuCommand (fuel : ℕ) (val : Byte) (h : Alike s t) :
    Agree (eepro100CuCommand fuel s val) (eepro100CuCommand fuel t val) := by
  by_cases hresume : val = 0x20
  · subst hresume
    rw [cuCommand_resume, cuCommand_resume]
    exact agree_actionCommand fuel fuel (h.setCuState .active)
  · have hstart : Alike { setCuState s .active with cuOffset := s.pointer }
        { setCuState t .active with cuOffset := t.pointer } := by
      obtain ⟨h, rfl, hready⟩ := h
      exact ⟨{ h with cuState := .active }, rfl, hready⟩
    unfold eepro100CuCommand
    simp only [if_neg hresume]
    split_ifs
    · exact agree_actionCommand fuel fuel hstart
    · exact Agree.ok (h.map (f := fun s => { s with statsaddr := s.pointer }) fun _ _ => rfl)
    · exact Agree.ok (h.map fun _ _ => rfl)
    · exact Agree.ok (h.map (f := fun s => { s with cuBase := s.pointer }) fun _ _ => rfl)
    · exact Agree.ok (h.map (f := fun s => { dumpStatistics s with statistics := ⟨0, 0, 0, 0⟩ }) fun _ _ => rfl)
    · exact Agree.ok h

theorem Alike.ruCommand (h : Alike s t) (val : Byte) : Alike (eepro100RuCommand s val) (eepro100RuCommand t val) := by
  unfold eepro100RuCommand
  split_ifs
  · exact (h.setRuState .ready).map (f := fun s => { s with ruOffset := s.pointer }) fun _ _ => rfl
  · exact h.setRuState .ready
  · exact h.map (f := fun s => { s with ruBase := s.pointer }) fun _ _ => rfl
  · exact h

theorem agree_writeCommand (fuel : ℕ) (val : Byte) (h : Alike s t) :
    Agree (eepro100WriteCommand fuel s val) (eepro100WriteCommand fuel t val) := by
  refine (agree_cuCommand fuel _ (h.ruCommand _)).bind fun u v huv => Agree.ok ?_
  exact huv.map (f := fun s => { s with mem := Function.update s.mem scbCmd 0 }) fun _ _ => rfl

theorem Alike.storeReg (h : Alike s t) (addr : ℕ) (bs : List Byte) : Alike (storeReg s addr bs) (storeReg t addr bs) :=
  h.map (f := fun s => Eepro100.storeReg s addr bs) fun _ _ => rfl

theorem Alike.writeEeprom (h : Alike s t) (val : Byte) : Alike (eepro100WriteEeprom s val) (eepro100WriteEeprom t val) :=
  h.map (f := fun s => eepro100WriteEeprom s val) fun _ _ => rfl

theorem agree_write1 (fuel addr : ℕ) (val : Byte) (h : Alike s t) :
    Agree (eepro100Write1 fuel s addr val) (eepro100Write1 fuel t addr val) := by
  have hstore := h.storeReg addr [val]
  unfold eepro100Write1
  dsimp only
  split_ifs
  · exact Agree.ok (hstore.map hide_acknowledge)
  · exact agree_writeCommand fuel val hstore
  · exact Agree.ok ((hstore.interrupt 0x04).interrupt 0)
  · exact Agree.ok (hstore.interrupt 0)
  · exact Agree.ok (hstore.writeEeprom val)
  · exact Agree.ok hstore

theorem Alike.bigEndian (h : Alike s t) : t.bigEndian = s.bigEndian := by
  obtain ⟨h, rfl, -⟩ := h
  rfl

theorem agree_write2 (fuel addr : ℕ) (val : BitVec 16) (h : Alike s t) :
    Agree (eepro100Write2 fuel s addr val) (eepro100Write2 fuel t addr val) := by
  unfold eepro100Write2
  rw [h.bigEndian]
  dsimp only
  generalize (if s.bigEndian = true then bswap16 val else val) = v
  have hstore := h.storeReg addr (GuestMem.bytes16 v)
  split_ifs
  · exact Agree.ok (hstore.map hide_acknowledge)
  · exact (agree_writeCommand fuel _ hstore).bind fun u w huw => agree_write1 fuel _ _ huw
  · exact Agree.ok (hstore.writeEeprom _)
  · exact Agree.ok hstore

theorem Alike.endReceive (h : Alike s t) (rfdCommand : BitVec 16) :
    Alike (endReceive s rfdCommand) (endReceive t rfdCommand) := by
  unfold Eepro100.endReceive
  dsimp only
  split_ifs
  · exact (h.setRuState _).setRuState _
  · exact h.setRuState _
  · exact h.setRuState _
  · exact h

/-- The card that has stored a frame, before the receive unit goes on. -/
def stored (s : Nic) (rfdStatus : BitVec 16) (buf : List Byte) : Nic :=
  { eepro100FrInterrupt { s with
      guest := storeFrame s (if buf.length < 64 then rfdStatus ||| 0x0080 else rfdStatus) buf
      statistics := { s.statistics with rxGoodFrames := s.statistics.rxGoodFrames + 1 } } with
    ruOffset := s.guest.le32 (s.ruBase + s.ruOffset + 4) }

theorem acceptFrame_eq (s : Nic) (rfdStatus : BitVec 16) (buf : List Byte) :
    acceptFrame s rfdStatus buf = endReceive (stored s rfdStatus buf) (s.guest.le16 (s.ruBase + s.ruOffset + 2)) := rfl

theorem hide_stored (s : Nic) (h : Hidden) (rfdStatus : BitVec 16) (buf : List Byte) :
    stored (hide s h) rfdStatus buf = hide (stored s rfdStatus buf) h := by
  have hint := hide_interrupt { s with
    guest := storeFrame s (if buf.length < 64 then rfdStatus ||| 0x0080 else rfdStatus) buf
    statistics := { s.statistics with rxGoodFrames := s.statistics.rxGoodFrames + 1 } } h 0x40
  exact congrArg (fun u => { u with ruOffset := s.guest.le32 (s.ruBase + s.ruOffset + 4) }) hint

theorem Alike.acceptFrame (h : Alike s t) (rfdStatus : BitVec 16) (buf : List Byte) :
    Alike (acceptFrame s rfdStatus buf) (acceptFrame t rfdStatus buf) := by
  have hcommand : t.guest.le16 (t.ruBase + t.ruOffset + 2) = s.guest.le16 (s.ruBase + s.ruOffset + 2) := by
    obtain ⟨h, rfl, -⟩ := h
    rfl
  rw [acceptFrame_eq, acceptFrame_eq, hcommand]
  exact (h.map (f := fun s => stored s rfdStatus buf) fun s h => hide_stored s h rfdStatus buf).endReceive _

/-- Of the receive unit, the reception reads only whether it is ready. -/
theorem agree_receive (buf : List Byte) (h : Alike s t) : Agree (nicReceive s buf) (nicReceive t buf) := by
  have hfilter : Alike (receiveFilter s buf).1 (receiveFilter t buf).1 ∧ (receiveFilter t buf).2 = (receiveFilter s buf).2 := by
    refine ⟨h.map (f := fun s => (receiveFilter s buf).1) fun s h => ?_, ?_⟩
    · rw [hide_receiveFilter]
    · obtain ⟨h, rfl, -⟩ := h
      rw [hide_receiveFilter]
  have hconfiguration : t.configuration = s.configuration := by
    obtain ⟨h, rfl, -⟩ := h
    rfl
  rw [nicReceive, nicReceive, hconfiguration]
  by_cases hassert : s.configuration 20 &&& 0x40 ≠ 0
  · rw [if_pos hassert, if_pos hassert]
    exact Agree.error _
  · rw [if_neg hassert, if_neg hassert]
    dsimp only
    rw [hfilter.2]
    cases (receiveFilter s buf).2 with
    | none => exact Agree.ok hfilter.1
    | some rfdStatus =>
      generalize (receiveFilter s buf).1 = s₁, (receiveFilter t buf).1 = t₁ at hfilter
      have haccept := hfilter.1.acceptFrame rfdStatus buf
      obtain ⟨⟨h₁, rfl, hready⟩, -⟩ := hfilter
      show Agree (if s₁.ruState ≠ .ready then _ else if s₁.configuration 18 &&& 4 ≠ 0 then _ else _)
        (if h₁.ruState ≠ .ready then _ else if s₁.configuration 18 &&& 4 ≠ 0 then _ else _)
      simp only [ne_eq, hready]
      split_ifs
      · exact Agree.ok haccept
      · exact Agree.error _
      · exact Agree.ok ⟨h₁, rfl, hready⟩

theorem agree_handle (fuel : ℕ) (e : Event) (h : Alike s t) : Agree (handle fuel s e) (handle fuel t e) := by
  cases e with
  | read1 | read2 | read4 => exact Agree.ok h
  | write1 addr val => exact agree_write1 fuel addr val h
  | write2 addr val => exact agree_write2 fuel addr val h
  | write4 addr val => exact Agree.ok (h.map (f := fun s => eepro100Write4 s addr val) fun s h => hide_write4 s h addr val)
  | receive buf => exact agree_receive buf h
  | memory guest => exact Agree.ok (h.map (f := fun s => { s with guest := guest }) fun _ _ => rfl)

theorem Alike.nicCanReceive (h : Alike s t) : nicCanReceive t = nicCanReceive s := by
  obtain ⟨h, rfl, hready⟩ := h
  exact decide_eq_decide.2 hready

theorem Alike.readValue (h : Alike s t) (e : Event) : readValue t e = readValue s e := by
  obtain ⟨h, rfl, -⟩ := h
  cases e <;> rfl

theorem Alike.seen (h : Alike s t) : seen t = seen s := by
  obtain ⟨h, rfl, -⟩ := h
  rfl

theorem Alike.answers (h : Alike s t) (fuel : ℕ) (es : List Event) : answers fuel t es = answers fuel s es := by
  induction es generalizing s t with
  | nil => rfl
  | cons e es ih =>
    rw [Eepro100.answers, Eepro100.answers, h.nicCanReceive, h.readValue]
    have hnext := agree_handle fuel e h
    revert hnext
    generalize handle fuel s e = x, handle fuel t e = y
    intro hnext
    cases hnext with
    | error e => rfl
    | ok hnext =>
      dsimp only
      rw [ih hnext, Except.map, Except.map, hnext.seen]

end Operations

/-! ### Saving and loading -/

/-- A card whose arrays are within their ends arrives but for what is not saved. -/
theorem loaded_initialised {d : Device100} (h : Bounded d.nic) (macaddr : List Byte) (spare : Spare → ℕ → ℕ)
    (config irqState : ℕ → ℕ) : (loaded d (initialised d macaddr spare config irqState)).nic =
      hide d.nic ⟨.idle, .idle, ⟨0, 0, 0, 0, 0, 0, 0⟩, 0⟩ := by
  have hmult : (fun i => if i < 8 then d.nic.mult i else 0) = d.nic.mult := by
    funext i
    split_ifs with hi
    · rfl
    · exact (h.mult i (by omega)).symm
  have hmdimem : (fun i => if i < 32 then d.nic.mdimem i else eepro100MdiDefault.getD i 0) = d.nic.mdimem := by
    funext i
    split_ifs with hi
    · rfl
    · rw [h.mdimem i (by omega)]
      exact List.getD_eq_default _ _ (by show 32 ≤ i; omega)
  have hmem : (fun i => if i < pciMemSize then d.nic.mem i else store (fun _ => 0) scbCtrlMDI (GuestMem.bytes32 (1#32 <<< 21)) i) =
      d.nic.mem := by
    funext i
    split_ifs with hi
    · rfl
    · rw [h.mem i (by omega)]
      exact store_mem (fun _ _ => rfl) (show scbCtrlMDI + 4 ≤ pciMemSize by decide) i (by omega)
  have hconfiguration : (fun i => if i < 22 then d.nic.configuration i else 0) = d.nic.configuration := by
    funext i
    split_ifs with hi
    · rfl
    · exact (h.configuration i (by omega)).symm
  rw [loaded_nic _ _ h.macaddr]
  show { d.nic with
    mult := fun i => if i < 8 then d.nic.mult i else 0
    mdimem := fun i => if i < 32 then d.nic.mdimem i else eepro100MdiDefault.getD i 0
    mem := fun i => if i < pciMemSize then d.nic.mem i else store (fun _ => 0) scbCtrlMDI (GuestMem.bytes32 (1#32 <<< 21)) i
    configuration := fun i => if i < 22 then d.nic.configuration i else 0
    cuState := .idle
    ruState := .idle
    tx := ⟨0, 0, 0, 0, 0, 0, 0⟩
    cbAddress := 0 } = _
  rw [hmult, hmdimem, hmem, hconfiguration]
  rfl

/-- For a card whose arrays are within their ends, only a ready receive unit is lost. -/
theorem Bounded.transparent_iff {d : Device100} (h : Bounded d.nic) (macaddr : List Byte) (spare : Spare → ℕ → ℕ)
    (config irqState : ℕ → ℕ) : Transparent d (initialised d macaddr spare config irqState) ↔ d.nic.ruState ≠ .ready := by
  set t := initialised d macaddr spare config irqState
  have hload : nicLoad 3 t (nicSave d) = .ok (loaded d t, []) := by
    rw [← List.append_nil (nicSave d)]
    exact nicLoad_nicSave d t []
  have hnic : (loaded d t).nic = hide d.nic ⟨.idle, .idle, ⟨0, 0, 0, 0, 0, 0, 0⟩, 0⟩ := loaded_initialised h _ _ _ _
  constructor
  · rintro ⟨u, hu, hanswers⟩ hready
    cases hload.symm.trans hu
    have hfirst := hanswers 0 [.read4 0]
    rw [hnic] at hfirst
    have hcan : decide (RuState.idle = .ready) = decide (d.nic.ruState = .ready) :=
      congrArg Answer.canReceive (List.cons.inj hfirst).1
    rw [hready] at hcan
    exact absurd hcan (by decide)
  · intro hready
    refine ⟨loaded d t, hload, fun fuel es => ?_⟩
    have halike : Alike d.nic (loaded d t).nic := ⟨_, hnic, by simp [hready]⟩
    exact halike.answers fuel es

/-- In every state that a card reaches, saving and loading is transparent exactly when the receive unit
is not ready. -/
theorem transparent_iff_not_ready (fuel : ℕ) (device : Device) (vendorId deviceId : BitVec 16) (macaddr macaddr' : Fin 6 → Byte)
    (eeprom : Eeprom) (guest : GuestMem) (bigEndian : Bool) (spare spare' : Spare → ℕ → ℕ)
    (config config' irqState irqState' : ℕ → ℕ) (es : List Event) (s : Nic)
    (hrun : es.foldlM (step fuel)
      (nicReset (zeroed device vendorId deviceId (List.ofFn macaddr) eeprom guest bigEndian)) = some s) :
    Transparent ⟨s, spare, config, irqState⟩
      (initialised ⟨s, spare, config, irqState⟩ (List.ofFn macaddr') spare' config' irqState') ↔ s.ruState ≠ .ready := by
  have hreset := bounded_reset (s := zeroed device vendorId deviceId (List.ofFn macaddr) eeprom guest bigEndian)
    (fun _ _ => rfl) List.length_ofFn
  have hbounded : Bounded s := foldlM_invariant (fun _ _ _ hs hstep => hs.step hstep) es _ _ hreset hrun
  exact Bounded.transparent_iff (d := ⟨s, spare, config, irqState⟩) hbounded _ _ _ _

/-- A card with a pointer in its registers that raises a software interrupt. -/
theorem transparent_interrupting : ∃ s, [Event.write4 scbPointer 0x1000, .write1 scbIntmask 2].foldlM (step 0) resetNic = some s ∧
    (s.pointer = 0x1000 ∧ s.mem scbAck ≠ 0) ∧
    Transparent ⟨s, fun _ _ => 7, fun _ => 1, fun _ => 1⟩
      (initialised ⟨s, fun _ _ => 7, fun _ => 1, fun _ => 1⟩ (List.ofFn fun _ : Fin 6 => 0x52) (fun _ _ => 0) (fun _ => 0)
        fun _ => 0) := by
  have hrun : ∃ s, [Event.write4 scbPointer 0x1000, .write1 scbIntmask 2].foldlM (step 0) resetNic = some s ∧
      (s.pointer = 0x1000 ∧ s.mem scbAck ≠ 0) ∧ s.ruState = .idle := ⟨_, rfl, ⟨rfl, by decide⟩, rfl⟩
  obtain ⟨s, hs, hregs, hidle⟩ := hrun
  refine ⟨s, hs, hregs, ?_⟩
  refine (transparent_iff_not_ready 0 .i82551 0x8086 0x1209 (fun _ => 0) (fun _ => 0x52) _ _ _ _ _ _ _ _ _ _ s hs).2 ?_
  rw [hidle]
  decide

/-- The receive unit is started, and the loaded card cannot receive. -/
theorem ready_not_transparent : ∃ s, [Event.write1 scbCmd 1].foldlM (step 0) resetNic = some s ∧
    ¬ Transparent ⟨s, fun _ _ => 0, fun _ => 0, fun _ => 0⟩
      (initialised ⟨s, fun _ _ => 0, fun _ => 0, fun _ => 0⟩ (List.replicate 6 0) (fun _ _ => 0) (fun _ => 0) fun _ => 0) := by
  have hreset : Bounded resetNic := bounded_reset (fun _ _ => rfl) List.length_replicate
  have hstart : ∃ s, step 0 resetNic (.write1 scbCmd 1) = some s ∧ s.ruState = .ready := ⟨_, rfl, rfl⟩
  obtain ⟨s, hstep, hready⟩ := hstart
  refine ⟨s, ?_, fun h => ((hreset.step hstep).transparent_iff (d := ⟨s, fun _ _ => 0, fun _ => 0, fun _ => 0⟩) _ _ _ _).1 h hready⟩
  rw [List.foldlM_cons, hstep]
  rfl

end Ar7Qemu.Hw.Eepro100
