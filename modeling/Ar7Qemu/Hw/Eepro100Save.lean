import Ar7Qemu.Hw.Eepro100
import Ar7Qemu.Migration.QemuFile

/-! Saving and loading of the EEPRO100. The source lists the fields of the device twice, once for
each direction, and leaves out the states of the command unit and the receive unit. The EEPROM has a
section of its own, and so have guest memory and the network client. -/

namespace Ar7Qemu.Hw.Eepro100

open Lib Ar7Qemu.Migration

/-! ### Units of the stream -/

/-- `qemu_put_be16`. -/
def putBe16 (v : ℕ) : Stream := putByte (v >>> 8) ++ putByte v

/-- `qemu_get_be16`. The shifted byte and the other one do not overlap. -/
def getBe16 (f : Stream) : ℕ × Stream :=
  let (a, f) := getByte f
  let (b, f) := getByte f
  (a.toNat <<< 8 + b.toNat, f)

/-- A byte or a big-endian word. -/
inductive Width where
  | byte | be16 | be32

namespace Width

def bits : Width → ℕ
  | byte => 8
  | be16 => 16
  | be32 => 32

def put : Width → ℕ → Stream
  | byte => putByte
  | be16 => putBe16
  | be32 => putBe32

def get : Width → Stream → ℕ × Stream
  | byte, f => ((getByte f).1.toNat, (getByte f).2)
  | be16, f => getBe16 f
  | be32, f => getBe32 f

end Width

def putUnits (w : Width) (n : ℕ) (v : ℕ → ℕ) : Stream := (List.range n).flatMap fun i => w.put (v i)

def getUnits (w : Width) : ℕ → Stream → List ℕ × Stream
  | 0, f => ([], f)
  | n + 1, f =>
    let (v, f) := w.get f
    let (vs, f) := getUnits w n f
    (v :: vs, f)

/-! ### The device -/

/-- The members of the device that only `nic_save` and `nic_load` use, the counters that the card never
counts, and the addresses of the PCI regions. -/
inductive Spare where
  | rxcr | cmd | start | stop | boundary | tsr | tpsr | tcnt | rcnt | rsar | rsr | isr | dcfg | imr | phys | curpag
  | region | statcounter
  | txMaxCollisions | txLateCollisions | txUnderruns | txLostCrs | txDeferred | txSingleCollisions
  | txMultipleCollisions | txTotalCollisions
  | rxCrcErrors | rxAlignmentErrors | rxOverrunErrors | rxCdtErrors
  | fcXmtPause | fcRcvPause | fcRcvUnsupported | xmtTcoFrames | rcvTcoFrames | complete
  deriving DecidableEq

/-- The card with the other members of the device, and its PCI configuration space and interrupt
states, which have the identity and the interrupt line of the card in their first entries. -/
structure Device100 where
  nic : Nic
  spare : Spare → ℕ → ℕ
  config : ℕ → ℕ
  irqState : ℕ → ℕ

/-- What one line of `nic_save`, `nic_load`, `pci_device_save` or `pci_device_load` is about. -/
inductive Field where
  | config | irqState
  | spare (x : Spare)
  | mult | mem | scbStat | intStat | macaddr | mdimem | device | pointer | cuBase | cuOffset | ruBase | ruOffset
  | statsaddr | txGoodFrames | rxGoodFrames | rxResourceErrors | rxShortFrameErrors | configuration
  deriving DecidableEq

def Spare.width : Spare → Width
  | tcnt | rcnt | xmtTcoFrames | rcvTcoFrames => .be16
  | rxcr | cmd | boundary | tsr | tpsr | rsr | isr | dcfg | imr | phys | curpag => .byte
  | _ => .be32

def Spare.count : Spare → ℕ
  | phys => 6
  | region => 3
  | statcounter => 19
  | _ => 1

namespace Field

def width : Field → Width
  | config | mult | mem | scbStat | intStat | macaddr | configuration => .byte
  | mdimem => .be16
  | spare x => x.width
  | _ => .be32

def count : Field → ℕ
  | config => 256
  | irqState => 4
  | spare x => x.count
  | mult => 8
  | mem => pciMemSize
  | macaddr => 6
  | mdimem => 32
  | configuration => 22
  | _ => 1

/-- The units of a field. -/
def get (d : Device100) : Field → ℕ → ℕ
  | config, i => if i < 2 then (d.nic.vendorId.extractLsb' (8 * i) 8).toNat
      else if i < 4 then (d.nic.deviceId.extractLsb' (8 * (i - 2)) 8).toNat else d.config i
  | irqState, i => if i = 0 then d.nic.irq.toNat else d.irqState i
  | spare x, i => d.spare x i
  | mult, i => (d.nic.mult i).toNat
  | mem, i => (d.nic.mem i).toNat
  | scbStat, _ => d.nic.scbStat.toNat
  | intStat, _ => d.nic.intStat.toNat
  | macaddr, i => (d.nic.macaddr.getD i 0).toNat
  | mdimem, i => (d.nic.mdimem i).toNat
  | device, _ => d.nic.device.code
  | pointer, _ => d.nic.pointer.toNat
  | cuBase, _ => d.nic.cuBase.toNat
  | cuOffset, _ => d.nic.cuOffset.toNat
  | ruBase, _ => d.nic.ruBase.toNat
  | ruOffset, _ => d.nic.ruOffset.toNat
  | statsaddr, _ => d.nic.statsaddr.toNat
  | txGoodFrames, _ => d.nic.statistics.txGoodFrames.toNat
  | rxGoodFrames, _ => d.nic.statistics.rxGoodFrames.toNat
  | rxResourceErrors, _ => d.nic.statistics.rxResourceErrors.toNat
  | rxShortFrameErrors, _ => d.nic.statistics.rxShortFrameErrors.toNat
  | configuration, i => (d.nic.configuration i).toNat

end Field

/-- The variant of a code, if there is one. -/
def deviceOf (code : ℕ) : Option Device :=
  [Device.i82551, .i82557A, .i82557B, .i82557C, .i82558B, .i82559C, .i82559ER, .i82562].find? fun d => d.code = code

/-- The entries of an array that have been read. -/
def overwrite {n : ℕ} (count : ℕ) (v : ℕ → ℕ) (a : ℕ → BitVec n) : ℕ → BitVec n :=
  fun i => if i < count then BitVec.ofNat n (v i) else a i

def Field.set (v : ℕ → ℕ) (d : Device100) : Field → Device100
  | config => { d with
      config := fun i => if i < 256 then v i else d.config i
      nic := { d.nic with
        vendorId := BitVec.ofNat 8 (v 1) ++ BitVec.ofNat 8 (v 0)
        deviceId := BitVec.ofNat 8 (v 3) ++ BitVec.ofNat 8 (v 2) } }
  | irqState => { d with
      irqState := fun i => if i < 4 then v i else d.irqState i
      nic := { d.nic with irq := decide (v 0 ≠ 0) } }
  | spare x => { d with spare := Function.update d.spare x fun i => if i < x.count then v i else d.spare x i }
  | mult => { d with nic := { d.nic with mult := overwrite 8 v d.nic.mult } }
  | mem => { d with nic := { d.nic with mem := overwrite pciMemSize v d.nic.mem } }
  | scbStat => { d with nic := { d.nic with scbStat := BitVec.ofNat 8 (v 0) } }
  | intStat => { d with nic := { d.nic with intStat := decide (v 0 ≠ 0) } }
  | macaddr => { d with nic := { d.nic with macaddr := (List.range 6).map fun i => BitVec.ofNat 8 (v i) } }
  | mdimem => { d with nic := { d.nic with mdimem := overwrite 32 v d.nic.mdimem } }
  | device => { d with nic := { d.nic with device := (deviceOf (v 0)).getD d.nic.device } }
  | pointer => { d with nic := { d.nic with pointer := BitVec.ofNat 32 (v 0) } }
  | cuBase => { d with nic := { d.nic with cuBase := BitVec.ofNat 32 (v 0) } }
  | cuOffset => { d with nic := { d.nic with cuOffset := BitVec.ofNat 32 (v 0) } }
  | ruBase => { d with nic := { d.nic with ruBase := BitVec.ofNat 32 (v 0) } }
  | ruOffset => { d with nic := { d.nic with ruOffset := BitVec.ofNat 32 (v 0) } }
  | statsaddr => { d with nic := { d.nic with statsaddr := BitVec.ofNat 32 (v 0) } }
  | txGoodFrames => { d with nic := { d.nic with
      statistics := { d.nic.statistics with txGoodFrames := BitVec.ofNat 32 (v 0) } } }
  | rxGoodFrames => { d with nic := { d.nic with
      statistics := { d.nic.statistics with rxGoodFrames := BitVec.ofNat 32 (v 0) } } }
  | rxResourceErrors => { d with nic := { d.nic with
      statistics := { d.nic.statistics with rxResourceErrors := BitVec.ofNat 32 (v 0) } } }
  | rxShortFrameErrors => { d with nic := { d.nic with
      statistics := { d.nic.statistics with rxShortFrameErrors := BitVec.ofNat 32 (v 0) } } }
  | configuration => { d with nic := { d.nic with configuration := overwrite 22 v d.nic.configuration } }

/-! ### `nic_save` and `nic_load` -/

def putField (d : Device100) (x : Field) : Stream := putUnits x.width x.count (x.get d)

def getField (r : Device100 × Stream) (x : Field) : Device100 × Stream :=
  let (vs, f) := getUnits x.width x.count r.2
  (x.set (fun i => vs.getD i 0) r.1, f)

/-- The lines of `nic_save` after the PCI device. -/
def savedFields : List Field :=
  [.spare .rxcr, .spare .cmd, .spare .start, .spare .stop, .spare .boundary, .spare .tsr, .spare .tpsr, .spare .tcnt,
   .spare .rcnt, .spare .rsar, .spare .rsr, .spare .isr, .spare .dcfg, .spare .imr, .spare .phys, .spare .curpag, .mult, .mem,
   .scbStat, .intStat, .spare .region, .macaddr, .spare .statcounter, .mdimem, .device, .pointer, .cuBase, .cuOffset, .ruBase,
   .ruOffset, .statsaddr, .txGoodFrames, .spare .txMaxCollisions, .spare .txLateCollisions, .spare .txUnderruns,
   .spare .txLostCrs, .spare .txDeferred, .spare .txSingleCollisions, .spare .txMultipleCollisions,
   .spare .txTotalCollisions, .rxGoodFrames, .spare .rxCrcErrors, .spare .rxAlignmentErrors, .rxResourceErrors,
   .spare .rxOverrunErrors, .spare .rxCdtErrors, .rxShortFrameErrors, .spare .fcXmtPause, .spare .fcRcvPause,
   .spare .fcRcvUnsupported, .spare .xmtTcoFrames, .spare .rcvTcoFrames, .spare .complete, .configuration]

/-- The lines of `nic_load` after `rxcr`. -/
def loadedFields : List Field :=
  [.spare .cmd, .spare .start, .spare .stop, .spare .boundary, .spare .tsr, .spare .tpsr, .spare .tcnt,
   .spare .rcnt, .spare .rsar, .spare .rsr, .spare .isr, .spare .dcfg, .spare .imr, .spare .phys, .spare .curpag, .mult, .mem,
   .scbStat, .intStat, .spare .region, .macaddr, .spare .statcounter, .mdimem, .device, .pointer, .cuBase, .cuOffset, .ruBase,
   .ruOffset, .statsaddr, .txGoodFrames, .spare .txMaxCollisions, .spare .txLateCollisions, .spare .txUnderruns,
   .spare .txLostCrs, .spare .txDeferred, .spare .txSingleCollisions, .spare .txMultipleCollisions,
   .spare .txTotalCollisions, .rxGoodFrames, .spare .rxCrcErrors, .spare .rxAlignmentErrors, .rxResourceErrors,
   .spare .rxOverrunErrors, .spare .rxCdtErrors, .rxShortFrameErrors, .spare .fcXmtPause, .spare .fcRcvPause,
   .spare .fcRcvUnsupported, .spare .xmtTcoFrames, .spare .rcvTcoFrames, .spare .complete, .configuration]

def pciDeviceSave (d : Device100) : Stream := putBe32 2 ++ putField d .config ++ putField d .irqState

def pciDeviceLoad (d : Device100) (f : Stream) : Except ℤ (Device100 × Stream) :=
  let (versionId, f) := getBe32 f
  if 2 < versionId then .error (-einval)
  else
    let r := getField (d, f) .config
    .ok (if 2 ≤ versionId then getField r .irqState else r)

def nicSave (d : Device100) : Stream := pciDeviceSave d ++ savedFields.flatMap (putField d)

def nicLoad (versionId : ℕ) (d : Device100) (f : Stream) : Except ℤ (Device100 × Stream) :=
  if 3 < versionId then .error (-einval)
  else do
    let r ← if 3 ≤ versionId then pciDeviceLoad d f else .ok (d, f)
    let r := if 2 ≤ versionId then getField r (.spare .rxcr)
      else (Field.set (fun _ => 0x0c) r.1 (.spare .rxcr), r.2)
    .ok (loadedFields.foldl getField r)

/-! ### The round trip -/

theorem toNat_uint8 (v : ℕ) : (UInt8.ofNat v).toNat = v % 2 ^ 8 := UInt8.toNat_ofNat'

theorem Width.get_put (w : Width) (v : ℕ) (f : Stream) : w.get (w.put v ++ f) = (v % 2 ^ w.bits, f) := by
  cases w with
  | byte =>
    rw [Width.put, Width.get, getByte_putByte, toNat_uint8]
    rfl
  | be16 =>
    simp only [Width.put, Width.get, putBe16, getBe16, List.append_assoc, getByte_putByte, toNat_uint8, Width.bits,
      Nat.shiftLeft_eq, Nat.shiftRight_eq_div_pow, Prod.mk.injEq, and_true]
    omega
  | be32 => exact getBe32_putBe32 v f

theorem getUnits_putUnits (w : Width) (n : ℕ) (v : ℕ → ℕ) (f : Stream) :
    getUnits w n (putUnits w n v ++ f) = ((List.range n).map fun i => v i % 2 ^ w.bits, f) := by
  induction n generalizing v with
  | zero => rfl
  | succ n ih =>
    rw [putUnits, List.range_succ_eq_map, List.flatMap_cons, List.flatMap_map, List.append_assoc, getUnits,
      Width.get_put]
    dsimp only
    rw [show ((List.range n).flatMap fun i => w.put (v (Nat.succ i))) = putUnits w n fun i => v (i + 1) from rfl, ih]
    simp [List.map_map, Function.comp_def]

def Field.arrived (d : Device100) (x : Field) (i : ℕ) : ℕ := if i < x.count then x.get d i % 2 ^ x.width.bits else 0

theorem getField_putField (d t : Device100) (x : Field) (f : Stream) :
    getField (t, putField d x ++ f) x = (x.set (x.arrived d) t, f) := by
  rw [getField, putField]
  dsimp only
  rw [getUnits_putUnits]
  have hvals : (fun i => ((List.range x.count).map fun i => x.get d i % 2 ^ x.width.bits).getD i 0) = x.arrived d := by
    funext i
    unfold Field.arrived
    split_ifs with hi
    · simp [List.getD_eq_getElem?_getD, hi]
    · simp [List.getD_eq_getElem?_getD, hi]
  rw [hvals]

theorem foldl_getField (d : Device100) (xs : List Field) (t : Device100) (f : Stream) :
    xs.foldl getField (t, xs.flatMap (putField d) ++ f) = (xs.foldl (fun t x => x.set (x.arrived d) t) t, f) := by
  induction xs generalizing t with
  | nil => rfl
  | cons x xs ih => rw [List.flatMap_cons, List.append_assoc, List.foldl_cons, getField_putField, List.foldl_cons, ih]

theorem savedFields_eq : savedFields = .spare .rxcr :: loadedFields := rfl

def loaded (d t : Device100) : Device100 :=
  (.config :: .irqState :: savedFields).foldl (fun t x => x.set (x.arrived d) t) t

theorem nicLoad_nicSave (d t : Device100) (f : Stream) : nicLoad 3 t (nicSave d ++ f) = .ok (loaded d t, f) := by
  have hpci : pciDeviceLoad t (nicSave d ++ f) = .ok (Field.set (Field.arrived d .irqState)
      (Field.set (Field.arrived d .config) t .config) .irqState, savedFields.flatMap (putField d) ++ f) := by
    rw [nicSave, pciDeviceSave, pciDeviceLoad, List.append_assoc, List.append_assoc, List.append_assoc, getBe32_putBe32]
    dsimp only
    rw [if_neg (by decide), if_pos (by decide), getField_putField, getField_putField]
  rw [nicLoad, if_neg (by decide), if_pos (by decide), hpci]
  show Except.ok (loadedFields.foldl getField (if 2 ≤ 3 then _ else _)) = _
  rw [if_pos (by decide), savedFields_eq, List.flatMap_cons, List.append_assoc, getField_putField, foldl_getField]
  rfl

/-! ### What arrives -/

section Arrives

variable (d t : Device100)

theorem arrived_eq {x : Field} {i : ℕ} (hi : i < x.count) (hv : x.get d i < 2 ^ x.width.bits) :
    x.arrived d i = x.get d i := by
  rw [Field.arrived, if_pos hi, Nat.mod_eq_of_lt hv]

theorem loaded_identity : (loaded d t).nic.vendorId = d.nic.vendorId ∧ (loaded d t).nic.deviceId = d.nic.deviceId := by
  have hbyte : ∀ i < 4, Field.config.arrived d i = Field.config.get d i := by
    intro i hi
    refine arrived_eq d (Nat.lt_trans hi (by decide)) ?_
    show (if i < 2 then _ else if i < 4 then _ else _) < 2 ^ 8
    split_ifs
    · exact BitVec.isLt _
    · exact BitVec.isLt _
  constructor
  · show BitVec.ofNat 8 (Field.config.arrived d 1) ++ BitVec.ofNat 8 (Field.config.arrived d 0) = d.nic.vendorId
    rw [hbyte 1 (by decide), hbyte 0 (by decide)]
    show BitVec.ofNat 8 (d.nic.vendorId.extractLsb' 8 8).toNat ++ BitVec.ofNat 8 (d.nic.vendorId.extractLsb' 0 8).toNat =
      d.nic.vendorId
    rw [BitVec.ofNat_toNat, BitVec.ofNat_toNat, BitVec.setWidth_eq, BitVec.setWidth_eq]
    exact GuestMem.append_bytes16 _
  · show BitVec.ofNat 8 (Field.config.arrived d 3) ++ BitVec.ofNat 8 (Field.config.arrived d 2) = d.nic.deviceId
    rw [hbyte 3 (by decide), hbyte 2 (by decide)]
    show BitVec.ofNat 8 (d.nic.deviceId.extractLsb' 8 8).toNat ++ BitVec.ofNat 8 (d.nic.deviceId.extractLsb' 0 8).toNat =
      d.nic.deviceId
    rw [BitVec.ofNat_toNat, BitVec.ofNat_toNat, BitVec.setWidth_eq, BitVec.setWidth_eq]
    exact GuestMem.append_bytes16 _

theorem flag_arrived {x : Field} (hcount : 0 < x.count) (hbits : 1 < 2 ^ x.width.bits) {b : Bool} (hget : x.get d 0 = b.toNat) :
    decide (x.arrived d 0 ≠ 0) = b := by
  have hle : b.toNat ≤ 1 := Bool.toNat_le b
  rw [arrived_eq d hcount (by omega), hget]
  cases b <;> rfl

theorem word_arrived {n : ℕ} {x : Field} {i : ℕ} (hi : i < x.count) (hbits : n = x.width.bits) {w : BitVec n}
    (hget : x.get d i = w.toNat) : BitVec.ofNat n (x.arrived d i) = w := by
  rw [arrived_eq d hi (by rw [hget, ← hbits]; exact w.isLt), hget, BitVec.ofNat_toNat, BitVec.setWidth_eq]

theorem array_arrived {n : ℕ} {x : Field} (hbits : n = x.width.bits) {a b : ℕ → BitVec n}
    (hget : ∀ i, x.get d i = (a i).toNat) : overwrite x.count (x.arrived d) b = fun i => if i < x.count then a i else b i := by
  funext i
  unfold overwrite
  split_ifs with hi
  · exact word_arrived d hi hbits (hget i)
  · rfl

theorem device_arrived : (deviceOf (Field.device.arrived d 0)).getD t.nic.device = d.nic.device := by
  have harrived : Field.device.arrived d 0 = d.nic.device.code := by
    refine arrived_eq d (by decide) ?_
    show d.nic.device.code < 2 ^ 32
    cases d.nic.device <;> decide
  rw [harrived]
  cases d.nic.device <;> rfl

theorem macaddr_arrived (hmac : d.nic.macaddr.length = 6) :
    ((List.range 6).map fun i => BitVec.ofNat 8 (Field.macaddr.arrived d i)) = d.nic.macaddr := by
  apply List.ext_getElem
  · simp [hmac]
  · intro i hi hi'
    simp only [List.getElem_map, List.getElem_range]
    have hget : Field.macaddr.get d i = (d.nic.macaddr[i]).toNat := by
      show (d.nic.macaddr.getD i 0).toNat = _
      rw [List.getD_eq_getElem _ _ hi']
    exact word_arrived d (show i < 6 by omega) rfl hget

/-- The card after the load of a saved device: what is not saved, and the arrays behind their ends, stay
as they were. -/
theorem loaded_nic (hmac : d.nic.macaddr.length = 6) : (loaded d t).nic =
    { d.nic with
      mult := fun i => if i < 8 then d.nic.mult i else t.nic.mult i
      mdimem := fun i => if i < 32 then d.nic.mdimem i else t.nic.mdimem i
      mem := fun i => if i < pciMemSize then d.nic.mem i else t.nic.mem i
      configuration := fun i => if i < 22 then d.nic.configuration i else t.nic.configuration i
      eeprom := t.nic.eeprom
      cuState := t.nic.cuState
      ruState := t.nic.ruState
      tx := t.nic.tx
      cbAddress := t.nic.cbAddress
      guest := t.nic.guest
      sent := t.nic.sent
      bigEndian := t.nic.bigEndian } := by
  obtain ⟨hvendor, hdevice⟩ := loaded_identity d t
  have hstatistics : (loaded d t).nic.statistics = d.nic.statistics := by
    show Statistics.mk (BitVec.ofNat 32 (Field.txGoodFrames.arrived d 0)) (BitVec.ofNat 32 (Field.rxGoodFrames.arrived d 0))
      (BitVec.ofNat 32 (Field.rxResourceErrors.arrived d 0)) (BitVec.ofNat 32 (Field.rxShortFrameErrors.arrived d 0)) = _
    rw [show BitVec.ofNat 32 (Field.txGoodFrames.arrived d 0) = d.nic.statistics.txGoodFrames from
        word_arrived d (by decide) rfl rfl,
      show BitVec.ofNat 32 (Field.rxGoodFrames.arrived d 0) = d.nic.statistics.rxGoodFrames from
        word_arrived d (by decide) rfl rfl,
      show BitVec.ofNat 32 (Field.rxResourceErrors.arrived d 0) = d.nic.statistics.rxResourceErrors from
        word_arrived d (by decide) rfl rfl,
      show BitVec.ofNat 32 (Field.rxShortFrameErrors.arrived d 0) = d.nic.statistics.rxShortFrameErrors from
        word_arrived d (by decide) rfl rfl]
  have heta : ∀ u : Nic, u = ⟨u.mult, u.scbStat, u.intStat, u.irq, u.macaddr, u.mdimem, u.eeprom, u.device, u.vendorId,
      u.deviceId, u.pointer, u.cuBase, u.cuOffset, u.ruBase, u.ruOffset, u.statsaddr, u.cuState, u.ruState, u.tx, u.cbAddress,
      u.statistics, u.configuration, u.mem, u.guest, u.sent, u.bigEndian⟩ := fun _ => rfl
  rw [heta (loaded d t).nic, hvendor, hdevice, hstatistics,
    show (loaded d t).nic.mult = _ from array_arrived d (x := .mult) rfl fun _ => rfl,
    show (loaded d t).nic.mdimem = _ from array_arrived d (x := .mdimem) rfl fun _ => rfl,
    show (loaded d t).nic.mem = _ from array_arrived d (x := .mem) rfl fun _ => rfl,
    show (loaded d t).nic.configuration = _ from array_arrived d (x := .configuration) rfl fun _ => rfl,
    show (loaded d t).nic.macaddr = _ from macaddr_arrived d hmac,
    show (loaded d t).nic.device = _ from device_arrived d t,
    show (loaded d t).nic.irq = _ from flag_arrived d (x := .irqState) (by decide) (by decide) rfl,
    show (loaded d t).nic.intStat = _ from flag_arrived d (x := .intStat) (by decide) (by decide) rfl,
    show (loaded d t).nic.scbStat = _ from word_arrived d (x := .scbStat) (by decide) rfl rfl,
    show (loaded d t).nic.pointer = _ from word_arrived d (x := .pointer) (by decide) rfl rfl,
    show (loaded d t).nic.cuBase = _ from word_arrived d (x := .cuBase) (by decide) rfl rfl,
    show (loaded d t).nic.cuOffset = _ from word_arrived d (x := .cuOffset) (by decide) rfl rfl,
    show (loaded d t).nic.ruBase = _ from word_arrived d (x := .ruBase) (by decide) rfl rfl,
    show (loaded d t).nic.ruOffset = _ from word_arrived d (x := .ruOffset) (by decide) rfl rfl,
    show (loaded d t).nic.statsaddr = _ from word_arrived d (x := .statsaddr) (by decide) rfl rfl]
  rfl

end Arrives

end Ar7Qemu.Hw.Eepro100
