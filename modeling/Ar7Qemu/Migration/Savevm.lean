import Ar7Qemu.Lib.Run
import Ar7Qemu.Migration.QemuFile
import Mathlib.Data.List.Nodup

/-! The registry of savevm handlers and the format that `qemu_savevm_state_begin`,
`qemu_savevm_state_iterate` and `qemu_savevm_state_complete` write and
`qemu_loadvm_state` reads. What a handler saves is arbitrary data for each of its calls,
and what its loader does with the stream is how many bytes it reads. -/

namespace Ar7Qemu.Migration

open Lib

/-- `int` and `uint32_t`. -/
abbrev CInt := BitVec 32

/-- A string of C: the bytes before its terminator. -/
structure CString where
  bytes : List UInt8
  noNul : 0 ∉ bytes
  deriving DecidableEq

/-- `pstrcpy` into a buffer of `size` bytes. -/
def pstrcpy (size : ℕ) (s : CString) : CString :=
  ⟨s.bytes.take (size - 1), fun h => s.noNul (List.mem_of_mem_take h)⟩

structure SaveStateEntry where
  idstr : CString
  instanceId : CInt
  versionId : CInt
  sectionId : CInt
  /-- The result and the data of each call: in `qemu_savevm_state_begin`, in the iterations
  and in `qemu_savevm_state_complete`. -/
  saveLiveState : Option (ℕ → Bool × Stream)
  saveState : Option Stream
  /-- The number of bytes read from the stream at a version. -/
  loadState : CInt → Stream → ℕ
  opaqueId : ℕ

structure Registry where
  entries : List SaveStateEntry
  globalSectionId : CInt

def registerSavevmLive (idstr : CString) (instanceId versionId : CInt)
    (saveLiveState : Option (ℕ → Bool × Stream)) (saveState : Option Stream)
    (loadState : CInt → Stream → ℕ) (opaqueId : ℕ) (r : Registry) : Registry :=
  let name := pstrcpy 256 idstr
  let id := r.entries.foldl (fun id se =>
      if instanceId = -1 ∧ name = se.idstr ∧ id.sle se.instanceId then se.instanceId + 1 else id)
    (if instanceId = -1 then 0 else instanceId)
  { entries := r.entries ++
      [⟨name, id, versionId, r.globalSectionId, saveLiveState, saveState, loadState, opaqueId⟩]
    globalSectionId := r.globalSectionId + 1 }

def registerSavevm (idstr : CString) (instanceId versionId : CInt) (saveState : Option Stream)
    (loadState : CInt → Stream → ℕ) (opaqueId : ℕ) (r : Registry) : Registry :=
  registerSavevmLive idstr instanceId versionId none saveState loadState opaqueId r

def unregisterSavevm (idstr : CString) (opaqueId : ℕ) (r : Registry) : Registry :=
  { r with entries := r.entries.filter fun se => ¬ (se.idstr = idstr ∧ se.opaqueId = opaqueId) }

def qemuVmFileMagic : ℕ := 0x5145564d
def qemuVmFileVersionCompat : ℕ := 2
def qemuVmFileVersion : ℕ := 3
def qemuVmEof : ℕ := 0
def qemuVmSectionStart : ℕ := 1
def qemuVmSectionPart : ℕ := 2
def qemuVmSectionEnd : ℕ := 3
def qemuVmSectionFull : ℕ := 4

def putSectionName (se : SaveStateEntry) : Stream :=
  putByte se.idstr.bytes.length ++ se.idstr.bytes ++ putBe32 se.instanceId.toNat ++
    putBe32 se.versionId.toNat

def putSectionHeader (type : ℕ) (se : SaveStateEntry) : Stream :=
  putByte type ++ putBe32 se.sectionId.toNat

/-- What `qemu_savevm_state_begin` writes for an entry. -/
def startSection (se : SaveStateEntry) : Stream :=
  match se.saveLiveState with
  | none => []
  | some save => putSectionHeader qemuVmSectionStart se ++ putSectionName se ++ (save 0).2

/-- What a later pass of the live handlers writes for an entry. -/
def liveSection (type i : ℕ) (se : SaveStateEntry) : Stream :=
  match se.saveLiveState with
  | none => []
  | some save => putSectionHeader type se ++ (save i).2

/-- What the last pass of `qemu_savevm_state_complete` writes for an entry. -/
def fullSection (se : SaveStateEntry) : Stream :=
  match se.saveState with
  | none => []
  | some data => putSectionHeader qemuVmSectionFull se ++ putSectionName se ++ data

/-- `qemu_savevm_state_begin`. -/
def savevmStateBegin (entries : List SaveStateEntry) : Stream :=
  putBe32 qemuVmFileMagic ++ putBe32 qemuVmFileVersion ++ entries.flatMap startSection

/-- `qemu_savevm_state_iterate`, the `i`-th time. It returns whether every live handler is
done. -/
def savevmStateIterate (entries : List SaveStateEntry) (i : ℕ) : Bool × Stream :=
  (entries.all fun se => (se.saveLiveState.map fun save => (save i).1).getD true,
    entries.flatMap (liveSection qemuVmSectionPart i))

/-- `qemu_savevm_state_complete`, after the iterations before `i`. -/
def savevmStateComplete (entries : List SaveStateEntry) (i : ℕ) : Stream :=
  entries.flatMap (liveSection qemuVmSectionEnd i) ++ entries.flatMap fullSection ++ putByte qemuVmEof

/-- The whole stream, with `n` iterations. -/
def savevmStream (entries : List SaveStateEntry) (n : ℕ) : Stream :=
  savevmStateBegin entries ++ ((List.range n).flatMap fun i => (savevmStateIterate entries (i + 1)).2) ++
    savevmStateComplete entries (n + 1)

/-- `find_se`. The name ends at its first NUL byte. -/
def findSe (entries : List SaveStateEntry) (idstr : List UInt8) (instanceId : CInt) :
    Option SaveStateEntry :=
  entries.find? fun se => se.idstr.bytes = idstr.takeWhile (· ≠ 0) ∧ instanceId = se.instanceId

structure LoadStateEntry where
  se : SaveStateEntry
  sectionId : CInt
  versionId : CInt

/-- A call of a `load_state` handler with the data it reads. -/
structure LoadCall where
  se : SaveStateEntry
  versionId : CInt
  data : Stream

/-- The handler reads its data and the loop goes on with the rest. -/
def callLoad (se : SaveStateEntry) (versionId : CInt) (f : Stream)
    (loop : Stream → Option (ℤ × List LoadCall)) : Option (ℤ × List LoadCall) :=
  let n := se.loadState versionId f
  (loop (f.drop n)).map fun r => (r.1, ⟨se, versionId, f.take n⟩ :: r.2)

def enotsup : ℤ := 95

/-- The loop of `qemu_loadvm_state`: its result and the handlers it calls. There is no result
when the fuel is used up. -/
def loadLoop (entries : List SaveStateEntry) :
    ℕ → List LoadStateEntry → Stream → Option (ℤ × List LoadCall)
  | 0, _, _ => none
  | n + 1, les, f =>
    let (type, f) := getByte f
    if type.toNat = qemuVmEof then some (0, [])
    else if type.toNat = qemuVmSectionStart ∨ type.toNat = qemuVmSectionFull then
      let (sectionId, f) := getBe32 f
      let (len, f) := getByte f
      let (idstr, f) := getBuffer len.toNat f
      let (instanceId, f) := getBe32 f
      let (versionId, f) := getBe32 f
      match findSe entries idstr (BitVec.ofNat 32 instanceId) with
      | none => some (-einval, [])
      | some se =>
        if se.versionId.toNat < versionId then some (-einval, [])
        else callLoad se (BitVec.ofNat 32 versionId) f
          (loadLoop entries n (⟨se, BitVec.ofNat 32 sectionId, BitVec.ofNat 32 versionId⟩ :: les))
    else if type.toNat = qemuVmSectionPart ∨ type.toNat = qemuVmSectionEnd then
      let (sectionId, f) := getBe32 f
      match les.find? fun le => le.sectionId = BitVec.ofNat 32 sectionId with
      | none => some (-einval, [])
      | some le => callLoad le.se le.versionId f (loadLoop entries n les)
    else some (-einval, [])

/-- `qemu_loadvm_state`. Every pass of its loop reads a byte or ends it. -/
def loadvmState (loadvmStateV2 : Stream → ℤ × List LoadCall) (entries : List SaveStateEntry)
    (f : Stream) : Option (ℤ × List LoadCall) :=
  let (magic, f) := getBe32 f
  if magic ≠ qemuVmFileMagic then some (-einval, [])
  else
    let (version, f) := getBe32 f
    if version = qemuVmFileVersionCompat then some (loadvmStateV2 f)
    else if version ≠ qemuVmFileVersion then some (-enotsup, [])
    else loadLoop entries (f.length + 1) [] f

/-! ### Registration -/

/-- A call that changes the registry. -/
inductive RegistryOp where
  | registerSavevmLive (idstr : CString) (instanceId versionId : CInt)
      (saveLiveState : Option (ℕ → Bool × Stream)) (saveState : Option Stream)
      (loadState : CInt → Stream → ℕ) (opaqueId : ℕ)
  | registerSavevm (idstr : CString) (instanceId versionId : CInt) (saveState : Option Stream)
      (loadState : CInt → Stream → ℕ) (opaqueId : ℕ)
  | unregisterSavevm (idstr : CString) (opaqueId : ℕ)

def Registry.apply (r : Registry) : RegistryOp → Registry
  | .registerSavevmLive idstr instanceId versionId live save load op =>
    Migration.registerSavevmLive idstr instanceId versionId live save load op r
  | .registerSavevm idstr instanceId versionId save load op =>
    Migration.registerSavevm idstr instanceId versionId save load op r
  | .unregisterSavevm idstr op => Migration.unregisterSavevm idstr op r

def Registry.empty : Registry := ⟨[], 0⟩

def RegistryOp.requested : RegistryOp → Option (CString × CInt)
  | .registerSavevmLive idstr instanceId _ _ _ _ _ => some (pstrcpy 256 idstr, instanceId)
  | .registerSavevm idstr instanceId _ _ _ _ => some (pstrcpy 256 idstr, instanceId)
  | .unregisterSavevm _ _ => none

/-- An entry registered with instance -1 gets a pair that no entry has. -/
def Fresh (r : Registry) (op : RegistryOp) : Prop :=
  ∀ name, op.requested = some (name, -1) → ∀ se ∈ r.entries, se.idstr = name →
    ∀ new ∈ (r.apply op).entries.getLast?, se.instanceId ≠ new.instanceId

/-- The instances of a name leave room for another one when -1 is asked for. -/
def Room (r : Registry) (op : RegistryOp) : Prop :=
  ∀ name, op.requested = some (name, -1) → ∀ se ∈ r.entries, se.idstr = name →
    se.instanceId ≠ BitVec.intMax 32

end Ar7Qemu.Migration
