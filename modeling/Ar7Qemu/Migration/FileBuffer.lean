import Ar7Qemu.Migration.QemuFile
import Ar7Qemu.Lib.Run

/-! The buffer of `QEMUFile`. Bytes that are put are collected in a buffer and handed to the
backend when it is full or flushed; bytes that are got come from a buffer that the backend fills.
A call of `abort` fails, and so does a write past the end of the buffer. The closing of files is
left out. -/

namespace Ar7Qemu.Migration.FileBuffer

open Lib

def ioBufSize : ℕ := 32768

def eagain : ℤ := 11

/-- `QEMUFile`, with the state of its backend. -/
structure QEMUFile (β : Type) where
  /-- Takes the bytes of the buffer and their offset. -/
  putBuffer : Option (β → List UInt8 → ℤ → β × ℤ)
  /-- Takes an offset and the size of the buffer, and returns a length and the bytes. -/
  getBuffer : Option (β → ℤ → ℕ → β × ℤ × List UInt8)
  backend : β
  isWrite : Bool
  /-- The start of the buffer when writing, its end when reading. -/
  bufOffset : ℤ
  bufIndex : ℕ
  /-- 0 when writing. -/
  bufSize : ℕ
  buf : ℕ → UInt8
  hasError : Bool

def qemuFopenOps {β : Type} (backend : β) (putBuffer : Option (β → List UInt8 → ℤ → β × ℤ))
    (getBuffer : Option (β → ℤ → ℕ → β × ℤ × List UInt8)) : QEMUFile β :=
  ⟨putBuffer, getBuffer, backend, false, 0, 0, 0, fun _ => 0, false⟩

/-- `memcpy` of bytes to an index of a buffer. -/
def memcpy (buf : ℕ → UInt8) (start : ℕ) (bytes : List UInt8) : ℕ → UInt8 := fun i =>
  if start ≤ i then (bytes[i - start]?).getD (buf i) else buf i

def bytesOf (buf : ℕ → UInt8) (start len : ℕ) : List UInt8 := (List.range len).map fun i => buf (start + i)

namespace QEMUFile

variable {β : Type} (f : QEMUFile β)

def qemuFileSetError : QEMUFile β := { f with hasError := true }

def qemuFflush : QEMUFile β :=
  match f.putBuffer with
  | none => f
  | some putBuffer =>
    if f.isWrite ∧ 0 < f.bufIndex then
      let (backend, len) := putBuffer f.backend (bytesOf f.buf 0 f.bufIndex) f.bufOffset
      if 0 < len then { f with backend := backend, bufOffset := f.bufOffset + f.bufIndex, bufIndex := 0 }
      else { f with backend := backend, hasError := true, bufIndex := 0 }
    else f

def qemuFillBuffer : Option (QEMUFile β) :=
  match f.getBuffer with
  | none => some f
  | some getBuffer =>
    if f.isWrite then none
    else
      let (backend, len, bytes) := getBuffer f.backend f.bufOffset ioBufSize
      if 0 < len then
        some { f with
          backend := backend, buf := memcpy f.buf 0 bytes, bufIndex := 0, bufSize := len.toNat
          bufOffset := f.bufOffset + len }
      else if len ≠ -eagain then some { f with backend := backend, hasError := true }
      else some { f with backend := backend }

/-- Attempted to write to the buffer while the read buffer is not empty. -/
def readPending : Bool := !f.hasError && !f.isWrite && 0 < f.bufIndex

def copyIn (bytes : List UInt8) : Option (QEMUFile β) :=
  if f.bufIndex + bytes.length ≤ ioBufSize then
    some { f with
      buf := memcpy f.buf f.bufIndex bytes, isWrite := true, bufIndex := f.bufIndex + bytes.length }
  else none

/-- The loop of `qemu_put_buffer`. -/
def putLoop : ℕ → List UInt8 → QEMUFile β → Option (QEMUFile β)
  | 0, _, _ => none
  | fuel + 1, bytes, f =>
    if f.hasError = false ∧ 0 < bytes.length then
      let l := min (ioBufSize - f.bufIndex) bytes.length
      (f.copyIn (bytes.take l)).bind fun f =>
        putLoop fuel (bytes.drop l) (if ioBufSize ≤ f.bufIndex then f.qemuFflush else f)
    else some f

def qemuPutBuffer (bytes : List UInt8) : Option (QEMUFile β) :=
  if f.readPending then none else putLoop (bytes.length + 1) bytes f

def qemuPutByte (v : ℕ) : Option (QEMUFile β) :=
  if f.readPending then none
  else (f.copyIn [UInt8.ofNat v]).map fun f => if ioBufSize ≤ f.bufIndex then f.qemuFflush else f

def qemuPutBe16 (v : ℕ) : Option (QEMUFile β) := do
  let f ← f.qemuPutByte (v >>> 8)
  f.qemuPutByte v

def qemuPutBe32 (v : ℕ) : Option (QEMUFile β) := do
  let f ← f.qemuPutByte (v >>> 24)
  let f ← f.qemuPutByte (v >>> 16)
  let f ← f.qemuPutByte (v >>> 8)
  f.qemuPutByte v

def qemuPutBe64 (v : ℕ) : Option (QEMUFile β) := do
  let f ← f.qemuPutBe32 (v >>> 32)
  f.qemuPutBe32 v

def fillEmpty : Option (QEMUFile β) := if f.bufSize ≤ f.bufIndex then f.qemuFillBuffer else some f

/-- The loop of `qemu_get_buffer`, with the bytes that it copies. -/
def getLoop : ℕ → ℕ → QEMUFile β → Option (List UInt8 × QEMUFile β)
  | 0, _, _ => none
  | fuel + 1, size, f =>
    if 0 < size then do
      let f ← f.fillEmpty
      if f.bufSize ≤ f.bufIndex then pure ([], f)
      else
        let l := min (f.bufSize - f.bufIndex) size
        let (bytes, f') ← getLoop fuel (size - l) { f with bufIndex := f.bufIndex + l }
        pure (bytesOf f.buf f.bufIndex l ++ bytes, f')
    else some ([], f)

def qemuGetBuffer (size : ℕ) : Option (List UInt8 × QEMUFile β) :=
  if f.isWrite then none else getLoop (size + 1) size f

def qemuGetByte : Option (UInt8 × QEMUFile β) :=
  if f.isWrite then none
  else do
    let f ← f.fillEmpty
    if f.bufSize ≤ f.bufIndex then pure (0, f) else pure (f.buf f.bufIndex, { f with bufIndex := f.bufIndex + 1 })

/-- `qemu_get_be16`. The shifted bytes do not overlap, so their disjunction is a sum. -/
def qemuGetBe16 : Option (ℕ × QEMUFile β) := do
  let (a, f) ← f.qemuGetByte
  let (b, f) ← f.qemuGetByte
  pure (a.toNat <<< 8 + b.toNat, f)

def qemuGetBe32 : Option (ℕ × QEMUFile β) := do
  let (a, f) ← f.qemuGetByte
  let (b, f) ← f.qemuGetByte
  let (c, f) ← f.qemuGetByte
  let (d, f) ← f.qemuGetByte
  pure (a.toNat <<< 24 + b.toNat <<< 16 + c.toNat <<< 8 + d.toNat, f)

def qemuGetBe64 : Option (ℕ × QEMUFile β) := do
  let (a, f) ← f.qemuGetBe32
  let (b, f) ← f.qemuGetBe32
  pure (a <<< 32 + b, f)

def qemuFtell : ℤ := f.bufOffset - f.bufSize + f.bufIndex

end QEMUFile

/-! ### Sequences of calls -/

/-- What is put by one call, and got by the matching one. -/
inductive Item where
  | byte (v : ℕ)
  | buffer (bytes : List UInt8)
  | be16 (v : ℕ)
  | be32 (v : ℕ)
  | be64 (v : ℕ)

/-- A value that is got. -/
inductive Value where
  | number (v : ℕ)
  | bytes (bytes : List UInt8)
  deriving DecidableEq

namespace Item

def stream : Item → Stream
  | byte v => putByte v
  | buffer bytes => bytes
  | be16 v => putByte (v >>> 8) ++ putByte v
  | be32 v => putBe32 v
  | be64 v => putBe64 v

def value : Item → Value
  | byte v => .number (v % 2 ^ 8)
  | buffer bytes => .bytes bytes
  | be16 v => .number (v % 2 ^ 16)
  | be32 v => .number (v % 2 ^ 32)
  | be64 v => .number (v % 2 ^ 64)

variable {β : Type}

def put (f : QEMUFile β) : Item → Option (QEMUFile β)
  | byte v => f.qemuPutByte v
  | buffer bytes => f.qemuPutBuffer bytes
  | be16 v => f.qemuPutBe16 v
  | be32 v => f.qemuPutBe32 v
  | be64 v => f.qemuPutBe64 v

def get (f : QEMUFile β) : Item → Option (Value × QEMUFile β)
  | byte _ => f.qemuGetByte.map fun (b, f) => (.number b.toNat, f)
  | buffer bytes => (f.qemuGetBuffer bytes.length).map fun (bytes, f) => (.bytes bytes, f)
  | be16 _ => f.qemuGetBe16.map fun (v, f) => (.number v, f)
  | be32 _ => f.qemuGetBe32.map fun (v, f) => (.number v, f)
  | be64 _ => f.qemuGetBe64.map fun (v, f) => (.number v, f)

end Item

/-- A call on the write side. -/
inductive Write where
  | put (item : Item)
  | flush

def write {β : Type} (f : QEMUFile β) : Write → Option (QEMUFile β)
  | .put item => item.put f
  | .flush => some f.qemuFflush

/-- A call on the write side, or an error that is set from outside. -/
inductive Call where
  | write (w : Write)
  | setError

def call {β : Type} (f : QEMUFile β) : Call → Option (QEMUFile β)
  | .write w => write f w
  | .setError => some f.qemuFileSetError

def puts (ws : List Write) : List Item := ws.filterMap fun w =>
  match w with
  | .put item => some item
  | .flush => none

/-- The bytes of items. -/
def streams (items : List Item) : Stream := items.flatMap Item.stream

def getAll {β : Type} : List Item → QEMUFile β → Option (List Value × QEMUFile β)
  | [], f => some ([], f)
  | item :: items, f => do
    let (v, f) ← item.get f
    let (vs, f) ← getAll items f
    pure (v :: vs, f)

/-! ### Buffers -/

section Buffers

theorem bytesOf_length (buf : ℕ → UInt8) (start len : ℕ) : (bytesOf buf start len).length = len := by
  simp [bytesOf]

theorem bytesOf_add (buf : ℕ → UInt8) (start k l : ℕ) :
    bytesOf buf start (k + l) = bytesOf buf start k ++ bytesOf buf (start + k) l := by
  simp [bytesOf, List.range_add, List.map_append, Function.comp_def, Nat.add_assoc]

theorem bytesOf_memcpy (buf : ℕ → UInt8) (n : ℕ) (bytes : List UInt8) :
    bytesOf (memcpy buf n bytes) 0 (n + bytes.length) = bytesOf buf 0 n ++ bytes := by
  apply List.ext_getElem
  · simp [bytesOf]
  · intro i hi hi'
    rw [bytesOf_length] at hi
    by_cases hin : n ≤ i
    · rw [List.getElem_append_right (by rwa [bytesOf_length])]
      simp only [bytesOf, List.getElem_map, List.getElem_range, Nat.zero_add, memcpy, if_pos hin, List.length_map,
        List.length_range]
      rw [List.getElem?_eq_getElem (by omega), Option.getD_some]
    · rw [List.getElem_append_left (by rw [bytesOf_length]; omega)]
      simp only [bytesOf, List.getElem_map, List.getElem_range, Nat.zero_add, memcpy, if_neg hin]

end Buffers

/-! ### Writing -/

section Writing

variable {β : Type} {f f' : QEMUFile β}

/-- The part that all put calls share: bytes are added to the buffer, which is flushed when it is full. -/
def QEMUFile.advance (f : QEMUFile β) (bytes : List UInt8) : QEMUFile β :=
  let f := { f with
    buf := memcpy f.buf f.bufIndex bytes, isWrite := true, bufIndex := f.bufIndex + bytes.length }
  if ioBufSize ≤ f.bufIndex then f.qemuFflush else f

/-- A file that is written to, between two calls. -/
structure Ready (f : QEMUFile β) : Prop where
  putBuffer : f.putBuffer.isSome
  index : f.bufIndex < ioBufSize
  writing : 0 < f.bufIndex → f.isWrite = true

theorem Ready.not_readPending (h : Ready f) : f.readPending = false := by
  rw [QEMUFile.readPending]
  by_cases hpos : 0 < f.bufIndex
  · simp [h.writing hpos]
  · simp [hpos]

theorem Ready.qemuPutByte (h : Ready f) (v : ℕ) : f.qemuPutByte v = some (f.advance [UInt8.ofNat v]) := by
  have hroom : f.bufIndex + [UInt8.ofNat v].length ≤ ioBufSize := h.index
  rw [QEMUFile.qemuPutByte, h.not_readPending, QEMUFile.copyIn, if_pos hroom]
  rfl

theorem Ready.putLoop (h : Ready f) {bytes : List UInt8} (hok : f.hasError = false) (hbytes : 0 < bytes.length)
    (fuel : ℕ) : ∃ k, 0 < k ∧ k ≤ bytes.length ∧ f.bufIndex + (bytes.take k).length ≤ ioBufSize ∧
      QEMUFile.putLoop (fuel + 1) bytes f = QEMUFile.putLoop fuel (bytes.drop k) (f.advance (bytes.take k)) := by
  have hindex := h.index
  have hroom : f.bufIndex + (bytes.take (min (ioBufSize - f.bufIndex) bytes.length)).length ≤ ioBufSize := by
    rw [List.length_take]
    omega
  refine ⟨min (ioBufSize - f.bufIndex) bytes.length, by omega, by omega, hroom, ?_⟩
  rw [QEMUFile.putLoop, if_pos ⟨hok, hbytes⟩]
  dsimp only
  rw [QEMUFile.copyIn, if_pos hroom]
  rfl

theorem Ready.flush (h : Ready f) : Ready f.qemuFflush := by
  obtain ⟨putBuffer, hput⟩ := Option.isSome_iff_exists.1 h.putBuffer
  rw [QEMUFile.qemuFflush, hput]
  dsimp only
  split
  · split
    · exact ⟨rfl, Nat.two_pow_pos 15, fun hpos => absurd hpos (Nat.lt_irrefl 0)⟩
    · exact ⟨rfl, Nat.two_pow_pos 15, fun hpos => absurd hpos (Nat.lt_irrefl 0)⟩
  · exact h

theorem qemuFflush_index (hput : f.putBuffer.isSome) (hwrite : f.isWrite = true) : f.qemuFflush.bufIndex = 0 := by
  obtain ⟨putBuffer, hput⟩ := Option.isSome_iff_exists.1 hput
  rw [QEMUFile.qemuFflush, hput]
  dsimp only
  by_cases hpos : 0 < f.bufIndex
  · rw [if_pos ⟨hwrite, hpos⟩]
    split <;> rfl
  · rw [if_neg fun h => hpos h.2]
    omega

theorem qemuFflush_putBuffer (f : QEMUFile β) : f.qemuFflush.putBuffer = f.putBuffer := by
  cases hput : f.putBuffer with
  | none => simp [QEMUFile.qemuFflush, hput]
  | some putBuffer =>
    rw [QEMUFile.qemuFflush, hput]
    dsimp only
    split
    · split <;> rfl
    · exact hput

theorem Ready.advance (h : Ready f) (bytes : List UInt8) : Ready (f.advance bytes) := by
  rw [QEMUFile.advance]
  dsimp only
  split
  · have hindex : (QEMUFile.qemuFflush { f with
        buf := memcpy f.buf f.bufIndex bytes, isWrite := true, bufIndex := f.bufIndex + bytes.length }).bufIndex = 0 :=
      qemuFflush_index h.putBuffer rfl
    refine ⟨?_, by rw [hindex]; decide, fun hpos => absurd hindex hpos.ne'⟩
    rw [qemuFflush_putBuffer]
    exact h.putBuffer
  · rename_i hfull
    exact ⟨h.putBuffer, Nat.lt_of_not_le hfull, fun _ => rfl⟩

/-! What every step keeps, with the bytes that have been put. -/

variable {P : List UInt8 → QEMUFile β → Prop} (hready : ∀ {out f}, P out f → Ready f)
  (hadvance : ∀ {out f bytes}, P out f → f.bufIndex + bytes.length ≤ ioBufSize → P (out ++ bytes) (f.advance bytes))

include hready hadvance

theorem putLoop_keeps : ∀ {fuel : ℕ} {bytes : List UInt8} {out : List UInt8} {f : QEMUFile β}, P out f →
    bytes.length < fuel → ∃ f' done, QEMUFile.putLoop fuel bytes f = some f' ∧ P (out ++ done) f' ∧
      (f'.hasError = false → done = bytes)
  | fuel + 1, bytes, out, f, h, hfuel => by
    by_cases hgo : f.hasError = false ∧ 0 < bytes.length
    · obtain ⟨k, hpos, hle, hroom, hstep⟩ := (hready h).putLoop hgo.1 hgo.2 fuel
      obtain ⟨f', done, hloop, hkeep, hall⟩ := putLoop_keeps (hadvance h hroom)
        (show (bytes.drop k).length < fuel by rw [List.length_drop]; omega)
      refine ⟨f', bytes.take k ++ done, hstep.trans hloop, by rwa [← List.append_assoc], fun hok => ?_⟩
      rw [hall hok, List.take_append_drop]
    · rw [QEMUFile.putLoop, if_neg hgo]
      refine ⟨f, [], rfl, by rwa [List.append_nil], fun hok => ?_⟩
      exact (List.length_eq_zero_iff.1 (by_contra fun hne => hgo ⟨hok, Nat.pos_of_ne_zero hne⟩)).symm

theorem putByte_keeps {out : List UInt8} (h : P out f) (v : ℕ) :
    ∃ f', f.qemuPutByte v = some f' ∧ P (out ++ putByte v) f' :=
  ⟨_, (hready h).qemuPutByte v, hadvance h (hready h).index⟩

theorem putBe32_keeps {out : List UInt8} (h : P out f) (v : ℕ) :
    ∃ f', f.qemuPutBe32 v = some f' ∧ P (out ++ putBe32 v) f' := by
  obtain ⟨f₁, h₁, hkeep₁⟩ := putByte_keeps (P := P) hready hadvance h (v >>> 24)
  obtain ⟨f₂, h₂, hkeep₂⟩ := putByte_keeps (P := P) hready hadvance hkeep₁ (v >>> 16)
  obtain ⟨f₃, h₃, hkeep₃⟩ := putByte_keeps (P := P) hready hadvance hkeep₂ (v >>> 8)
  obtain ⟨f₄, h₄, hkeep₄⟩ := putByte_keeps (P := P) hready hadvance hkeep₃ v
  refine ⟨f₄, ?_, by simpa only [putBe32, List.append_assoc] using hkeep₄⟩
  rw [QEMUFile.qemuPutBe32, h₁]
  simp only [Option.bind_eq_bind, Option.bind_some, h₂, h₃, h₄]

/-- Every put call ends. -/
theorem put_keeps (out : List UInt8) (h : P out f) (item : Item) :
    ∃ f' done, item.put f = some f' ∧ P (out ++ done) f' ∧ (f'.hasError = false → done = item.stream) := by
  cases item with
  | byte v =>
    obtain ⟨f', hput, hkeep⟩ := putByte_keeps (P := P) hready hadvance h v
    exact ⟨f', _, hput, hkeep, fun _ => rfl⟩
  | buffer bytes =>
    obtain ⟨f', done, hloop, hkeep⟩ := putLoop_keeps (P := P) hready hadvance h (Nat.lt_succ_self bytes.length)
    refine ⟨f', done, ?_, hkeep⟩
    rw [Item.put, QEMUFile.qemuPutBuffer, (hready h).not_readPending]
    exact hloop
  | be16 v =>
    obtain ⟨f₁, h₁, hkeep₁⟩ := putByte_keeps (P := P) hready hadvance h (v >>> 8)
    obtain ⟨f₂, h₂, hkeep₂⟩ := putByte_keeps (P := P) hready hadvance hkeep₁ v
    refine ⟨f₂, _, ?_, by rwa [List.append_assoc] at hkeep₂, fun _ => rfl⟩
    rw [Item.put, QEMUFile.qemuPutBe16, h₁]
    exact h₂
  | be32 v =>
    obtain ⟨f', hput, hkeep⟩ := putBe32_keeps (P := P) hready hadvance h v
    exact ⟨f', _, hput, hkeep, fun _ => rfl⟩
  | be64 v =>
    obtain ⟨f₁, h₁, hkeep₁⟩ := putBe32_keeps (P := P) hready hadvance h (v >>> 32)
    obtain ⟨f₂, h₂, hkeep₂⟩ := putBe32_keeps (P := P) hready hadvance hkeep₁ v
    refine ⟨f₂, _, ?_, by rwa [List.append_assoc] at hkeep₂, fun _ => rfl⟩
    rw [Item.put, QEMUFile.qemuPutBe64, h₁]
    exact h₂

end Writing

/-! ### A backend that accepts all bytes -/

section Accept

/-- The contents of a backend. -/
abbrev Store := ℤ → Option UInt8

/-- Bytes from offset 0 on, and nothing else. -/
def contents (bytes : List UInt8) : Store := fun i => if 0 ≤ i then bytes[i.toNat]? else none

/-- The bytes are stored at their offset. -/
def acceptAll (store : Store) (bytes : List UInt8) (pos : ℤ) : Store × ℤ :=
  (fun i => if pos ≤ i ∧ i < pos + bytes.length then bytes[(i - pos).toNat]? else store i, bytes.length)

theorem acceptAll_contents (done bytes : List UInt8) :
    (acceptAll (contents done) bytes done.length).1 = contents (done ++ bytes) := by
  funext i
  simp only [acceptAll, contents]
  split
  · rename_i hin
    rw [if_pos (by omega), List.getElem?_append_right (by omega), show (i - done.length).toNat = i.toNat - done.length by omega]
  · rename_i hout
    split
    · by_cases hlt : i.toNat < done.length
      · rw [List.getElem?_append_left hlt]
      · rw [List.getElem?_eq_none (by omega), List.getElem?_eq_none (by rw [List.length_append]; omega)]
    · rfl

variable {f : QEMUFile Store} {out : List UInt8}

/-- The backend holds what has been put, up to what is in the buffer. -/
structure Holds (out : List UInt8) (f : QEMUFile Store) : Prop where
  putBuffer : f.putBuffer = some acceptAll
  hasError : f.hasError = false
  index : f.bufIndex < ioBufSize
  writing : 0 < f.bufIndex → f.isWrite = true
  backend : ∃ done : List UInt8, f.bufOffset = done.length ∧ f.backend = contents done ∧
    out = done ++ bytesOf f.buf 0 f.bufIndex

theorem Holds.ready (h : Holds out f) : Ready f := ⟨by rw [h.putBuffer]; rfl, h.index, h.writing⟩

/-- A full buffer, or one that is flushed, gets to the backend. -/
theorem Holds.flush {f : QEMUFile Store} (hput : f.putBuffer = some acceptAll) (herror : f.hasError = false)
    (hwriting : 0 < f.bufIndex → f.isWrite = true) (hbackend : ∃ done : List UInt8, f.bufOffset = done.length ∧
      f.backend = contents done ∧ out = done ++ bytesOf f.buf 0 f.bufIndex) :
    Holds out f.qemuFflush ∧ f.qemuFflush.backend = contents out := by
  obtain ⟨done, hoffset, hstore, rfl⟩ := hbackend
  by_cases hpos : 0 < f.bufIndex
  · have hflush : f.qemuFflush = { f with
        backend := contents (done ++ bytesOf f.buf 0 f.bufIndex), bufOffset := f.bufOffset + f.bufIndex, bufIndex := 0 } := by
      rw [QEMUFile.qemuFflush, hput]
      dsimp only
      rw [if_pos ⟨hwriting hpos, hpos⟩, hstore, hoffset, acceptAll_contents]
      have hlen : (acceptAll (contents done) (bytesOf f.buf 0 f.bufIndex) done.length).2 = f.bufIndex := by
        rw [acceptAll, bytesOf_length]
      rw [hlen, if_pos (by omega)]
    rw [hflush]
    refine ⟨⟨hput, herror, Nat.two_pow_pos 15, fun h => absurd h (Nat.lt_irrefl 0), _, ?_, rfl, ?_⟩, rfl⟩
    · dsimp only
      rw [hoffset, List.length_append, bytesOf_length, Int.natCast_add]
    · simp [bytesOf]
  · have hzero : f.bufIndex = 0 := by omega
    have hflush : f.qemuFflush = f := by
      rw [QEMUFile.qemuFflush, hput]
      exact if_neg fun h => hpos h.2
    rw [hflush, hstore]
    refine ⟨⟨hput, herror, by rw [hzero]; decide, hwriting, done, hoffset, hstore, rfl⟩, ?_⟩
    rw [hzero, bytesOf, List.range_zero, List.map_nil, List.append_nil]

theorem Holds.advance {bytes : List UInt8} (h : Holds out f) (_ : f.bufIndex + bytes.length ≤ ioBufSize) :
    Holds (out ++ bytes) (f.advance bytes) := by
  obtain ⟨done, hoffset, hstore, rfl⟩ := h.backend
  have hbackend : done ++ bytesOf f.buf 0 f.bufIndex ++ bytes =
      done ++ bytesOf (memcpy f.buf f.bufIndex bytes) 0 (f.bufIndex + bytes.length) := by
    rw [bytesOf_memcpy, List.append_assoc]
  rw [QEMUFile.advance]
  dsimp only
  split
  · refine (Holds.flush ?_ ?_ (fun _ => rfl) ⟨done, ?_, ?_, hbackend⟩).1
    · exact h.putBuffer
    · exact h.hasError
    · exact hoffset
    · exact hstore
  · rename_i hfull
    exact ⟨h.putBuffer, h.hasError, Nat.lt_of_not_le hfull, fun _ => rfl, done, hoffset, hstore, hbackend⟩

theorem Holds.write (h : Holds out f) (w : Write) :
    ∃ f', write f w = some f' ∧ Holds (out ++ streams (puts [w])) f' := by
  cases w with
  | put item =>
    obtain ⟨f', done, hput, hholds, hall⟩ := put_keeps (P := Holds) Holds.ready Holds.advance out h item
    refine ⟨f', hput, ?_⟩
    rw [hall hholds.hasError] at hholds
    simpa [puts, streams] using hholds
  | flush => exact ⟨_, rfl, by simpa [puts, streams] using (Holds.flush h.putBuffer h.hasError h.writing h.backend).1⟩

theorem Holds.writes : ∀ (ws : List Write) {out : List UInt8} {f : QEMUFile Store}, Holds out f →
    ∃ f', ws.foldlM FileBuffer.write f = some f' ∧ Holds (out ++ streams (puts ws)) f'
  | [], out, f, h => ⟨f, rfl, by simpa [puts, streams] using h⟩
  | w :: ws, out, f, h => by
    obtain ⟨f₁, h₁, hholds₁⟩ := h.write w
    obtain ⟨f₂, h₂, hholds₂⟩ := hholds₁.writes ws
    have hputs : streams (puts (w :: ws)) = streams (puts [w]) ++ streams (puts ws) := by
      cases w <;> simp [puts, streams]
    refine ⟨f₂, ?_, by rwa [hputs, ← List.append_assoc]⟩
    rw [List.foldlM_cons, h₁]
    exact h₂

end Accept

/-! ### Any backend -/

section Error

variable {β : Type} {f : QEMUFile β}

theorem Ready.call (h : Ready f) (c : Call) : ∃ f', call f c = some f' ∧ Ready f' := by
  cases c with
  | setError => exact ⟨_, rfl, h.putBuffer, h.index, h.writing⟩
  | write w =>
    cases w with
    | flush => exact ⟨_, rfl, h.flush⟩
    | put item =>
      obtain ⟨f', -, hput, hready, -⟩ := put_keeps (P := fun _ f => Ready f) id
        (fun hready _ => hready.advance _) [] h item
      exact ⟨f', hput, hready⟩

theorem Ready.calls : ∀ (cs : List Call) {f : QEMUFile β}, Ready f → ∃ f', cs.foldlM FileBuffer.call f = some f' ∧ Ready f'
  | [], f, h => ⟨f, rfl, h⟩
  | c :: cs, f, h => by
    obtain ⟨f₁, h₁, hready₁⟩ := h.call c
    obtain ⟨f₂, h₂, hready₂⟩ := hready₁.calls cs
    refine ⟨f₂, ?_, hready₂⟩
    rw [List.foldlM_cons, h₁]
    exact h₂

end Error

/-! ### Reading -/

section Reading

/-- A backend that returns the bytes at an offset, in chunks whose sizes are given call by call. -/
def chunks (content : List UInt8) (sizes : ℕ → ℕ) (calls : ℕ) (pos : ℤ) (size : ℕ) : ℕ × ℤ × List UInt8 :=
  let bytes := (content.drop pos.toNat).take (min (sizes calls + 1) size)
  (calls + 1, bytes.length, bytes)

variable {content : List UInt8} {sizes : ℕ → ℕ} {f : QEMUFile ℕ} {m : ℕ}

/-- `m` bytes have been got, and the buffer has those that follow. -/
structure Reading (content : List UInt8) (sizes : ℕ → ℕ) (m : ℕ) (f : QEMUFile ℕ) : Prop where
  getBuffer : f.getBuffer = some (chunks content sizes)
  isWrite : f.isWrite = false
  index : f.bufIndex ≤ f.bufSize
  offset : f.bufOffset = m + (f.bufSize - f.bufIndex : ℕ)
  bytes : bytesOf f.buf f.bufIndex (f.bufSize - f.bufIndex) = (content.drop m).take (f.bufSize - f.bufIndex)

theorem Reading.ftell (h : Reading content sizes m f) : f.qemuFtell = m := by
  have hindex := h.index
  rw [QEMUFile.qemuFtell, h.offset]
  omega

theorem reading_init (content : List UInt8) (sizes : ℕ → ℕ) :
    Reading content sizes 0 (qemuFopenOps 0 none (some (chunks content sizes))) :=
  ⟨rfl, rfl, le_rfl, rfl, rfl⟩

theorem Reading.le (h : Reading content sizes m f) : f.bufSize - f.bufIndex ≤ content.length - m := by
  have hlen := congrArg List.length h.bytes
  rw [bytesOf_length, List.length_take, List.length_drop] at hlen
  omega

theorem Reading.fillEmpty (h : Reading content sizes m f) (hm : m < content.length) :
    ∃ f', f.fillEmpty = some f' ∧ Reading content sizes m f' ∧ f'.bufIndex < f'.bufSize := by
  rw [QEMUFile.fillEmpty]
  by_cases hempty : f.bufSize ≤ f.bufIndex
  case neg =>
    rw [if_neg hempty]
    exact ⟨f, rfl, h, Nat.lt_of_not_le hempty⟩
  rw [if_pos hempty]
  have hoffset : f.bufOffset = m := by rw [h.offset, Nat.sub_eq_zero_of_le hempty]; rfl
  set bytes := (content.drop m).take (min (sizes f.backend + 1) ioBufSize) with hbytes
  have hpos : 0 < bytes.length := by
    rw [hbytes, List.length_take, List.length_drop, ioBufSize]
    omega
  have hfill : f.qemuFillBuffer = some { f with
      backend := f.backend + 1, buf := memcpy f.buf 0 bytes, bufIndex := 0, bufSize := bytes.length
      bufOffset := m + bytes.length } := by
    rw [QEMUFile.qemuFillBuffer, h.getBuffer]
    dsimp only
    rw [h.isWrite, hoffset]
    simp only [chunks, Int.toNat_natCast, ← hbytes, Bool.false_eq_true, if_false]
    rw [if_pos (by omega)]
  refine ⟨_, hfill, ⟨h.getBuffer, h.isWrite, Nat.zero_le _, rfl, ?_⟩, hpos⟩
  have hcopy := bytesOf_memcpy f.buf 0 bytes
  rw [Nat.zero_add] at hcopy
  dsimp only
  rw [Nat.sub_zero, hcopy, bytesOf, List.range_zero, List.map_nil, List.nil_append, hbytes, List.length_take,
    List.take_eq_take_iff]
  omega

/-- Bytes of the buffer are got. -/
theorem Reading.take (h : Reading content sizes m f) {l : ℕ} (hl : l ≤ f.bufSize - f.bufIndex) :
    bytesOf f.buf f.bufIndex l = (content.drop m).take l ∧
      Reading content sizes (m + l) { f with bufIndex := f.bufIndex + l } := by
  have hindex := h.index
  have hsplit := h.bytes
  rw [← Nat.add_sub_cancel' hl, bytesOf_add, List.take_add, List.drop_drop] at hsplit
  have hlen : (bytesOf f.buf f.bufIndex l).length = ((content.drop m).take l).length := by
    have hle := h.le
    rw [bytesOf_length, List.length_take, List.length_drop]
    omega
  obtain ⟨htaken, hrest⟩ := List.append_inj hsplit hlen
  refine ⟨htaken, h.getBuffer, h.isWrite, ?_, ?_, ?_⟩
  · dsimp only
    omega
  · dsimp only
    rw [h.offset]
    omega
  · dsimp only
    rwa [← Nat.sub_sub]

/-- The loop of `qemu_get_buffer` gets the bytes that follow. -/
theorem Reading.getLoop : ∀ {fuel size m : ℕ} {f : QEMUFile ℕ}, Reading content sizes m f → size < fuel →
    size ≤ content.length - m → ∃ f', QEMUFile.getLoop fuel size f = some ((content.drop m).take size, f') ∧
      Reading content sizes (m + size) f'
  | fuel + 1, 0, m, f, h, _, _ => ⟨f, rfl, h⟩
  | fuel + 1, size + 1, m, f, h, hfuel, hsize => by
    obtain ⟨f₁, hfill, h₁, hpos⟩ := h.fillEmpty (show m < content.length by omega)
    obtain ⟨htaken, h₂⟩ := h₁.take (Nat.min_le_left (f₁.bufSize - f₁.bufIndex) (size + 1))
    have hless : size + 1 - min (f₁.bufSize - f₁.bufIndex) (size + 1) < fuel := by omega
    obtain ⟨f', hloop, h'⟩ := h₂.getLoop hless (by omega)
    refine ⟨f', ?_, ?_⟩
    · rw [QEMUFile.getLoop, if_pos (Nat.succ_pos size), hfill]
      simp only [Option.bind_eq_bind, Option.bind_some]
      rw [if_neg (by omega), hloop, htaken]
      simp only [Option.bind_some, Option.pure_def]
      rw [← List.drop_drop, ← List.take_add, Nat.add_sub_cancel' (Nat.min_le_right _ _)]
    · rwa [Nat.add_assoc, Nat.add_sub_cancel' (Nat.min_le_right _ _)] at h'

theorem Reading.getBuffer_spec (h : Reading content sizes m f) {bytes s : Stream} (hs : content.drop m = bytes ++ s) :
    ∃ f', f.qemuGetBuffer bytes.length = some (bytes, f') ∧ Reading content sizes (m + bytes.length) f' := by
  have hlen := congrArg List.length hs
  rw [List.length_drop, List.length_append] at hlen
  obtain ⟨f', hloop, h'⟩ := h.getLoop (Nat.lt_succ_self bytes.length) (by omega)
  refine ⟨f', ?_, h'⟩
  rw [QEMUFile.qemuGetBuffer, h.isWrite, if_neg Bool.false_ne_true, hloop, hs, List.take_left]

theorem Reading.getByte (h : Reading content sizes m f) {b : UInt8} {s : Stream} (hs : content.drop m = b :: s) :
    ∃ f', f.qemuGetByte = some (b, f') ∧ Reading content sizes (m + 1) f' ∧ content.drop (m + 1) = s := by
  have hm : m < content.length := by
    by_contra hle
    rw [List.drop_eq_nil_of_le (Nat.le_of_not_lt hle)] at hs
    cases hs
  obtain ⟨f₁, hfill, h₁, hpos⟩ := h.fillEmpty hm
  obtain ⟨htaken, h₂⟩ := h₁.take (show 1 ≤ f₁.bufSize - f₁.bufIndex by omega)
  have hbyte : f₁.buf f₁.bufIndex = b := by
    rw [hs] at htaken
    simpa [bytesOf] using htaken
  refine ⟨_, ?_, h₂, ?_⟩
  · rw [QEMUFile.qemuGetByte, h.isWrite, if_neg Bool.false_ne_true, hfill]
    simp only [Option.bind_eq_bind, Option.bind_some]
    rw [if_neg (by omega), hbyte]
    rfl
  · rw [← List.drop_drop, hs]
    rfl

theorem Reading.getBe32 (h : Reading content sizes m f) {v : ℕ} {s : Stream} (hs : content.drop m = putBe32 v ++ s) :
    ∃ f', f.qemuGetBe32 = some (v % 2 ^ 32, f') ∧ Reading content sizes (m + 4) f' ∧ content.drop (m + 4) = s := by
  obtain ⟨f₁, h₁, hr₁, hs₁⟩ := h.getByte hs
  obtain ⟨f₂, h₂, hr₂, hs₂⟩ := hr₁.getByte hs₁
  obtain ⟨f₃, h₃, hr₃, hs₃⟩ := hr₂.getByte hs₂
  obtain ⟨f₄, h₄, hr₄, hs₄⟩ := hr₃.getByte hs₃
  refine ⟨f₄, ?_, hr₄, hs₄⟩
  have hvalue : (UInt8.ofNat (v >>> 24)).toNat <<< 24 + (UInt8.ofNat (v >>> 16)).toNat <<< 16 +
      (UInt8.ofNat (v >>> 8)).toNat <<< 8 + (UInt8.ofNat v).toNat = v % 2 ^ 32 :=
    congrArg Prod.fst (getBe32_putBe32 v [])
  rw [QEMUFile.qemuGetBe32, h₁]
  simp only [Option.bind_eq_bind, Option.bind_some, h₂, h₃, h₄, hvalue, Option.pure_def]

theorem Reading.get (h : Reading content sizes m f) (item : Item) {s : Stream} (hs : content.drop m = item.stream ++ s) :
    ∃ f', item.get f = some (item.value, f') ∧ Reading content sizes (m + item.stream.length) f' ∧
      content.drop (m + item.stream.length) = s := by
  have hdrop : content.drop (m + item.stream.length) = s := by rw [← List.drop_drop, hs, List.drop_left]
  cases item with
  | byte v =>
    obtain ⟨f', hget, h', -⟩ := h.getByte hs
    refine ⟨f', ?_, h', hdrop⟩
    rw [Item.get, hget, Item.value, ← UInt8.toNat_ofNat']
    rfl
  | buffer bytes =>
    have hs : content.drop m = bytes ++ s := hs
    obtain ⟨f', hget, h'⟩ := h.getBuffer_spec hs
    refine ⟨f', ?_, h', hdrop⟩
    rw [Item.get, Item.value, hget]
    rfl
  | be16 v =>
    obtain ⟨f₁, h₁, hr₁, hs₁⟩ := h.getByte hs
    obtain ⟨f₂, h₂, hr₂, -⟩ := hr₁.getByte hs₁
    refine ⟨f₂, ?_, hr₂, hdrop⟩
    have hvalue : (UInt8.ofNat (v >>> 8)).toNat <<< 8 + (UInt8.ofNat v).toNat = v % 2 ^ 16 := by
      rw [UInt8.toNat_ofNat', UInt8.toNat_ofNat', Nat.shiftLeft_eq, Nat.shiftRight_eq_div_pow]
      omega
    rw [Item.get, QEMUFile.qemuGetBe16, h₁]
    simp only [Option.bind_eq_bind, Option.bind_some, h₂, Option.pure_def, Option.map_some, hvalue, Item.value]
  | be32 v =>
    obtain ⟨f', hget, h', -⟩ := h.getBe32 hs
    refine ⟨f', ?_, h', hdrop⟩
    rw [Item.get, hget]
    rfl
  | be64 v =>
    obtain ⟨f₁, h₁, hr₁, hs₁⟩ := h.getBe32 (v := v >>> 32) (s := putBe32 v ++ s) (by
      rw [hs, Item.stream, putBe64, List.append_assoc])
    obtain ⟨f₂, h₂, hr₂, -⟩ := hr₁.getBe32 hs₁
    refine ⟨f₂, ?_, hr₂, hdrop⟩
    have hvalue : (v >>> 32 % 2 ^ 32) <<< 32 + v % 2 ^ 32 = v % 2 ^ 64 := by
      rw [Nat.shiftLeft_eq, Nat.shiftRight_eq_div_pow]
      omega
    rw [Item.get, QEMUFile.qemuGetBe64, h₁]
    simp only [Option.bind_eq_bind, Option.bind_some, h₂, Option.pure_def, Option.map_some, hvalue, Item.value]

theorem Reading.getAll : ∀ {items : List Item} {m : ℕ} {f : QEMUFile ℕ} {s : Stream}, Reading content sizes m f →
    content.drop m = streams items ++ s → ∃ f', FileBuffer.getAll items f = some (items.map Item.value, f') ∧
      Reading content sizes (m + (streams items).length) f'
  | [], m, f, s, h, _ => ⟨f, rfl, h⟩
  | item :: items, m, f, s, h, hs => by
    rw [streams, List.flatMap_cons, List.append_assoc] at hs
    obtain ⟨f₁, h₁, hr₁, hs₁⟩ := h.get item hs
    obtain ⟨f₂, h₂, hr₂⟩ := hr₁.getAll hs₁
    refine ⟨f₂, ?_, by rwa [streams, List.flatMap_cons, List.length_append, ← Nat.add_assoc]⟩
    rw [FileBuffer.getAll, h₁]
    simp only [Option.bind_eq_bind, Option.bind_some, h₂]
    rfl

end Reading

/-- The round trip of a `QEMUFile`. With any flushes in between, a backend that accepts all bytes
holds what has been put, once the file is flushed; whatever chunks a backend with these bytes
returns, the same items are got, and `qemu_ftell` is the number of bytes consumed; and with any
backend, whatever the errors, put calls stay within the buffer. -/
theorem qemuFile_round_trip (ws : List Write) (sizes : ℕ → ℕ) (n : ℕ) {β : Type} (backend : β)
    (putBuffer : β → List UInt8 → ℤ → β × ℤ) (cs : List Call) :
    (∃ f, ws.foldlM write (qemuFopenOps (contents []) (some acceptAll) none) = some f ∧
      f.qemuFflush.backend = contents (streams (puts ws))) ∧
    (∃ f, getAll ((puts ws).take n) (qemuFopenOps 0 none (some (chunks (streams (puts ws)) sizes))) =
        some (((puts ws).take n).map Item.value, f) ∧
      f.qemuFtell = (streams ((puts ws).take n)).length) ∧
    (∃ f, cs.foldlM call (qemuFopenOps backend (some putBuffer) none) = some f ∧ f.bufIndex < ioBufSize) := by
  refine ⟨?_, ?_, ?_⟩
  · have hopen : Holds [] (qemuFopenOps (contents []) (some acceptAll) none) :=
      ⟨rfl, rfl, Nat.two_pow_pos 15, fun h => absurd h (Nat.lt_irrefl 0), [], rfl, rfl, rfl⟩
    obtain ⟨f, hrun, h⟩ := hopen.writes ws
    exact ⟨f, hrun, (Holds.flush h.putBuffer h.hasError h.writing h.backend).2⟩
  · have hsplit : (streams (puts ws)).drop 0 = streams ((puts ws).take n) ++ streams ((puts ws).drop n) := by
      rw [streams, streams, streams, ← List.flatMap_append, List.take_append_drop]
      rfl
    obtain ⟨f, hrun, h⟩ := (reading_init (streams (puts ws)) sizes).getAll hsplit
    exact ⟨f, hrun, by rw [h.ftell, Nat.zero_add]⟩
  · have hopen : Ready (qemuFopenOps backend (some putBuffer) none) :=
      ⟨rfl, Nat.two_pow_pos 15, fun h => absurd h (Nat.lt_irrefl 0)⟩
    obtain ⟨f, hrun, h⟩ := hopen.calls cs
    exact ⟨f, hrun, h.index⟩

end Ar7Qemu.Migration.FileBuffer
