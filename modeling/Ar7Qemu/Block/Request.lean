import Ar7Qemu.Lib.ByteStore

/-! The generic request layer of `block.c` on a host with 64-bit pointers: the bounds check of a
request and the sector reads and writes behind it. `int64_t`, `int` and `size_t` are bit vectors, so
products and sums wrap as they do there. The driver below answers each request from a schedule, and
a request that fails may have moved any part of its bytes. -/

namespace Ar7Qemu.Block.Request

open Lib

def eio : ℤ := 5
def eacces : ℤ := 13
def enomedium : ℤ := 123

/-- What the driver does with one request. -/
inductive Outcome where
  | ok
  | fail (code : ℕ) (moved : ℕ → Bool)

/-- The functions of a driver that the request layer asks; `none` for one that it does not have. -/
structure BlockDriver where
  isInserted : Option Bool
  getlength : Option (BitVec 64)

structure BlockDriverState where
  drv : Option BlockDriver
  readOnly : Bool
  growable : Bool
  totalSectors : BitVec 64
  content : Bytes
  io : ℕ → Outcome
  tick : ℕ

def bdrvIsInserted (bs : BlockDriverState) : Bool :=
  match bs.drv with
  | none => false
  | some drv => drv.isInserted.getD true

def bdrvGetlength (bs : BlockDriverState) : BitVec 64 :=
  match bs.drv with
  | none => BitVec.ofInt 64 (-enomedium)
  | some drv => drv.getlength.getD (bs.totalSectors * 512#64)

/-- `bdrv_check_byte_request`. The sum and the comparison are unsigned, as `size` is. -/
def bdrvCheckByteRequest (bs : BlockDriverState) (offset size : BitVec 64) : ℤ :=
  if bdrvIsInserted bs = false then -enomedium
  else if bs.growable then 0
  else if bdrvGetlength bs < offset + size then -eio
  else 0

def bdrvCheckRequest (bs : BlockDriverState) (sectorNum : BitVec 64) (nbSectors : BitVec 32) : ℤ :=
  bdrvCheckByteRequest bs (sectorNum * 512#64) ((nbSectors * 512#32).signExtend 64)

/-- The bytes that a request of `n` bytes moves. -/
def Outcome.moves (n : ℕ) : Outcome → ℕ → Bool
  | .ok, i => i < n
  | .fail _ moved, i => i < n && moved i

def Outcome.ret : Outcome → ℤ
  | .ok => 0
  | .fail code _ => Int.negSucc code

/-- `bdrv_read`: the value returned and the buffer. -/
def bdrvRead (bs : BlockDriverState) (sectorNum : BitVec 64) (buf : Bytes) (nbSectors : BitVec 32) :
    (ℤ × Bytes) × BlockDriverState :=
  if bs.drv.isNone then ((-enomedium, buf), bs)
  else if bdrvCheckRequest bs sectorNum nbSectors ≠ 0 then ((-eio, buf), bs)
  else
    let o := bs.io bs.tick
    let moves := o.moves (512 * nbSectors.toNat)
    ((o.ret, fun i => if moves i then bs.content (512 * sectorNum.toNat + i) else buf i), { bs with tick := bs.tick + 1 })

def bdrvWrite (bs : BlockDriverState) (sectorNum : BitVec 64) (buf : Bytes) (nbSectors : BitVec 32) :
    ℤ × BlockDriverState :=
  if bs.drv.isNone then (-enomedium, bs)
  else if bs.readOnly then (-eacces, bs)
  else if bdrvCheckRequest bs sectorNum nbSectors ≠ 0 then (-eio, bs)
  else
    let o := bs.io bs.tick
    let moves := o.moves (512 * nbSectors.toNat)
    let start := 512 * sectorNum.toNat
    (o.ret, { bs with
      content := fun k => if start ≤ k ∧ moves (k - start) then buf (k - start) else bs.content k
      tick := bs.tick + 1 })

/-! ### What the check accepts -/

section Check

variable (bs : BlockDriverState) (sectorNum : BitVec 64) (nbSectors : BitVec 32)

/-- The sectors of the request lie in the device. -/
def Fits : Prop :=
  0 ≤ sectorNum.toInt ∧ 0 ≤ nbSectors.toInt ∧
    512 * (sectorNum.toInt + nbSectors.toInt) ≤ (bdrvGetlength bs).toInt

/-- The sector behind the request as far as the products keep it: of the count they keep the low 23
bits with their sign. -/
def keptEnd : ℤ := sectorNum.toInt + nbSectors.toInt.bmod (2 ^ 23)

/-- No product drops a bit that decides: a request in the device does not seem to end before sector
zero, and one that is not does not seem to end in it, up to a multiple of `2 ^ 55` sectors. -/
def Unaliased : Prop :=
  (Fits bs sectorNum nbSectors → 0 ≤ keptEnd sectorNum nbSectors) ∧
    (¬Fits bs sectorNum nbSectors → ∀ j : ℤ, keptEnd sectorNum nbSectors < 2 ^ 55 * j ∨
      2 ^ 55 * j + (bdrvGetlength bs).toNat / 512 < keptEnd sectorNum nbSectors)

theorem bmod_mul_512 (x : ℤ) : (x * 512).bmod (2 ^ 32) = 512 * x.bmod (2 ^ 23) := by
  rw [Int.bmod_def, Int.bmod_def]
  split_ifs <;> omega

theorem toNat_eq_emod (x : BitVec 64) : (x.toNat : ℤ) = x.toInt % 2 ^ 64 := by
  have hlt := x.isLt
  rw [BitVec.toInt_eq_toNat_cond]
  split_ifs <;> omega

theorem end_toNat : ((sectorNum * 512#64 + (nbSectors * 512#32).signExtend 64).toNat : ℤ) =
    512 * keptEnd sectorNum nbSectors % 2 ^ 64 := by
  have hsize : ((nbSectors * 512#32).signExtend 64).toInt = 512 * nbSectors.toInt.bmod (2 ^ 23) := by
    rw [BitVec.toInt_signExtend_of_le (by decide), BitVec.toInt_mul, ← bmod_mul_512]
    rfl
  rw [toNat_eq_emod, BitVec.toInt_add, BitVec.toInt_mul, hsize]
  have hsector : (512#64).toInt = 512 := rfl
  unfold keptEnd
  rw [hsector, Int.bmod_add_bmod, Int.bmod_def]
  split_ifs <;> omega

theorem bdrvCheckRequest_iff (hin : bdrvIsInserted bs = true) (hgrow : bs.growable = false) :
    bdrvCheckRequest bs sectorNum nbSectors = 0 ↔
      512 * keptEnd sectorNum nbSectors % 2 ^ 64 ≤ (bdrvGetlength bs).toNat := by
  have hend := end_toNat sectorNum nbSectors
  have hlt : bdrvGetlength bs < sectorNum * 512#64 + (nbSectors * 512#32).signExtend 64 ↔
      ((bdrvGetlength bs).toNat : ℤ) < 512 * keptEnd sectorNum nbSectors % 2 ^ 64 := by
    rw [← hend, BitVec.lt_def, Nat.cast_lt]
  unfold bdrvCheckRequest bdrvCheckByteRequest
  rw [if_neg (by simp [hin]), if_neg (by simp [hgrow])]
  split_ifs with hbeyond
  · exact iff_of_false (by decide) (not_le.2 (hlt.1 hbeyond))
  · exact iff_of_true rfl (not_lt.1 (mt hlt.2 hbeyond))

/-- A length of `l` bytes holds the wrapped end of a request when this lies at a whole sector of the
device, some multiple of `2 ^ 55` sectors further. -/
theorem emod_le_iff (e : ℤ) (l : ℕ) :
    512 * e % 2 ^ 64 ≤ l ↔ ¬∀ j : ℤ, e < 2 ^ 55 * j ∨ 2 ^ 55 * j + l / 512 < e := by
  rw [not_forall]
  constructor
  · intro hle
    refine ⟨e / 2 ^ 55, ?_⟩
    omega
  · rintro ⟨j, hj⟩
    rw [not_or, not_lt, not_lt] at hj
    have hdiff : 512 * e % 2 ^ 64 ≤ 512 * (e - 2 ^ 55 * j) := by
      have heq : 512 * e % 2 ^ 64 = 512 * (e - 2 ^ 55 * j) % 2 ^ 64 := by omega
      rw [heq]
      omega
    omega

end Check

section Exact

variable {bs : BlockDriverState} {sectorNum : BitVec 64} {nbSectors : BitVec 32}

/-- The end of a request in the device is lost only where it seems to lie before sector zero. -/
theorem Fits.check_iff (hfits : Fits bs sectorNum nbSectors) (hin : bdrvIsInserted bs = true)
    (hgrow : bs.growable = false) :
    bdrvCheckRequest bs sectorNum nbSectors = 0 ↔ 0 ≤ keptEnd sectorNum nbSectors := by
  obtain ⟨hs, hn, hend⟩ := hfits
  have hlen : ((bdrvGetlength bs).toNat : ℤ) = (bdrvGetlength bs).toInt := by
    have hlt := (bdrvGetlength bs).toInt_lt
    rw [toNat_eq_emod]
    omega
  have hlen' := (bdrvGetlength bs).toInt_lt
  have hkept : keptEnd sectorNum nbSectors ≤ sectorNum.toInt + nbSectors.toInt ∧
      -2 ^ 22 ≤ keptEnd sectorNum nbSectors := by
    unfold keptEnd
    rw [Int.bmod_def]
    split_ifs <;> omega
  rw [bdrvCheckRequest_iff bs sectorNum nbSectors hin hgrow, hlen]
  omega

variable (sectorNum nbSectors)

/-- The check of an inserted device that does not grow is exact for the requests that are not
aliased, and for no other. -/
theorem bdrv_check_request_exact_iff (hin : bdrvIsInserted bs = true) (hgrow : bs.growable = false) :
    (bdrvCheckRequest bs sectorNum nbSectors = 0 ↔ Fits bs sectorNum nbSectors) ↔
      Unaliased bs sectorNum nbSectors := by
  unfold Unaliased
  by_cases hfits : Fits bs sectorNum nbSectors
  · rw [iff_true_right hfits, hfits.check_iff hin hgrow]
    exact ⟨fun h => ⟨fun _ => h, fun hf => absurd hfits hf⟩, fun h => h.1 hfits⟩
  · have hcheck := (bdrvCheckRequest_iff bs sectorNum nbSectors hin hgrow).trans (emod_le_iff _ _)
    rw [iff_false_right hfits, hcheck, not_not]
    exact ⟨fun h => ⟨fun hf => absurd hf hfits, fun _ => h⟩, fun h => h.2 hfits⟩

def rawDisk : BlockDriverState where
  drv := some ⟨none, some 0x100000#64⟩
  readOnly := false
  growable := false
  totalSectors := 2048#64
  content := fun _ => 0
  io := fun _ => .ok
  tick := 0

/-- The last sector of the disk. -/
theorem rawDisk_last_sector :
    (bdrvCheckRequest rawDisk 2047#64 1#32 = 0 ↔ Fits rawDisk 2047#64 1#32) ∧ Fits rawDisk 2047#64 1#32 := by
  have hfits : Fits rawDisk 2047#64 1#32 := by
    unfold Fits
    decide
  have hkept : 0 ≤ keptEnd 2047#64 1#32 := by decide
  refine ⟨(bdrv_check_request_exact_iff _ _ rfl rfl).2 ⟨fun _ => hkept, fun hf => absurd hfits hf⟩, hfits⟩

/-- One sector from sector minus one on is accepted. -/
theorem rawDisk_accepts_sector_minus_one :
    ¬(bdrvCheckRequest rawDisk (-1#64) 1#32 = 0 ↔ Fits rawDisk (-1#64) 1#32) := by
  unfold Fits
  decide

end Exact

end Ar7Qemu.Block.Request
