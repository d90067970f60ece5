import Ar7Qemu.Lib.ByteStore

/-! The protocol-level file below a format driver, as `bdrv_pread` and
`bdrv_pwrite` show it: a store of bytes, a length, and a schedule that says for
each request in turn whether it succeeds. A failed request moves an arbitrary
set of its bytes. A read past the end returns what the store holds there. -/

namespace Ar7Qemu.Block

open Lib

/-- A host file opened with `bdrv_file_open`. `io k = none` says that request
`k` succeeds, `io k = some m` that it fails after moving the bytes in `m`. -/
structure HostFile where
  data : Bytes
  len : ℕ
  io : ℕ → Option (ℕ → Bool)
  tick : ℕ

namespace HostFile

def alignSector (n : ℕ) : ℕ := (n + 511) / 512 * 512

/-- The request size as it arrives through an `int` parameter. A negative count
moves nothing. -/
def intCount (n : ℕ) : ℕ := if n % 2 ^ 32 < 2 ^ 31 then n % 2 ^ 32 else 0

/-- `bdrv_pread`: whether the requested count came back, and what the caller's
buffer holds then. -/
def bdrvPread (f : HostFile) (off n : ℕ) (buf : Bytes) : (Bool × Bytes) × HostFile :=
  let c := intCount n
  if c = 0 then ((n = 0, buf), f)
  else
    match f.io f.tick with
    | none => ((c = n, buf.write 0 c (f.data.drop off)), { f with tick := f.tick + 1 })
    | some m =>
      ((false, fun i => if i < c ∧ m i then f.data (off + i) else buf i),
        { f with tick := f.tick + 1 })

/-- `bdrv_pwrite`: whether the requested count was written. -/
def bdrvPwrite (f : HostFile) (off n : ℕ) (d : Bytes) : Bool × HostFile :=
  let c := intCount n
  if c = 0 then (n = 0, f)
  else
    match f.io f.tick with
    | none =>
      (c = n, { f with
        data := f.data.write off c d
        len := max f.len (alignSector (off + c))
        tick := f.tick + 1 })
    | some m =>
      (false, { f with
        data := fun k => if off ≤ k ∧ k < off + c ∧ m (k - off) then d (k - off) else f.data k
        tick := f.tick + 1 })

/-- Every request from now on succeeds. -/
def Reliable (f : HostFile) : Prop := ∀ t, f.io t = none

theorem intCount_of_lt {n : ℕ} (h : n < 2 ^ 31) : intCount n = n := by
  rw [intCount, Nat.mod_eq_of_lt (by omega), if_pos h]

theorem bdrvPread_ok {f : HostFile} (h : f.Reliable) (off : ℕ) {n : ℕ} (hn : n < 2 ^ 31) (buf : Bytes) :
    ∃ t, f.bdrvPread off n buf =
      ((true, buf.write 0 n (f.data.drop off)), { f with tick := t }) := by
  by_cases h0 : n = 0
  · subst h0
    have hw : buf.write 0 0 (f.data.drop off) = buf := by
      funext k; simp [Bytes.write]
    exact ⟨f.tick, by simp [bdrvPread, intCount, hw]⟩
  · exact ⟨f.tick + 1, by simp [bdrvPread, intCount_of_lt hn, h0, h f.tick]⟩

theorem bdrvPwrite_ok {f : HostFile} (h : f.Reliable) (off : ℕ) {n : ℕ} (hn : n < 2 ^ 31) (d : Bytes) :
    ∃ t, f.bdrvPwrite off n d = (true, { f with
      data := f.data.write off n d
      len := if n = 0 then f.len else max f.len (alignSector (off + n))
      tick := t }) := by
  by_cases h0 : n = 0
  · subst h0
    have hw : f.data.write off 0 d = f.data := by
      funext k; simp [Bytes.write]
    exact ⟨f.tick, by simp [bdrvPwrite, intCount, hw]⟩
  · exact ⟨f.tick + 1, by simp [bdrvPwrite, intCount_of_lt hn, h0, h f.tick]⟩

end HostFile

end Ar7Qemu.Block
