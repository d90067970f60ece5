import Ar7Qemu.Block.Vpc
import Mathlib.Data.Finset.Card

/-! The layout of a dynamic VHD image: the bounds of its geometry, what the requests to the host
leave, and the invariant of an image that is in use. Blocks lie one behind the other from the end of
the table on, the footer behind the last one, and everything behind the footer is zero. -/

namespace Ar7Qemu.Vpc

open Lib Block

/-! ### Geometry -/

structure Geometry.Bounded (g : Geometry) : Prop where
  cyls : g.cyls < 2 ^ 16
  heads : g.heads ≤ 16
  secs : g.secsPerCyl ≤ 255

theorem bounded_geometryOf {c h s : ℕ} (hh : h ≤ 16) (hs : s ≤ 255) : (geometryOf c h s).Bounded :=
  ⟨Nat.mod_lt _ (by decide), hh, hs⟩

theorem bounded_calculateGeometry {total : ℕ} {g : Geometry} (h : calculateGeometry total = some g) : g.Bounded := by
  unfold calculateGeometry at h
  dsimp only at h
  split_ifs at h with h₁ h₂ h₃ h₄ h₅ h₆ h₇ <;> cases h <;> apply bounded_geometryOf <;> omega

theorem Geometry.Bounded.sectors_lt {g : Geometry} (h : g.Bounded) : g.sectors ≤ 65535 * 16 * 255 := by
  unfold Geometry.sectors
  have hc : g.cyls ≤ 65535 := Nat.le_of_lt_succ h.cyls
  exact Nat.mul_le_mul (Nat.mul_le_mul hc h.heads) h.secs

def start (g : Geometry) : ℕ := 1536 + batLen g

/-- The length of a block with its bitmap. -/
def stride : ℕ := 0x200200

theorem numBatEntries_eq (g : Geometry) : numBatEntries g = g.sectors / 4096 + 1 := by
  unfold numBatEntries
  omega

theorem Geometry.Bounded.numBatEntries_le {g : Geometry} (h : g.Bounded) : numBatEntries g ≤ 65280 := by
  have hle := h.sectors_lt
  rw [numBatEntries_eq]
  omega

theorem batLen_ge (g : Geometry) : numBatEntries g * 4 ≤ batLen g := by
  unfold batLen
  omega

theorem start_mod (g : Geometry) : start g % 512 = 0 := by
  unfold start batLen
  omega

theorem Geometry.Bounded.start_le {g : Geometry} (h : g.Bounded) : start g ≤ 300000 := by
  have hle := h.numBatEntries_le
  unfold start batLen
  omega

/-! ### Requests to the host -/

/-- What a write request leaves. -/
structure Pwritten (f f' : HostFile) (off n : ℕ) (d : Bytes) (ok : Bool) : Prop where
  io : f'.io = f.io
  tick : f'.tick = f.tick + 1
  answer : ok = true ↔ f.io f.tick = none
  outside : ∀ k, k < off ∨ off + n ≤ k → f'.data k = f.data k
  inside : ok = true → ∀ k < n, f'.data (off + k) = d k
  len : f'.len = if ok then max f.len (HostFile.alignSector (off + n)) else f.len

theorem bdrvPwrite_spec (f : HostFile) (off : ℕ) {n : ℕ} (hpos : 0 < n) (hn : n < 2 ^ 31) (d : Bytes) :
    Pwritten f (f.bdrvPwrite off n d).2 off n d (f.bdrvPwrite off n d).1 := by
  unfold HostFile.bdrvPwrite
  dsimp only
  rw [HostFile.intCount_of_lt hn, if_neg (by omega)]
  cases hio : f.io f.tick with
  | none =>
    refine ⟨rfl, rfl, iff_of_true (decide_eq_true rfl) hio, fun k hk => ?_, fun _ k hk => ?_, ?_⟩
    · exact Bytes.write_apply_of_not_mem hk
    · exact Bytes.write_apply_of_mem hk
    · rw [if_pos (decide_eq_true rfl)]
  | some m =>
    refine ⟨rfl, rfl, iff_of_false Bool.false_ne_true (by rw [hio]; exact Option.some_ne_none m), fun k hk => ?_,
      fun h => absurd h Bool.false_ne_true, rfl⟩
    apply if_neg
    omega

theorem bdrvPread_spec (f : HostFile) (off : ℕ) {n : ℕ} (hpos : 0 < n) (hn : n < 2 ^ 31) (buf : Bytes) :
    (f.bdrvPread off n buf).2 = { f with tick := f.tick + 1 } ∧
      ((f.bdrvPread off n buf).1.1 = true → ∀ k < n, (f.bdrvPread off n buf).1.2 k = f.data (off + k)) := by
  unfold HostFile.bdrvPread
  dsimp only
  rw [HostFile.intCount_of_lt hn, if_neg (by omega)]
  cases hio : f.io f.tick with
  | none =>
    refine ⟨rfl, fun _ k hk => ?_⟩
    have hmem := @Bytes.write_apply_of_mem buf (f.data.drop off) 0 n k hk
    rw [Nat.zero_add] at hmem
    exact hmem
  | some m => exact ⟨rfl, fun h => absurd h Bool.false_ne_true⟩

/-! ### The invariant -/

/-- The entries of a table that refer to a block. -/
def allocated (pagetable : ℕ → ℕ) (n : ℕ) : Finset ℕ := (Finset.range n).filter fun i => pagetable i ≠ unused

def lastFooter (g : Geometry) (timestamp count : ℕ) : Bytes :=
  if count = 0 then footer g timestamp else withChecksum (footer g timestamp) 0

/-- What registration fixes. -/
structure Fixed (g : Geometry) (timestamp : ℕ) (s : VpcState) : Prop where
  bounded : g.Bounded
  maxTableEntries : s.maxTableEntries = numBatEntries g
  batOffset : s.batOffset = 1536
  blockSize : s.blockSize = 0x200000
  bitmapSize : s.bitmapSize = 512
  totalSectors : s.totalSectors = g.sectors
  footerBuf : ∀ k < 512, s.footerBuf k = withChecksum (footer g timestamp) 0 k

/-- The table. -/
structure Table (g : Geometry) (pagetable : ℕ → ℕ) (free : ℕ) : Prop where
  free_eq : free = start g + (allocated pagetable (numBatEntries g)).card * stride
  slot : ∀ i < numBatEntries g, pagetable i ≠ unused →
    ∃ j < (allocated pagetable (numBatEntries g)).card, 512 * pagetable i = start g + j * stride
  inj : ∀ i < numBatEntries g, ∀ i' < numBatEntries g, pagetable i ≠ unused → pagetable i = pagetable i' → i = i'
  last : free = start g ∨ ∃ i < numBatEntries g, pagetable i ≠ unused ∧ 512 * pagetable i + stride = free

/-- The file. -/
structure OnDisk (g : Geometry) (timestamp : ℕ) (pagetable : ℕ → ℕ) (free : ℕ) (hd : HostFile) : Prop where
  header : ∀ k < 512, hd.data k = footer g timestamp k
  dyndisk : ∀ k < 1024, hd.data (512 + k) = dyndiskHeader g k
  table : ∀ i < numBatEntries g, hd.data.word 4 (1536 + 4 * i) = pagetable i
  footer : ∀ k < 512, hd.data (free + k) = lastFooter g timestamp (allocated pagetable (numBatEntries g)).card k
  fresh : ∀ k, free + 512 ≤ k → hd.data k = 0
  len : hd.len = free + 512

structure Inv (g : Geometry) (timestamp : ℕ) (s : VpcState) : Prop where
  fixed : Fixed g timestamp s
  table : Table g s.pagetable s.freeDataBlockOffset
  disk : OnDisk g timestamp s.pagetable s.freeDataBlockOffset s.hd

variable {g : Geometry} {timestamp : ℕ} {s : VpcState} {pt : ℕ → ℕ} {free : ℕ} {hd hd' : HostFile}

theorem mem_allocated {i n : ℕ} : i ∈ allocated pt n ↔ i < n ∧ pt i ≠ unused := by
  simp [allocated]

theorem card_allocated_le (pt : ℕ → ℕ) (n : ℕ) : (allocated pt n).card ≤ n := by
  have hle := Finset.card_filter_le (Finset.range n) fun i => pt i ≠ unused
  rwa [Finset.card_range] at hle

theorem Table.block_bounds (h : Table g pt free) {i : ℕ} (hi : i < numBatEntries g) (ha : pt i ≠ unused) :
    start g ≤ 512 * pt i ∧ 512 * pt i + stride ≤ free := by
  obtain ⟨j, hj, heq⟩ := h.slot i hi ha
  have hle : (j + 1) * stride ≤ (allocated pt (numBatEntries g)).card * stride := Nat.mul_le_mul_right _ hj
  rw [Nat.succ_mul] at hle
  rw [h.free_eq, heq]
  omega

theorem Table.disjoint (h : Table g pt free) {i i' : ℕ} (hi : i < numBatEntries g) (hi' : i' < numBatEntries g)
    (ha : pt i ≠ unused) (ha' : pt i' ≠ unused) (hne : i ≠ i') :
    512 * pt i + stride ≤ 512 * pt i' ∨ 512 * pt i' + stride ≤ 512 * pt i := by
  obtain ⟨j, -, heq⟩ := h.slot i hi ha
  obtain ⟨j', -, heq'⟩ := h.slot i' hi' ha'
  rcases Nat.lt_trichotomy j j' with hlt | rfl | hlt
  · have hle : (j + 1) * stride ≤ j' * stride := Nat.mul_le_mul_right _ hlt
    rw [Nat.succ_mul] at hle
    omega
  · exact absurd (h.inj i hi i' hi' ha (by omega)) hne
  · have hle : (j' + 1) * stride ≤ j * stride := Nat.mul_le_mul_right _ hlt
    rw [Nat.succ_mul] at hle
    omega

theorem OnDisk.of_blocks (h : OnDisk g timestamp pt free hd) (hlen : hd'.len = hd.len)
    (hsame : ∀ k, k < start g ∨ free ≤ k → hd'.data k = hd.data k) : OnDisk g timestamp pt free hd' := by
  have hbat := batLen_ge g
  have hstart : start g = 1536 + batLen g := rfl
  refine ⟨fun k hk => ?_, fun k hk => ?_, fun i hi => ?_, fun k hk => ?_, fun k hk => ?_, hlen.trans h.len⟩
  · rw [hsame k (by omega), h.header k hk]
  · rw [hsame _ (by omega), h.dyndisk k hk]
  · rw [← h.table i hi]
    exact Bytes.word_congr fun j hj => hsame _ (by omega)
  · rw [hsame _ (by omega), h.footer k hk]
  · rw [hsame k (by omega), h.fresh k hk]

end Ar7Qemu.Vpc
