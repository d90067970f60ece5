import Ar7Qemu.Qcow2.Create
import Mathlib.Tactic.IntervalCases

/-! The file that `qcow_create2` leaves: its header, names, refcount table and
refcount blocks, and that every cluster of it is counted once. -/

namespace Ar7Qemu.Qcow2

open Lib Block

/-! ### Header fields -/

theorem QCowHeader.ofBytes_bytes (h : QCowHeader) : QCowHeader.ofBytes h.bytes =
    { magic := h.magic % 2 ^ 32
      version := h.version % 2 ^ 32
      backingFileOffset := h.backingFileOffset % 2 ^ 64
      backingFileSize := h.backingFileSize % 2 ^ 32
      clusterBits := h.clusterBits % 2 ^ 32
      size := h.size % 2 ^ 64
      cryptMethod := h.cryptMethod % 2 ^ 32
      l1Size := h.l1Size % 2 ^ 32
      l1TableOffset := h.l1TableOffset % 2 ^ 64
      refcountTableOffset := h.refcountTableOffset % 2 ^ 64
      refcountTableClusters := h.refcountTableClusters % 2 ^ 32
      nbSnapshots := h.nbSnapshots % 2 ^ 32
      snapshotsOffset := h.snapshotsOffset % 2 ^ 64 } := by
  have field : ∀ (w off v : ℕ), (∀ i < w, h.bytes (off + i) = Bytes.beByte w v i) →
      h.bytes.word w off = v % 256 ^ w := fun w off v hb =>
    (Bytes.beVal_congr hb).trans (Bytes.beVal_beByte_mod w v)
  simp only [QCowHeader.ofBytes, QCowHeader.mk.injEq]
  refine ⟨field 4 0 _ ?_, field 4 4 _ ?_, field 8 8 _ ?_, field 4 16 _ ?_, field 4 20 _ ?_,
    field 8 24 _ ?_, field 4 32 _ ?_, field 4 36 _ ?_, field 8 40 _ ?_, field 8 48 _ ?_,
    field 4 56 _ ?_, field 4 60 _ ?_, field 8 64 _ ?_⟩ <;>
  · intro i hi
    interval_cases i <;> rfl

/-! ### The L1 size and the layout -/

theorem createClusterSize : 2 ^ createClusterBits = 4096 := by norm_num [createClusterBits]

theorem toInt32_congr {m n : ℕ} (h : m % 2 ^ 32 = n % 2 ^ 32) : toInt32 m = toInt32 n := by
  rw [toInt32, toInt32, h]

theorem toInt32_of_lt {n : ℕ} (hn : n < 2 ^ 31) : toInt32 n = n := by
  rw [toInt32, Nat.mod_eq_of_lt (by omega), if_pos hn]

theorem toInt32_mod (n : ℕ) : toInt32 (n % 2 ^ 32) = toInt32 n := toInt32_congr (Nat.mod_mod _ _)

theorem toInt32_emod (n : ℕ) : (toInt32 n % 2 ^ 32).toNat = n % 2 ^ 32 := by
  unfold toInt32
  split <;> omega

/-- L1 entries of an image of `totalSize` sectors in 4 KiB clusters. -/
def l1Entries (totalSize : ℕ) : ℕ := (totalSize + 4095) / 4096

theorem createL1Size_eq (totalSize : ℕ) :
    createL1Size totalSize = toInt32 (l1Entries totalSize) := by
  refine toInt32_congr ?_
  simp only [l1Entries]
  push_cast
  omega

theorem createLayout_l1Size (o : CreateOptions) :
    (createLayout o).l1Size = createL1Size o.totalSize := by simp only [createLayout]

section Layout

variable {o : CreateOptions} (hn : (o.backingFile.getD []).length ≤ 1023)
  (hf : (o.backingFormat.getD []).length ≤ 15)

include hn hf

theorem createLayout_headerSize :
    0 < (createLayout o).headerSize ∧ (createLayout o).headerSize ≤ 4096 := by
  unfold createLayout headerLength
  rcases hb : o.backingFile with _ | name <;> rcases hg : o.backingFormat with _ | fmt <;>
    simp_all <;> omega

theorem createLayout_names : headerLength + (createNames o (createLayout o)).length ≤ 4096 := by
  unfold createNames createLayout headerLength
  rcases hb : o.backingFile with _ | name <;> rcases hg : o.backingFormat with _ | _ | ⟨c, fmt⟩ <;>
    simp_all <;> omega

theorem createLayout_l1TableOffset : (createLayout o).l1TableOffset = 4096 := by
  unfold createLayout alignOffset headerLength createClusterBits
  rcases hb : o.backingFile with _ | name <;> rcases hg : o.backingFormat with _ | fmt <;>
    simp_all <;> omega

/-- Clusters of a new image before its refcount blocks. -/
def createClusters (o : CreateOptions) : ℕ := ((createL1Size o.totalSize).toNat + 511) / 512 + 2

omit hn hf in
theorem two_le_createClusters : 2 ≤ createClusters o := Nat.le_add_left 2 _

theorem createLayout_refcountTableOffset : (createLayout o).refcountTableOffset =
    (createClusters o - 1) * 4096 := by
  have h := createLayout_l1TableOffset hn hf
  simp only [createLayout] at h ⊢
  rw [h]
  simp only [alignOffset, createClusterBits, createClusters]
  omega

theorem createLayout_refcountBlockOffset :
    (createLayout o).refcountBlockOffset = createClusters o * 4096 := by
  have h : (createLayout o).refcountBlockOffset = (createLayout o).refcountTableOffset + 4096 := rfl
  rw [h, createLayout_refcountTableOffset hn hf]
  simp only [createClusters]
  omega

theorem createLayout_refClusters : (createLayout o).refClusters = createClusters o / 2048 + 1 := by
  have h : (createLayout o).refClusters = (createLayout o).refcountBlockOffset / 4096 / 2048 + 1 :=
    rfl
  rw [h, createLayout_refcountBlockOffset hn hf]
  omega

omit hn hf in
theorem createRefcountUpdate_eq (offset : ℕ) {size m : ℕ} (hs : 0 < offset + size)
    (hm : (offset * 4096 + size + 4095) / 4096 = offset + m) :
    createRefcountUpdate (offset * 4096) size = List.range' offset m := by
  have hstart : offset * 4096 / 4096 = offset := Nat.mul_div_cancel _ (by norm_num)
  have hn : (offset * 4096 + size - 1) / 4096 + 1 - offset = m := by omega
  simp only [createRefcountUpdate, createClusterSize]
  rw [if_neg (by omega), List.range'_eq_map_range, hstart, hn]

/-- `qcow_create2` counts every cluster of the file once. -/
theorem createUpdates_eq : createUpdates (createLayout o) =
    List.range' 0 (createClusters o + (createLayout o).refClusters) := by
  obtain ⟨h0, h0'⟩ := createLayout_headerSize hn hf
  obtain ⟨m, hm⟩ : ∃ m, ((createL1Size o.totalSize).toNat + 511) / 512 = m := ⟨_, rfl⟩
  have hc : createClusters o = m + 2 := by rw [← hm]; rfl
  have e1 : createRefcountUpdate 0 (createLayout o).headerSize = List.range' 0 1 :=
    createRefcountUpdate_eq 0 (by omega) (by omega)
  have e2 : createRefcountUpdate 4096 ((createL1Size o.totalSize).toNat * 8) = List.range' 1 m :=
    createRefcountUpdate_eq 1 (by omega) (by omega)
  have e3 : createRefcountUpdate ((m + 1) * 4096) 4096 = List.range' (m + 1) 1 :=
    createRefcountUpdate_eq _ (by omega) (by omega)
  have e4 : createRefcountUpdate ((m + 2) * 4096) ((createLayout o).refClusters * 4096) =
      List.range' (m + 2) (createLayout o).refClusters :=
    createRefcountUpdate_eq _ (by omega) (by omega)
  simp only [createUpdates, createClusterSize, createLayout_l1TableOffset hn hf,
    createLayout_refcountTableOffset hn hf, createLayout_refcountBlockOffset hn hf, createLayout_l1Size, hc,
    show m + 2 - 1 = m + 1 from rfl, e1, e2, e3, e4]
  rw [show List.range' 1 m = List.range' (0 + 1) m by rw [Nat.zero_add], List.range'_append_1,
    show m + 1 = 0 + (1 + m) by omega, List.range'_append_1,
    show m + 2 = 0 + (1 + m + 1) by omega, List.range'_append_1, Nat.zero_add]

/-! ### What a new file holds -/

theorem create_header {i : ℕ} (hi : i < headerLength) : (qcowCreate2 o).data i =
    (createHeader o (createLayout o)).bytes i := by
  have h1 := createLayout_l1TableOffset hn hf
  have h2 := createLayout_refcountTableOffset hn hf
  have h3 := createLayout_refcountBlockOffset hn hf
  have hc := two_le_createClusters (o := o)
  unfold headerLength at hi
  simp only [qcowCreate2]
  rw [Bytes.write_apply_of_lt (by omega), Bytes.write_apply_of_lt (by omega),
    Bytes.write_apply_of_lt (by omega), Bytes.write_apply_of_lt (by simpa [headerLength] using hi),
    ← Nat.zero_add i, Bytes.write_apply_of_mem (by simpa [headerLength] using hi)]
  simp

theorem create_names {i : ℕ} (hi : i < (createNames o (createLayout o)).length) :
    (qcowCreate2 o).data (headerLength + i) = (createNames o (createLayout o)).getD i 0 := by
  have h0 := createLayout_names hn hf
  have h1 := createLayout_l1TableOffset hn hf
  have h2 := createLayout_refcountTableOffset hn hf
  have h3 := createLayout_refcountBlockOffset hn hf
  have hc := two_le_createClusters (o := o)
  simp only [qcowCreate2]
  rw [Bytes.write_apply_of_lt (by omega), Bytes.write_apply_of_lt (by omega),
    Bytes.write_apply_of_lt (by omega), Bytes.write_apply_of_mem hi]
  rfl

omit hn hf in
theorem create_zero {k : ℕ} (h : headerLength + (createNames o (createLayout o)).length ≤ k)
    (h' : k < (createLayout o).refcountTableOffset) : (qcowCreate2 o).data k = 0 := by
  have h3 : (createLayout o).refcountBlockOffset = (createLayout o).refcountTableOffset + 4096 := rfl
  simp only [qcowCreate2]
  rw [Bytes.write_apply_of_lt (by omega), Bytes.write_apply_of_lt (by omega)]
  simp only [Bytes.write]
  split_ifs <;> first | rfl | omega

omit hn hf in
theorem create_refcountTable {i : ℕ} (hi : i < 512)
    (hb : (createLayout o).refcountBlockOffset + (createLayout o).refClusters * 4096 < 2 ^ 64) :
    (qcowCreate2 o).data.word 8 ((createLayout o).refcountTableOffset + 8 * i) =
      if i < (createLayout o).refClusters then (createLayout o).refcountBlockOffset + i * 4096
      else 0 := by
  have h3 : (createLayout o).refcountBlockOffset = (createLayout o).refcountTableOffset + 4096 := rfl
  simp only [qcowCreate2]
  have hlt : (if i < (createLayout o).refClusters
      then (createLayout o).refcountBlockOffset + i * 2 ^ createClusterBits else 0) < 256 ^ 8 := by
    rw [createClusterSize, show 256 ^ 8 = 2 ^ 64 by norm_num]
    split_ifs with hr
    · have := Nat.mul_le_mul_right 4096 hr.le
      linarith
    · norm_num
  rw [Bytes.word_write_of_disjoint (Or.inl (by omega)),
    show 2 ^ createClusterBits = 8 * 512 from rfl] at *
  rw [Bytes.word_write_table hi hlt]

omit hn hf in
theorem create_refcounts {k : ℕ} (hk : k < (createLayout o).refClusters * 2048)
    (hc : (createUpdates (createLayout o)).count k < 2 ^ 16) :
    (qcowCreate2 o).data.word 2 ((createLayout o).refcountBlockOffset + 2 * k) =
      (createUpdates (createLayout o)).count k := by
  simp only [qcowCreate2]
  rw [show (createLayout o).refClusters * 2 ^ createClusterBits =
      2 * ((createLayout o).refClusters * 2048) by simp [createClusterBits]; omega,
    Bytes.word_write_table hk (by simpa using hc)]

end Layout

end Ar7Qemu.Qcow2
