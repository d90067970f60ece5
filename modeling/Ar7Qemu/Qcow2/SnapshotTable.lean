import Ar7Qemu.Qcow2.RefcountFrame
import Ar7Qemu.Qcow2.CreateOpen

/-! The snapshot table on disk. Records of different lengths are laid out by the
pass that sizes the table, the pass that writes it and the pass that reads it, each
with its own alignment. Proved: writing the table and reading it back gives the
same snapshots and the size of the table, exactly when that size is an `int`. -/

namespace Ar7Qemu.Qcow2

open Lib Block

/-! ### The layout of the records -/

theorem le_alignOffset (off : ℕ) : off ≤ alignOffset off 8 ∧ alignOffset off 8 < off + 8 := by
  rw [alignOffset]
  omega

def recordEnd (sn : QCowSnapshot) (off : ℕ) : ℕ :=
  alignOffset off 8 + snapshotHeaderSize + sn.idStr.length + sn.name.length

theorem snapshotsSizeOf_cons (sn : QCowSnapshot) (sns : List QCowSnapshot) (off : ℕ) :
    snapshotsSizeOf (sn :: sns) off = snapshotsSizeOf sns (recordEnd sn off) := rfl

theorem le_recordEnd (sn : QCowSnapshot) (off : ℕ) :
    off + snapshotHeaderSize + sn.idStr.length + sn.name.length ≤ recordEnd sn off := by
  have := le_alignOffset off
  rw [recordEnd]
  omega

theorem mul_le_snapshotsSizeOf {sns : List QCowSnapshot} {m : ℕ}
    (hm : ∀ sn ∈ sns, m ≤ snapshotHeaderSize + sn.idStr.length + sn.name.length) (off : ℕ) :
    off + sns.length * m ≤ snapshotsSizeOf sns off := by
  induction sns generalizing off with
  | nil => simp [snapshotsSizeOf]
  | cons sn sns ih =>
    have hrest := ih (fun sn hmem => hm sn (List.mem_cons_of_mem _ hmem)) (recordEnd sn off)
    have hend := le_recordEnd sn off
    have hsn := hm sn List.mem_cons_self
    rw [snapshotsSizeOf_cons, List.length_cons, Nat.succ_mul]
    omega

theorem le_snapshotsSizeOf (sns : List QCowSnapshot) (off : ℕ) : off ≤ snapshotsSizeOf sns off := by
  have : off + sns.length * 0 ≤ snapshotsSizeOf sns off :=
    mul_le_snapshotsSizeOf (fun _ _ => Nat.zero_le _) off
  omega

theorem snapshotsSizeOf_add (sns : List QCowSnapshot) {base : ℕ} (hbase : 8 ∣ base) (off : ℕ) :
    snapshotsSizeOf sns (base + off) = base + snapshotsSizeOf sns off := by
  induction sns generalizing off with
  | nil => rfl
  | cons sn sns ih =>
    have hend : recordEnd sn (base + off) = base + recordEnd sn off := by
      obtain ⟨k, rfl⟩ := hbase
      simp only [recordEnd, alignOffset]
      omega
    rw [snapshotsSizeOf_cons, snapshotsSizeOf_cons, hend, ih]

/-- The file holds the records of `sns` from `off` on. -/
def HoldsEntries (d : Bytes) : List QCowSnapshot → ℕ → Prop
  | [], _ => True
  | sn :: sns, off =>
    (∀ i < snapshotHeaderSize, d (alignOffset off 8 + i) = snapshotHeader sn i) ∧
    (∀ i < sn.idStr.length, d (alignOffset off 8 + snapshotHeaderSize + i) = strBytes sn.idStr i) ∧
    (∀ i < sn.name.length, d (alignOffset off 8 + snapshotHeaderSize + sn.idStr.length + i) =
      strBytes sn.name i) ∧
    HoldsEntries d sns (recordEnd sn off)

theorem HoldsEntries.congr {d d' : Bytes} {sns : List QCowSnapshot} {off : ℕ}
    (h : HoldsEntries d sns off)
    (heq : ∀ p, off ≤ p → p < snapshotsSizeOf sns off → d' p = d p) : HoldsEntries d' sns off := by
  induction sns generalizing off with
  | nil => trivial
  | cons sn sns ih =>
    obtain ⟨h1, h2, h3, h4⟩ := h
    have halign := le_alignOffset off
    have hle := le_snapshotsSizeOf sns (recordEnd sn off)
    rw [snapshotsSizeOf_cons] at heq
    have hend : recordEnd sn off = alignOffset off 8 + snapshotHeaderSize + sn.idStr.length +
        sn.name.length := rfl
    refine ⟨fun i hi => ?_, fun i hi => ?_, fun i hi => ?_, ih h4 fun p hp hlt => ?_⟩
    · rw [heq _ (by omega) (by omega), h1 i hi]
    · rw [heq _ (by omega) (by omega), h2 i hi]
    · rw [heq _ (by omega) (by omega), h3 i hi]
    · exact heq p (by omega) hlt

/-! ### The write pass -/

/-- The records of a reliable file after they are written. -/
theorem writeSnapshotEntries_ok {s : BDRVQcowState} (hs : s.Reliable) (sns : List QCowSnapshot)
    (hlen : ∀ sn ∈ sns, sn.idStr.length < 2 ^ 16 ∧ sn.name.length < 2 ^ 16) (off : ℕ) :
    ∃ d l t, writeSnapshotEntries sns off s = (true, s.stored d l t) ∧ HoldsEntries d sns off ∧
      ∀ p, (p < off ∨ snapshotsSizeOf sns off ≤ p) → d p = s.hd.data p := by
  induction sns generalizing off s with
  | nil => exact ⟨s.hd.data, s.hd.len, s.hd.tick, rfl, trivial, fun _ _ => rfl⟩
  | cons sn sns ih =>
    have halign := le_alignOffset off
    obtain ⟨hid, hname⟩ := hlen sn List.mem_cons_self
    obtain ⟨l₁, t₁, hw₁, -⟩ := pwrite_stored hs (alignOffset off 8) (n := snapshotHeaderSize)
      (by decide) (snapshotHeader sn)
    generalize hd₁ : s.hd.data.write _ _ _ = d₁ at hw₁
    obtain ⟨l₂, t₂, hw₂, -⟩ := pwrite_stored (s := s.stored d₁ l₁ t₁) hs
      (alignOffset off 8 + snapshotHeaderSize) (n := sn.idStr.length) (by omega) (strBytes sn.idStr)
    rw [BDRVQcowState.stored_data] at hw₂
    generalize hd₂ : d₁.write _ _ _ = d₂ at hw₂
    obtain ⟨l₃, t₃, hw₃, -⟩ := pwrite_stored (s := (s.stored d₁ l₁ t₁).stored d₂ l₂ t₂) hs
      (alignOffset off 8 + snapshotHeaderSize + sn.idStr.length) (n := sn.name.length) (by omega)
      (strBytes sn.name)
    rw [BDRVQcowState.stored_data] at hw₃
    generalize hd₃ : d₂.write _ _ _ = d₃ at hw₃
    obtain ⟨d, l, t, hrest, hholds, hframe⟩ := ih (s := s.stored d₃ l₃ t₃) hs
      (fun sn hsn => hlen sn (List.mem_cons_of_mem _ hsn)) (recordEnd sn off)
    have hend : recordEnd sn off = alignOffset off 8 + snapshotHeaderSize + sn.idStr.length +
        sn.name.length := rfl
    have hle := le_snapshotsSizeOf sns (recordEnd sn off)
    have hframe' : ∀ p < recordEnd sn off, d p = d₃ p := fun p hp => hframe p (.inl hp)
    refine ⟨d, l, t, ?_, ⟨fun i hi => ?_, fun i hi => ?_, fun i hi => ?_, hholds⟩, fun p hp => ?_⟩
    · rw [writeSnapshotEntries, bind_apply, hw₁]
      simp only [Bool.not_true, Bool.false_eq_true, if_false]
      rw [bind_apply, hw₂]
      simp only [Bool.not_true, Bool.false_eq_true, if_false]
      rw [bind_apply, hw₃]
      exact hrest
    · rw [hframe' _ (by omega), ← hd₃, Bytes.write_apply_of_lt (by omega), ← hd₂,
        Bytes.write_apply_of_lt (by omega), ← hd₁, Bytes.write_apply_of_mem hi]
    · rw [hframe' _ (by omega), ← hd₃, Bytes.write_apply_of_lt (by omega), ← hd₂,
        Bytes.write_apply_of_mem hi]
    · rw [hframe' _ (by omega), ← hd₃, Bytes.write_apply_of_mem hi]
    · rw [snapshotsSizeOf_cons] at hp
      rw [hframe p (by omega)]
      show d₃ p = s.hd.data p
      rw [← hd₃, Bytes.write_apply_of_not_mem (by omega), ← hd₂,
        Bytes.write_apply_of_not_mem (by omega), ← hd₁, Bytes.write_apply_of_not_mem (by omega)]

/-! ### The read pass -/

/-- The fields of a snapshot fit their types, and its strings are strings of less
than 65536 bytes. -/
structure QCowSnapshot.Fits (sn : QCowSnapshot) : Prop where
  l1TableOffset : sn.l1TableOffset < 2 ^ 64
  l1Size : sn.l1Size < 2 ^ 32
  vmStateSize : sn.vmStateSize < 2 ^ 32
  dateSec : sn.dateSec < 2 ^ 32
  dateNsec : sn.dateNsec < 2 ^ 32
  vmClockNsec : sn.vmClockNsec < 2 ^ 64
  idLength : sn.idStr.length < 2 ^ 16
  nameLength : sn.name.length < 2 ^ 16
  idNul : 0 ∉ sn.idStr
  nameNul : 0 ∉ sn.name

section Header

variable {sn : QCowSnapshot} {b : Bytes} (hb : ∀ i < snapshotHeaderSize, b i = snapshotHeader sn i)

include hb

theorem word_snapshotHeader {w off v : ℕ} (hoff : off + w ≤ snapshotHeaderSize)
    (hfield : ∀ i < w, snapshotHeader sn (off + i) = Bytes.beByte w v i) (hv : v < 256 ^ w) :
    b.word w off = v := by
  rw [← Bytes.beVal_beByte hv]
  apply Bytes.beVal_congr
  intro i hi
  rw [Bytes.drop_apply, hb _ (by omega), hfield i hi]

theorem snapshotHeader_words (hsn : sn.Fits) :
    b.word 8 0 = sn.l1TableOffset ∧ b.word 4 8 = sn.l1Size ∧ b.word 2 12 = sn.idStr.length ∧
      b.word 2 14 = sn.name.length ∧ b.word 4 16 = sn.dateSec ∧ b.word 4 20 = sn.dateNsec ∧
      b.word 8 24 = sn.vmClockNsec ∧ b.word 4 32 = sn.vmStateSize ∧ b.word 4 36 = 0 := by
  refine ⟨word_snapshotHeader hb (by decide) ?_ (by simpa using hsn.l1TableOffset),
    word_snapshotHeader hb (by decide) ?_ (by simpa using hsn.l1Size),
    word_snapshotHeader hb (by decide) ?_ (by simpa using hsn.idLength),
    word_snapshotHeader hb (by decide) ?_ (by simpa using hsn.nameLength),
    word_snapshotHeader hb (by decide) ?_ (by simpa using hsn.dateSec),
    word_snapshotHeader hb (by decide) ?_ (by simpa using hsn.dateNsec),
    word_snapshotHeader hb (by decide) ?_ (by simpa using hsn.vmClockNsec),
    word_snapshotHeader hb (by decide) ?_ (by simpa using hsn.vmStateSize),
    word_snapshotHeader hb (by decide) ?_ (by decide)⟩ <;>
  · intro i hi
    interval_cases i <;> rfl

end Header

theorem pread_known {s : BDRVQcowState} (hs : s.Reliable) {off n : ℕ} (hn : n < 2 ^ 31) {b : Bytes}
    (hb : ∀ i < n, s.hd.data (off + i) = b i) :
    ∃ b' t, pread off n (fun _ => 0) s = ((true, b'), s.ticked t) ∧ ∀ i < n, b' i = b i := by
  obtain ⟨t, ht⟩ := pread_ok hs off hn fun _ => 0
  refine ⟨_, t, ht, fun i hi => ?_⟩
  rw [← Nat.zero_add i, Bytes.write_apply_of_mem hi, Bytes.drop_apply, hb i hi, Nat.zero_add]

theorem cstring_strBytes {str : List UInt8} (h0 : 0 ∉ str) {b : Bytes}
    (hb : ∀ i < str.length, b i = strBytes str i) : cstring str.length b = str :=
  cstring_eq h0 le_rfl hb

theorem readSnapshotEntries_ok {s : BDRVQcowState} (hs : s.Reliable) {sns : List QCowSnapshot}
    (hfits : ∀ sn ∈ sns, sn.Fits) {off : ℕ} (hholds : HoldsEntries s.hd.data sns off) :
    ∃ t, readSnapshotEntries sns.length off s =
      (some (sns, snapshotsSizeOf sns off), s.ticked t) := by
  induction sns generalizing off s with
  | nil => exact ⟨s.hd.tick, rfl⟩
  | cons sn sns ih =>
    obtain ⟨hheader, hid, hname, hrest⟩ := hholds
    have hsn := hfits sn List.mem_cons_self
    obtain ⟨b₁, t₁, hr₁, hb₁⟩ := pread_known hs (by decide) hheader
    obtain ⟨w1, w2, w3, w4, w5, w6, w7, w8, w9⟩ := snapshotHeader_words hb₁ hsn
    have hidLength := hsn.idLength
    have hnameLength := hsn.nameLength
    obtain ⟨b₂, t₂, hr₂, hb₂⟩ := pread_known (s := s.ticked t₁) hs (by omega) hid
    obtain ⟨b₃, t₃, hr₃, hb₃⟩ := pread_known (s := (s.ticked t₁).ticked t₂) hs (by omega) hname
    obtain ⟨t, ht⟩ := ih (s := s.ticked t₃) hs
      (fun sn hmem => hfits sn (List.mem_cons_of_mem _ hmem)) hrest
    rw [recordEnd] at ht
    refine ⟨t, ?_⟩
    rw [List.length_cons, readSnapshotEntries, bind_apply, hr₁]
    simp only [Bool.not_true, Bool.false_eq_true, if_false, w1, w2, w3, w4, w5, w6, w7, w8, w9,
      Nat.add_zero]
    rw [bind_apply, hr₂]
    simp only [Bool.not_true, Bool.false_eq_true, if_false]
    rw [bind_apply, hr₃]
    simp only [Bool.not_true, Bool.false_eq_true, if_false]
    rw [bind_apply, BDRVQcowState.ticked_ticked, BDRVQcowState.ticked_ticked, ht]
    simp only [pure_apply, cstring_strBytes hsn.idNul hb₂, cstring_strBytes hsn.nameNul hb₃]
    rfl

/-! ### The round trip -/

namespace BDRVQcowState

variable (s : BDRVQcowState)

/-- The state in which `qcow_open` reads the snapshots of the file. -/
def reopened : BDRVQcowState :=
  { s with
    snapshotsOffset := s.hd.data.word 8 snapshotsOffsetField
    snapshotsSize := 0
    snapshots := [] }

def tableSize : ℕ := snapshotsSizeOf s.snapshots 0

/-- Writing the snapshots and reading them back gives the same snapshots, and both
know where the table is and how long it is. -/
def SnapshotsRoundTrip : Prop :=
  ∃ s₁ s₂, qcowWriteSnapshots s = (true, s₁) ∧
    qcowReadSnapshots (s₁.hd.data.word 4 nbSnapshotsField) s₁.reopened = (true, s₂) ∧
    s₂.snapshots = s.snapshots ∧ s₂.snapshotsOffset = s₁.snapshotsOffset ∧
    s₂.snapshotsSize = s₁.snapshotsSize ∧ s₁.snapshotsSize = s.tableSize

/-- The clusters allocated for the table are used by nothing else that is written:
neither the header nor a refcount block. -/
structure TableApart : Prop where
  offset : (allocClusters s.tableSize s).1 < 2 ^ 64
  header : 0 < s.tableSize → s.clusterSize ≤ (allocClusters s.tableSize s).1
  blocks : ∀ p, (allocClusters s.tableSize s).1 ≤ p →
    p < (allocClusters s.tableSize s).1 + s.tableSize →
    (allocClusters s.tableSize s).2.OutsideBlocks p
  fields : ∀ p, nbSnapshotsField ≤ p → p < headerLength →
    (allocClusters s.tableSize s).2.OutsideBlocks p

end BDRVQcowState

section RoundTrip

variable {s : BDRVQcowState}

/-- The size that a successful write leaves is the size of the table in an `int`. -/
theorem qcowWriteSnapshots_size {s₁ : BDRVQcowState} (h : qcowWriteSnapshots s = (true, s₁)) :
    s₁.snapshotsSize = toInt32 s.tableSize := by
  rw [qcowWriteSnapshots, bind_apply, get_apply, bind_apply] at h
  dsimp only at h
  generalize allocClustersInt _ s = r at h
  obtain ⟨off, s'⟩ := r
  dsimp only at h
  rw [bind_apply] at h
  rcases hw₁ : writeSnapshotEntries s.snapshots off s' with ⟨_ | _, s''⟩
  · rw [hw₁] at h
    cases h
  rw [hw₁] at h
  simp only [Bool.not_true, Bool.false_eq_true, if_false] at h
  rw [bind_apply] at h
  rcases hw₂ : pwrite snapshotsOffsetField 8 (Bytes.beByte 8 off) s'' with ⟨_ | _, s₃⟩
  · rw [hw₂] at h
    cases h
  rw [hw₂] at h
  simp only [Bool.not_true, Bool.false_eq_true, if_false] at h
  rw [bind_apply] at h
  rcases hw₃ : pwrite nbSnapshotsField 4 (Bytes.beByte 4 s.snapshots.length) s₃ with ⟨_ | _, s₄⟩
  · rw [hw₃] at h
    cases h
  rw [hw₃] at h
  simp only [Bool.not_true, Bool.false_eq_true, if_false, bind_apply, modify_apply, pure_apply] at h
  cases h
  rfl

theorem length_le_tableSize (s : BDRVQcowState) : s.snapshots.length ≤ s.tableSize := by
  have h40 : snapshotHeaderSize = 40 := rfl
  have : 0 + s.snapshots.length * 1 ≤ snapshotsSizeOf s.snapshots 0 :=
    mul_le_snapshotsSizeOf (fun _ _ => by omega) 0
  rw [BDRVQcowState.tableSize]
  omega

theorem toInt32_lt (n : ℕ) : toInt32 n < 2 ^ 31 := by
  rw [toInt32]
  split_ifs <;> omega

theorem lt_of_roundTrip (h : s.SnapshotsRoundTrip) : s.tableSize < 2 ^ 31 := by
  obtain ⟨s₁, s₂, hwrite, -, -, -, -, hsize⟩ := h
  have hlt := toInt32_lt s.tableSize
  rw [qcowWriteSnapshots_size hwrite] at hsize
  omega

variable (hg : s.Geometry) (hs : s.Reliable) (hfits : ∀ sn ∈ s.snapshots, sn.Fits)
  (hsize : s.tableSize < 2 ^ 31) (hapart : s.TableApart)

include hg hs hfits hsize hapart

theorem qcowWriteSnapshots_ok :
    ∃ s₁, qcowWriteSnapshots s = (true, s₁) ∧ s₁.Reliable ∧
      s₁.snapshotsOffset = (allocClusters s.tableSize s).1 ∧
      s₁.hd.data.word 8 snapshotsOffsetField = (allocClusters s.tableSize s).1 ∧
      s₁.hd.data.word 4 nbSnapshotsField = s.snapshots.length ∧
      HoldsEntries s₁.hd.data s.snapshots (allocClusters s.tableSize s).1 := by
  have hdvd := clusterSize_dvd_allocClusters s s.tableSize
  have hpart := keeps_allocClusters s.tableSize s
  obtain ⟨hoff, hheader, hblocks, hfields⟩ := hapart
  have halloc : allocClustersInt (toInt32 (snapshotsSizeOf s.snapshots 0)) s =
      allocClusters s.tableSize s := by
    rw [show snapshotsSizeOf s.snapshots 0 = s.tableSize from rfl, toInt32_of_lt hsize,
      allocClustersInt, if_pos (Int.natCast_nonneg _), Int.toNat_natCast]
  rcases hr : allocClusters s.tableSize s with ⟨off, s'⟩
  rw [hr] at hdvd hpart hoff hheader hblocks hfields halloc
  dsimp only at hdvd hpart hoff hheader hblocks hfields
  have hs' : s'.Reliable := hpart.reliable.mpr hs
  have hend : snapshotsSizeOf s.snapshots off = off + s.tableSize := by
    have h8 : 8 ∣ off := (Dvd.intro _ hg.clusterSize_eq'.symm).trans hdvd
    exact snapshotsSizeOf_add s.snapshots h8 0
  obtain ⟨d, l, t, hwrite, hholds, -⟩ := writeSnapshotEntries_ok hs' s.snapshots
    (fun sn hsn => ⟨(hfits sn hsn).idLength, (hfits sn hsn).nameLength⟩) off
  obtain ⟨l₁, t₁, hw₁, -⟩ := pwrite_stored (s := s'.stored d l t) hs' snapshotsOffsetField (n := 8)
    (by decide) (Bytes.beByte 8 off)
  rw [BDRVQcowState.stored_data] at hw₁
  generalize hd₁ : d.write _ _ _ = d₁ at hw₁
  obtain ⟨l₂, t₂, hw₂, -⟩ := pwrite_stored (s := (s'.stored d l t).stored d₁ l₁ t₁) hs'
    nbSnapshotsField (n := 4) (by decide) (Bytes.beByte 4 s.snapshots.length)
  rw [BDRVQcowState.stored_data] at hw₂
  generalize hd₂ : d₁.write _ _ _ = d₂ at hw₂
  have hfree := blocksOnly_freeClusters s.snapshotsOffset s.snapshotsSize.toNat
    (((s'.stored d l t).stored d₁ l₁ t₁).stored d₂ l₂ t₂)
  generalize hs₄ : (freeClusters s.snapshotsOffset s.snapshotsSize.toNat
    (((s'.stored d l t).stored d₁ l₁ t₁).stored d₂ l₂ t₂)).2 = s₄ at hfree
  have hdata : ∀ p, s'.OutsideBlocks p → s₄.hd.data p = d₂ p := hfree.data
  have h60 : nbSnapshotsField = 60 := rfl
  have h64 : snapshotsOffsetField = 64 := rfl
  have h72 : headerLength = 72 := rfl
  refine ⟨{ s₄ with snapshotsOffset := off, snapshotsSize := toInt32 s.tableSize }, ?_, ?_, rfl, ?_,
    ?_, ?_⟩
  · rw [qcowWriteSnapshots, bind_apply, get_apply, bind_apply, halloc]
    simp only [bind_apply, hwrite, hw₁, hw₂, hs₄, Bool.not_true, Bool.false_eq_true, if_false,
      modify_apply, pure_apply]
    rfl
  · exact hfree.part.reliable.mpr hs'
  · have hword : s₄.hd.data.word 8 snapshotsOffsetField = d₂.word 8 snapshotsOffsetField :=
      Bytes.word_congr fun i hi => hdata _ (hfields _ (by omega) (by omega))
    rw [hword, ← hd₂, Bytes.word_write_of_disjoint (by omega), ← hd₁,
      Bytes.word_write_self (by simpa using hoff)]
  · have hword : s₄.hd.data.word 4 nbSnapshotsField = d₂.word 4 nbSnapshotsField :=
      Bytes.word_congr fun i hi => hdata _ (hfields _ (by omega) (by omega))
    have hlength := length_le_tableSize s
    rw [hword, ← hd₂, Bytes.word_write_self (by norm_num; omega)]
  · apply hholds.congr
    intro p hp hlt
    rw [hend] at hlt
    have hcluster := hheader (by omega)
    have h512 : 512 ≤ s.clusterSize := by
      rw [hg.clusterSize_eq]
      have := s.clusterSectors_pos
      omega
    show s₄.hd.data p = d p
    rw [hdata p (hblocks p hp hlt), ← hd₂, Bytes.write_apply_of_ge (by omega), ← hd₁,
      Bytes.write_apply_of_ge (by omega)]

/-- A table that fits an `int` is read back as it was written. -/
theorem snapshots_roundTrip : s.SnapshotsRoundTrip := by
  obtain ⟨s₁, hwrite, hs₁, hoff, hoffField, hnbField, hholds⟩ :=
    qcowWriteSnapshots_ok hg hs hfits hsize hapart
  have hwritten := qcowWriteSnapshots_size hwrite
  rw [toInt32_of_lt hsize] at hwritten
  have h8 : 8 ∣ (allocClusters s.tableSize s).1 :=
    (Dvd.intro _ hg.clusterSize_eq'.symm).trans (clusterSize_dvd_allocClusters _ _)
  have hend : snapshotsSizeOf s.snapshots (allocClusters s.tableSize s).1 =
      (allocClusters s.tableSize s).1 + s.tableSize := snapshotsSizeOf_add s.snapshots h8 0
  rw [BDRVQcowState.SnapshotsRoundTrip]
  by_cases hempty : s.snapshots = []
  · have hzero : s.tableSize = 0 := by
      rw [BDRVQcowState.tableSize, hempty]
      rfl
    refine ⟨s₁, { s₁.reopened with snapshots := [], snapshotsSize := 0 }, hwrite, ?_, hempty.symm, ?_,
      ?_, hwritten⟩
    · rw [hnbField, hempty]
      rfl
    · rw [hoff]
      exact hoffField
    · rw [hwritten, hzero]
      rfl
  · obtain ⟨t, hread⟩ := readSnapshotEntries_ok (s := s₁.reopened) hs₁ hfits hholds
    refine ⟨s₁, { s₁.reopened.ticked t with snapshots := s.snapshots, snapshotsSize := s.tableSize },
      hwrite, ?_, rfl, ?_, hwritten.symm, hwritten⟩
    · have hpos : s.snapshots.length ≠ 0 := by
        rwa [Ne, List.length_eq_zero_iff]
      have hstart : s₁.reopened.snapshotsOffset = (allocClusters s.tableSize s).1 := hoffField
      rw [hnbField, qcowReadSnapshots, if_neg hpos, bind_apply, get_apply, bind_apply, hstart, hread]
      have hstart' : (s₁.reopened.ticked t).snapshotsOffset = (allocClusters s.tableSize s).1 :=
        hoffField
      simp only [bind_apply, modify_apply, pure_apply, hstart', hend, Nat.add_sub_cancel_left,
        toInt32_of_lt hsize]
    · rw [hoff]
      exact hoffField

omit hsize hapart in
/-- The snapshots are read back as they were written exactly when the size of their
table is an `int`. -/
theorem snapshots_roundTrip_iff (hapart : s.tableSize < 2 ^ 31 → s.TableApart) :
    s.SnapshotsRoundTrip ↔ s.tableSize < 2 ^ 31 := by
  constructor
  · exact lt_of_roundTrip
  · intro hsize
    exact snapshots_roundTrip hg hs hfits hsize (hapart hsize)

end RoundTrip

/-- A new image of 512-byte clusters: the header, an L1 table, a refcount table and
a refcount block that counts all four. -/
def fourClusters (snapshots : List QCowSnapshot) : BDRVQcowState :=
  { blankState
      { data := fun k => if k = 1537 ∨ k = 1539 ∨ k = 1541 ∨ k = 1543 then 1 else 0
        len := 2048
        io := fun _ => none
        tick := 0 } plainCodec with
    clusterBits := 9
    refcountTableOffset := 1024
    refcountTableSize := 64
    refcountTable := fun i => if i = 0 then 1536 else 0
    snapshots }

/-- Records of three lengths: two are padded to a multiple of eight, and the last one is not. -/
def threeSnapshots : List QCowSnapshot :=
  [⟨512, 1, [49], [97], 0, 1000, 5, 77⟩, ⟨2048, 3, [50], List.replicate 13 98, 4096, 1001, 6, 78⟩,
   ⟨4096, 2, [49, 48], [], 0, 1002, 7, 79⟩]

theorem fourClusters_tableApart : (fourClusters threeSnapshots).TableApart := by
  have hts : (fourClusters threeSnapshots).tableSize = 146 := by decide
  have hr : (allocClusters 146 (fourClusters threeSnapshots)).1 = 2048 := by decide +kernel
  have hsize : (allocClusters 146 (fourClusters threeSnapshots)).2.refcountTableSize = 64 := by
    decide +kernel
  have hperBlock : (allocClusters 146 (fourClusters threeSnapshots)).2.refcountsPerBlock = 256 := by
    decide +kernel
  have htable : ∀ i < 64, (allocClusters 146 (fourClusters threeSnapshots)).2.refcountTable i = 0 ∨
      (allocClusters 146 (fourClusters threeSnapshots)).2.refcountTable i = 1536 := by
    decide +kernel
  have hcs : (fourClusters threeSnapshots).clusterSize = 512 := rfl
  have h72 : headerLength = 72 := rfl
  rw [← hts] at hr hsize hperBlock htable
  generalize hs : fourClusters threeSnapshots = s at *
  have houtside : ∀ p, p < 1536 ∨ 2048 ≤ p → (allocClusters s.tableSize s).2.OutsideBlocks p := by
    intro p hp i hi hne
    rw [hsize] at hi
    rw [hperBlock]
    have := htable i hi
    omega
  refine ⟨by omega, fun _ => by omega, fun p hp _ => ?_, fun p _ hlt => ?_⟩
  · exact houtside p (by omega)
  · exact houtside p (by omega)

theorem threeSnapshots_roundTrip : (fourClusters threeSnapshots).SnapshotsRoundTrip := by
  refine (snapshots_roundTrip_iff ⟨by decide, by decide⟩ (fun _ => rfl) (fun sn hsn => ?_)
    fun _ => fourClusters_tableApart).mpr (by decide)
  replace hsn : sn ∈ threeSnapshots := hsn
  simp only [threeSnapshots, List.mem_cons, List.not_mem_nil, or_false] at hsn
  rcases hsn with rfl | rfl | rfl
  all_goals exact ⟨by decide, by decide, by decide, by decide, by decide, by decide, by decide, by decide,
    by decide, by decide⟩

/-- A snapshot with strings of `n` bytes. -/
def longSnapshot (n : ℕ) : QCowSnapshot :=
  ⟨512, 1, List.replicate n 49, List.replicate n 97, 0, 1000, 5, 77⟩

theorem longSnapshot_fits {n : ℕ} (hn : n < 2 ^ 16) : (longSnapshot n).Fits := by
  have hid : (longSnapshot n).idStr.length = n := List.length_replicate
  have hname : (longSnapshot n).name.length = n := List.length_replicate
  refine ⟨?_, ?_, ?_, ?_, ?_, ?_, by rwa [hid], by rwa [hname], fun h => ?_, fun h => ?_⟩
  · exact (by decide : 512 < 2 ^ 64)
  · exact (by decide : 1 < 2 ^ 32)
  · exact (by decide : 0 < 2 ^ 32)
  · exact (by decide : 1000 < 2 ^ 32)
  · exact (by decide : 5 < 2 ^ 32)
  · exact (by decide : 77 < 2 ^ 64)
  · exact absurd (List.eq_of_mem_replicate h) (by decide)
  · exact absurd (List.eq_of_mem_replicate h) (by decide)

theorem le_tableSize_long (k n : ℕ) :
    k * (40 + n + n) ≤ (fourClusters (List.replicate k (longSnapshot n))).tableSize := by
  have hrecord : ∀ sn ∈ List.replicate k (longSnapshot n),
      40 + n + n ≤ snapshotHeaderSize + sn.idStr.length + sn.name.length := by
    intro sn hsn
    rw [List.eq_of_mem_replicate hsn, longSnapshot, List.length_replicate, List.length_replicate,
      snapshotHeaderSize]
  have hle := mul_le_snapshotsSizeOf hrecord 0
  rwa [List.length_replicate, Nat.zero_add] at hle

/-- The table of 16380 snapshots with the longest strings is larger than an `int`. -/
theorem longSnapshots_not_roundTrip :
    (∀ sn ∈ (fourClusters (List.replicate 16380 (longSnapshot 65535))).snapshots, sn.Fits) ∧
      ¬ (fourClusters (List.replicate 16380 (longSnapshot 65535))).SnapshotsRoundTrip := by
  constructor
  · intro sn hsn
    rw [List.eq_of_mem_replicate hsn]
    exact longSnapshot_fits (by decide)
  · intro h
    exact absurd (lt_of_le_of_lt (le_tableSize_long 16380 65535) (lt_of_roundTrip h)) (by decide)

end Ar7Qemu.Qcow2
