import Ar7Qemu.Qcow2.CreateOpen
import Ar7Qemu.Lib.Frame

/-! L1 indices of an opened image. The index of a guest offset and the number of
L1 entries that the size needs are both kept in an `int`. Proved: every offset of
an accepted image has an L1 entry of its own exactly when the size needs fewer
than `2 ^ 31` entries. -/

namespace Ar7Qemu.Qcow2

open Lib Block

/-- The result of an `int` operation, wrapped to 32 bits. -/
def intWrap (x : ℤ) : ℤ := toInt32 (x % 2 ^ 32).toNat

/-- The loop that sizes the new table in `grow_l1_table`, in `int` arithmetic. -/
def grownL1Size (minSize : ℤ) : ℕ → ℤ → Option ℤ
  | 0, _ => none
  | fuel + 1, size =>
    if minSize ≤ size then some size
    else grownL1Size minSize fuel ((intWrap (size * 3 + 1)).tdiv 2)

namespace BDRVQcowState

variable (s : BDRVQcowState)

/-- The L1 table has the entry, or `get_cluster_table` grows the table until it
has. -/
def L1Covers (l1Index : ℤ) : Prop :=
  l1Index < s.l1Size ∨ ∃ fuel size,
    grownL1Size (intWrap (l1Index + 1)) fuel s.l1Size = some size ∧ l1Index < size

/-- Every guest offset below `size` has an L1 index, in the table, that it shares
with its own L1 range only. -/
structure L1IndexSafe (size : ℕ) : Prop where
  nonneg : ∀ offset < size, 0 ≤ l1IndexOf s offset
  covered : ∀ offset < size, s.L1Covers (l1IndexOf s offset)
  injective : ∀ a < size, ∀ b < size, a / 2 ^ s.l1Bits ≠ b / 2 ^ s.l1Bits →
    l1IndexOf s a ≠ l1IndexOf s b

/-- The fields of the state that place a guest offset in the L1 table. -/
structure SameL1 (s' : BDRVQcowState) : Prop where
  clusterBits : s'.clusterBits = s.clusterBits
  l1Size : s'.l1Size = s.l1Size

instance : Std.Refl SameL1 := ⟨fun _ => ⟨rfl, rfl⟩⟩

instance : IsTrans BDRVQcowState SameL1 :=
  ⟨fun _ _ _ h h' => ⟨h'.clusterBits.trans h.clusterBits, h'.l1Size.trans h.l1Size⟩⟩

end BDRVQcowState

/-! ### What the names change -/

section Keeps

open BDRVQcowState (SameL1)

theorem keepsL1_pread (off n : ℕ) (buf : Bytes) : Keeps SameL1 (pread off n buf) := by
  intro s
  obtain ⟨ok, b, t, ht, -⟩ := pread_cases s off n buf
  rw [ht]
  exact ⟨rfl, rfl⟩

theorem keepsL1_readExtensions (endOffset fuel offset : ℕ) (format : List UInt8) :
    Keeps SameL1 (readExtensions endOffset fuel offset format) := by
  induction fuel generalizing offset format with
  | zero => exact keeps_pure _
  | succ fuel ih =>
    rw [readExtensions]
    split_ifs
    · exact keeps_pure _
    apply (keepsL1_pread _ _ _).bind
    rintro ⟨ok, ext⟩
    dsimp only
    split_ifs
    · exact keeps_pure _
    · exact keeps_pure _
    · exact keeps_pure _
    · apply (keepsL1_pread _ _ _).bind
      rintro ⟨ok, name⟩
      dsimp only
      split_ifs
      · exact keeps_pure _
      · exact ih _ _
    · exact ih _ _

theorem keepsL1_readSnapshotEntries (n offset : ℕ) : Keeps SameL1 (readSnapshotEntries n offset) := by
  induction n generalizing offset with
  | zero => exact keeps_pure _
  | succ n ih =>
    rw [readSnapshotEntries]
    apply (keepsL1_pread _ _ _).bind
    rintro ⟨ok, h⟩
    dsimp only
    split_ifs
    · exact keeps_pure _
    apply (keepsL1_pread _ _ _).bind
    rintro ⟨ok, idStr⟩
    dsimp only
    split_ifs
    · exact keeps_pure _
    apply (keepsL1_pread _ _ _).bind
    rintro ⟨ok, name⟩
    dsimp only
    split_ifs
    · exact keeps_pure _
    apply (ih _).bind
    rintro (_ | ⟨sns, stop⟩)
    · exact keeps_pure _
    · exact keeps_pure _

theorem keepsL1_readSnapshots (nbSnapshots : ℕ) : Keeps SameL1 (qcowReadSnapshots nbSnapshots) := by
  rw [qcowReadSnapshots]
  split_ifs
  · exact fun s => ⟨rfl, rfl⟩
  refine keeps_get.bind fun s => ?_
  apply (keepsL1_readSnapshotEntries _ _).bind
  rintro (_ | ⟨sns, stop⟩)
  · exact fun s => ⟨rfl, rfl⟩
  · exact fun s => ⟨rfl, rfl⟩

theorem keepsL1_openNames (h : QCowHeader) : Keeps SameL1 (openNames h) := by
  refine keeps_get.bind fun s => ?_
  apply (keepsL1_readExtensions _ _ _ _).bind
  rintro ⟨ret, format⟩
  dsimp only
  split_ifs
  · exact keeps_pure _
  · apply (keepsL1_pread _ _ _).bind
    rintro ⟨ok, name⟩
    dsimp only
    split_ifs
    · exact keeps_pure _
    apply (keepsL1_readSnapshots _).bind
    intro ok
    split_ifs
    · exact keeps_pure _
    · exact keeps_pure _
  · refine (keeps_pure _).bind ?_
    rintro ⟨ok, name⟩
    dsimp only
    split_ifs
    · exact keeps_pure _
    apply (keepsL1_readSnapshots _).bind
    intro ok
    split_ifs
    · exact keeps_pure _
    · exact keeps_pure _

end Keeps

/-! ### What an accepted header says -/

/-- What `qcow_open` checks of the header, and what it takes from it. -/
theorem openTables_accepted {s s' : BDRVQcowState} {h : QCowHeader}
    (hopen : openTables s = (some h, s')) :
    h = QCowHeader.ofBytes s.hd.data ∧ headerAccepted h = true ∧
      vmStateIndex h ≤ toInt32 h.l1Size ∧ 0 ≤ toInt32 h.l1Size ∧
      s'.clusterBits = h.clusterBits ∧ s'.l1Size = h.l1Size := by
  obtain ⟨ok, b, t, hread, hb⟩ := pread_cases s 0 headerLength fun _ => 0
  rw [openTables, bind_apply, hread] at hopen
  dsimp only at hopen
  cases ok with
  | false => cases hopen
  | true =>
    have hheader : QCowHeader.ofBytes b = QCowHeader.ofBytes s.hd.data := by
      rw [hb rfl]
      apply QCowHeader.ofBytes_congr
      intro i hi
      rw [← Nat.zero_add i, Bytes.write_apply_of_mem hi, Bytes.drop_apply]
    rw [hheader] at hopen
    generalize QCowHeader.ofBytes s.hd.data = h₀ at hopen ⊢
    by_cases haccept : headerAccepted h₀ = true
    swap
    · simp only [haccept, Bool.not_false, if_true] at hopen
      cases hopen
    by_cases hsize : toInt32 h₀.l1Size < vmStateIndex h₀ ∨ toInt32 h₀.l1Size < 0
    · simp only [haccept, hsize, Bool.not_true, Bool.false_eq_true, if_false, if_true, bind_apply,
        modify_apply] at hopen
      cases hopen
    simp only [haccept, hsize, Bool.not_true, Bool.false_eq_true, if_false, bind_apply,
      modify_apply] at hopen
    obtain ⟨ok₁, l1Table, t₁, hread₁, -⟩ := preadTable_cases (headerState h₀ (s.ticked t)) 8
      h₀.l1TableOffset h₀.l1Size fun _ => 0
    rw [hread₁] at hopen
    cases ok₁ with
    | false => cases hopen
    | true =>
      simp only [Bool.not_true, Bool.false_eq_true, if_false, bind_apply, modify_apply, get_apply]
        at hopen
      obtain ⟨ok₂, refcountTable, t₂, hread₂, -⟩ := preadTable_cases
        { (headerState h₀ (s.ticked t)).ticked t₁ with l1Table } 8 h₀.refcountTableOffset
        (h₀.refcountTableClusters * 2 ^ (h₀.clusterBits - 3) % 2 ^ 32) fun _ => 0
      erw [hread₂] at hopen
      cases ok₂ with
      | false => cases hopen
      | true =>
        cases hopen
        exact ⟨rfl, haccept, by omega, by omega, rfl, rfl⟩

theorem qcowOpen_accepted {hd : HostFile} {codec : Codec} {r : OpenResult}
    (hopen : qcowOpen hd codec = some r) :
    headerAccepted (QCowHeader.ofBytes hd.data) = true ∧
      vmStateIndex (QCowHeader.ofBytes hd.data) ≤ toInt32 (QCowHeader.ofBytes hd.data).l1Size ∧
      0 ≤ toInt32 (QCowHeader.ofBytes hd.data).l1Size ∧
      r.state.clusterBits = (QCowHeader.ofBytes hd.data).clusterBits ∧
      r.state.l1Size = (QCowHeader.ofBytes hd.data).l1Size := by
  rw [qcowOpen, qcowOpenBody, bind_apply] at hopen
  rcases htables : openTables (blankState hd codec) with ⟨_ | h, s⟩
  · rw [htables] at hopen
    cases hopen
  · obtain ⟨rfl, haccept, hvm, hpos, hbits, hsize⟩ := openTables_accepted htables
    rw [htables] at hopen
    dsimp only at hopen
    have hkeep := keepsL1_openNames (QCowHeader.ofBytes (blankState hd codec).hd.data) s
    rcases hnames : openNames (QCowHeader.ofBytes (blankState hd codec).hd.data) s with
      ⟨_ | ⟨file, format⟩, s'⟩
    · rw [hnames] at hopen
      cases hopen
    · rw [hnames] at hopen hkeep
      cases hopen
      exact ⟨haccept, hvm, hpos, hkeep.clusterBits.trans hbits, hkeep.l1Size.trans hsize⟩

/-! ### The indices -/

section Index

variable {s : BDRVQcowState} {h : QCowHeader}

theorem l1IndexOf_of_lt {offset : ℕ} (hlt : offset < 2 ^ 31 * 2 ^ s.l1Bits) :
    l1IndexOf s offset = (offset / 2 ^ s.l1Bits : ℕ) := by
  apply toInt32_of_lt
  exact Nat.div_lt_of_lt_mul (by rwa [Nat.mul_comm])

theorem not_l1Covers_last (hsize : s.l1Size < 2 ^ 31) : ¬ s.L1Covers (2 ^ 31 - 1) := by
  have hwrap : intWrap (2 ^ 31 - 1 + 1) = -2 ^ 31 := by decide
  rintro (hlt | ⟨fuel, size, hgrown, hlt⟩)
  · omega
  · cases fuel with
    | zero => cases hgrown
    | succ fuel =>
      rw [hwrap, grownL1Size, if_pos (by omega)] at hgrown
      have := Option.some.inj hgrown
      omega

theorem vmStateIndex_of_le (hbits : h.clusterBits ≤ 16)
    (hle : h.size ≤ (2 ^ 31 - 1) * 2 ^ (h.clusterBits + (h.clusterBits - 3))) :
    vmStateIndex h = ((h.size + 2 ^ (h.clusterBits + (h.clusterBits - 3)) - 1) /
      2 ^ (h.clusterBits + (h.clusterBits - 3)) : ℕ) := by
  have hpos := Nat.two_pow_pos (h.clusterBits + (h.clusterBits - 3))
  have hpow : 2 ^ (h.clusterBits + (h.clusterBits - 3)) ≤ 2 ^ 29 :=
    Nat.pow_le_pow_right (by norm_num) (by omega)
  rw [vmStateIndex]
  generalize 2 ^ (h.clusterBits + (h.clusterBits - 3)) = range at *
  rw [Nat.mod_eq_of_lt (by omega)]
  apply toInt32_of_lt
  apply Nat.div_lt_of_lt_mul
  omega

end Index

/-- Every guest offset of an accepted image has an L1 entry of its own exactly when
the size needs fewer than `2 ^ 31` of them. -/
theorem qcow_open_l1_index_iff {hd : HostFile} {codec : Codec} {r : OpenResult}
    (hopen : qcowOpen hd codec = some r) :
    r.state.L1IndexSafe (QCowHeader.ofBytes hd.data).size ↔
      (QCowHeader.ofBytes hd.data).size ≤ (2 ^ 31 - 1) * 2 ^ r.state.l1Bits := by
  obtain ⟨haccept, hvm, hpos, hbits, hsize⟩ := qcowOpen_accepted hopen
  have hword : (QCowHeader.ofBytes hd.data).l1Size < 256 ^ 4 := Bytes.word_lt _ _ _
  generalize QCowHeader.ofBytes hd.data = h at *
  have hl1 : h.l1Size < 2 ^ 31 := by
    rw [toInt32, Nat.mod_eq_of_lt (by omega)] at hpos
    split_ifs at hpos with hlt
    · exact hlt
    · omega
  constructor
  · intro hsafe
    by_contra hlt
    have hrange : 0 < 2 ^ r.state.l1Bits := Nat.two_pow_pos _
    have hcovered := hsafe.covered ((2 ^ 31 - 1) * 2 ^ r.state.l1Bits) (Nat.lt_of_not_le hlt)
    rw [l1IndexOf_of_lt (Nat.mul_lt_mul_of_pos_right (by norm_num) hrange),
      Nat.mul_div_cancel _ hrange] at hcovered
    exact not_l1Covers_last (by omega) hcovered
  · intro hle
    have hl1Bits : r.state.l1Bits = h.clusterBits + (h.clusterBits - 3) := by
      rw [BDRVQcowState.l1Bits, BDRVQcowState.l2Bits, hbits, Nat.add_comm]
    have hclusterBits : h.clusterBits ≤ 16 := by
      simp only [headerAccepted, Bool.and_eq_true, decide_eq_true_eq] at haccept
      omega
    rw [hl1Bits] at hle
    rw [vmStateIndex_of_le hclusterBits hle, toInt32_of_lt hl1, Nat.cast_le] at hvm
    rw [← hl1Bits] at hle hvm
    have hindex : ∀ offset < h.size,
        l1IndexOf r.state offset = (offset / 2 ^ r.state.l1Bits : ℕ) := by
      intro offset hlt
      apply l1IndexOf_of_lt
      omega
    refine ⟨fun offset hlt => ?_, fun offset hlt => .inl ?_, fun a ha b hb hne => ?_⟩
    · rw [hindex offset hlt]
      exact Int.natCast_nonneg _
    · rw [hindex offset hlt, hsize, Nat.cast_lt]
      refine lt_of_lt_of_le ?_ hvm
      rw [Nat.lt_iff_add_one_le, Nat.le_div_iff_mul_le (Nat.two_pow_pos _), Nat.add_mul, Nat.one_mul]
      have := Nat.div_mul_le_self offset (2 ^ r.state.l1Bits)
      omega
    · rw [hindex a ha, hindex b hb]
      exact_mod_cast hne

theorem newImage_l1_index : ∃ r, qcowOpen (qcowCreate2 ⟨8, none, none, false⟩) plainCodec = some r ∧
    r.state.L1IndexSafe 4096 := by
  have hopen : (qcowOpen (qcowCreate2 ⟨8, none, none, false⟩) plainCodec).isSome := by
    decide +kernel
  obtain ⟨r, hr⟩ := Option.isSome_iff_exists.mp hopen
  have hsize : (QCowHeader.ofBytes (qcowCreate2 ⟨8, none, none, false⟩).data).size = 4096 := by
    decide +kernel
  have hsafe := (qcow_open_l1_index_iff hr).mpr (by
    have := Nat.two_pow_pos r.state.l1Bits
    omega)
  rw [hsize] at hsafe
  exact ⟨r, hr, hsafe⟩

/-- An image with `2 ^ 32 + 1` L1 ranges and one L1 entry. -/
def wideImage : HostFile where
  data := QCowHeader.bytes {
    magic := qcowMagic
    version := qcowVersion
    backingFileOffset := 0
    backingFileSize := 0
    clusterBits := 9
    size := 2 ^ 47 + 2 ^ 15
    cryptMethod := 0
    l1Size := 1
    l1TableOffset := 512
    refcountTableOffset := 1024
    refcountTableClusters := 0
    nbSnapshots := 0
    snapshotsOffset := 0 }
  len := 1536
  io := fun _ => none
  tick := 0

/-- The wide image is accepted, and its last L1 range shares the entry of its first
one. -/
theorem wideImage_shares_entry : ∃ r, qcowOpen wideImage plainCodec = some r ∧
    ¬ r.state.L1IndexSafe (QCowHeader.ofBytes wideImage.data).size := by
  have hopen : (qcowOpen wideImage plainCodec).map (·.state.l1Bits) = some 15 := by
    decide +kernel
  obtain ⟨r, hr, hbits⟩ := Option.map_eq_some_iff.mp hopen
  refine ⟨r, hr, fun hsafe => hsafe.injective 0 (by decide +kernel) (2 ^ 47) (by decide +kernel) ?_ ?_⟩
  · rw [hbits]
    decide
  · rw [l1IndexOf, l1IndexOf, hbits]
    decide

end Ar7Qemu.Qcow2
