import Ar7Qemu.Qcow2.CreateLayout
import Ar7Qemu.Qcow2.RefcountLookup
import Ar7Qemu.Qcow2.Check
import Mathlib.Data.List.GetD
import Mathlib.Data.List.Nodup

/-! The round trip from `qcow_create2` to `qcow_open`. Proved: the driver state
that opening a new file gives, and exactly for which arguments the image is
accepted with the same size and names, a clean check and no refcount increment
outside the blocks. -/

namespace Ar7Qemu.Qcow2

open Lib Block

/-! ### Opening a reliable file -/

theorem QCowHeader.ofBytes_congr {b c : Bytes} (h : ∀ i < headerLength, b i = c i) :
    QCowHeader.ofBytes b = QCowHeader.ofBytes c := by
  have field : ∀ {w off : ℕ}, off + w ≤ headerLength → b.word w off = c.word w off :=
    fun hw => Bytes.word_congr fun i hi => h _ (by omega)
  simp only [QCowHeader.ofBytes, QCowHeader.mk.injEq]
  refine ⟨field ?_, field ?_, field ?_, field ?_, field ?_, field ?_, field ?_, field ?_, field ?_,
    field ?_, field ?_, field ?_, field ?_⟩ <;> decide

def tablesState (h : QCowHeader) (s : BDRVQcowState) (t : ℕ) : BDRVQcowState :=
  { headerState h s with
    hd := { s.hd with tick := t }
    l1Table := fun j => if j < h.l1Size then s.hd.data.word 8 (h.l1TableOffset + 8 * j) else 0
    refcountTable := fun j =>
      if j < h.refcountTableClusters * 2 ^ (h.clusterBits - 3) % 2 ^ 32
      then s.hd.data.word 8 (h.refcountTableOffset + 8 * j) else 0 }

/-- What `qcow_open` asks of a header before it looks at the names. -/
def TablesFit (h : QCowHeader) : Prop :=
  headerAccepted h = true ∧ vmStateIndex h ≤ toInt32 h.l1Size ∧ 0 ≤ toInt32 h.l1Size ∧
    8 * h.l1Size < 2 ^ 31 ∧ 8 * (h.refcountTableClusters * 2 ^ (h.clusterBits - 3) % 2 ^ 32) < 2 ^ 31

section OpenTables

variable {s : BDRVQcowState} (hs : s.Reliable)

include hs

theorem openTables_header : ∃ t, pread 0 headerLength (fun _ => 0) s =
    ((true, Bytes.write (fun _ => 0) 0 headerLength (s.hd.data.drop 0)), s.ticked t) ∧
    QCowHeader.ofBytes (Bytes.write (fun _ => 0) 0 headerLength (s.hd.data.drop 0)) =
      QCowHeader.ofBytes s.hd.data := by
  obtain ⟨t, ht⟩ := pread_ok hs 0 (n := headerLength) (by decide) fun _ => 0
  refine ⟨t, ht, QCowHeader.ofBytes_congr fun i hi => ?_⟩
  rw [← Nat.zero_add i, Bytes.write_apply_of_mem hi, Bytes.drop_apply]

/-- The first part of opening a reliable file. -/
theorem openTables_of_fit (hfit : TablesFit (QCowHeader.ofBytes s.hd.data)) :
    ∃ t, openTables s = (some (QCowHeader.ofBytes s.hd.data),
      tablesState (QCowHeader.ofBytes s.hd.data) s t) := by
  obtain ⟨t, ht, hh⟩ := openTables_header hs
  generalize QCowHeader.ofBytes s.hd.data = h at *
  obtain ⟨h1, h2, h3, h4, h5⟩ := hfit
  have hi : ¬ (toInt32 h.l1Size < vmStateIndex h ∨ toInt32 h.l1Size < 0) := by omega
  obtain ⟨t1, ht1⟩ := preadTable_ok (s := headerState h (s.ticked t)) hs
    h.l1TableOffset h4 fun _ => 0
  obtain ⟨t2, ht2⟩ := preadTable_ok (s := { (headerState h (s.ticked t)).ticked t1 with
    l1Table := fun j => if j < h.l1Size then s.hd.data.word 8 (h.l1TableOffset + 8 * j) else 0 }) hs
    h.refcountTableOffset h5 fun _ => 0
  refine ⟨t2, ?_⟩
  simp only [openTables, bind_apply, ht, hh, h1, modify_apply, hi, ht1, get_apply,
    Bool.not_true, Bool.false_eq_true, if_false]
  erw [ht2]
  rfl

theorem openTables_of_not_fit (hfit : ¬ TablesFit (QCowHeader.ofBytes s.hd.data)) :
    (openTables s).1 = none := by
  obtain ⟨t, ht, hh⟩ := openTables_header hs
  generalize QCowHeader.ofBytes s.hd.data = h at *
  by_cases h1 : headerAccepted h = true
  swap
  · simp [openTables, bind_apply, ht, hh, h1]
  by_cases hi : toInt32 h.l1Size < vmStateIndex h ∨ toInt32 h.l1Size < 0
  · simp [openTables, bind_apply, ht, hh, h1, hi]
  obtain ⟨b1, t1, ht1⟩ := preadTable_reliable (s := headerState h (s.ticked t)) hs 8
    h.l1TableOffset h.l1Size fun _ => 0
  by_cases h4 : 8 * h.l1Size < 2 ^ 31
  swap
  · rw [decide_eq_false h4] at ht1
    simp [openTables, bind_apply, ht, hh, h1, hi, ht1]
  obtain ⟨b2, t2, ht2⟩ := preadTable_reliable (s := { (headerState h (s.ticked t)).ticked t1 with
    l1Table := b1 }) hs 8 h.refcountTableOffset
      (h.refcountTableClusters * 2 ^ (h.clusterBits - 3) % 2 ^ 32) fun _ => 0
  have h5 : ¬ 8 * (h.refcountTableClusters * 2 ^ (h.clusterBits - 3) % 2 ^ 32) < 2 ^ 31 :=
    fun h5 => hfit ⟨h1, by omega, by omega, h4, h5⟩
  rw [decide_eq_false h5] at ht2
  simp only [openTables, bind_apply, ht, hh, h1, modify_apply, hi, ht1, get_apply,
    decide_eq_true h4, Bool.not_true, Bool.false_eq_true, if_false]
  erw [ht2]
  rfl

end OpenTables

/-! ### The names -/

/-- Format names of the drivers that `bdrv_init` registers. -/
def formatNames : List String :=
  ["raw", "host_device", "cow", "qcow", "vmdk", "cloop", "dmg", "bochs", "vpc", "vvfat", "qcow2",
    "parallels", "nbd"]

def asciiBytes (name : String) : List UInt8 := name.toList.map fun c => UInt8.ofNat c.toNat

theorem formatNames_wf {f : List UInt8} (hf : f ∈ formatNames.map asciiBytes) :
    f ≠ [] ∧ f.length ≤ 15 ∧ 0 ∉ f := by
  have : ∀ f ∈ formatNames.map asciiBytes, f ≠ [] ∧ f.length ≤ 15 ∧ 0 ∉ f := by decide
  exact this f hf

theorem cstring_eq {n : ℕ} {b : Bytes} {name : List UInt8} (h0 : 0 ∉ name) (hn : name.length ≤ n)
    (hb : ∀ i < n, b i = name.getD i 0) : cstring n b = name := by
  have hl : (List.range n).map b = name ++ List.replicate (n - name.length) 0 := by
    refine List.ext_getElem (by simp; omega) fun i h1 h2 => ?_
    have hi : i < n := by simpa using h1
    rw [List.getElem_map, List.getElem_range, hb i hi]
    by_cases h : i < name.length
    · rw [List.getElem_append_left h, List.getD_eq_getElem _ _ h]
    · rw [List.getElem_append_right (by omega), List.getElem_replicate,
        List.getD_eq_default _ _ (by omega)]
  rw [cstring, hl, List.takeWhile_append_of_pos]
  · cases n - name.length <;> simp [List.replicate_succ]
  · intro c hc
    have : c ≠ 0 := by rintro rfl; exact h0 hc
    simpa using this

theorem readExtensions_of_le {s : BDRVQcowState} {stop off : ℕ} (h : stop ≤ off) (fuel : ℕ)
    (format : List UInt8) : readExtensions stop fuel off format s = ((0, format), s) := by
  cases fuel <;> simp [readExtensions, h]

section Extension

variable {s : BDRVQcowState} (hs : s.Reliable) (fuel : ℕ) {stop off len : ℕ}
  (hmagic : s.hd.data.word 4 off = extMagicBackingFormat) (hlen : s.hd.data.word 4 (off + 4) = len)

include hs hmagic hlen

theorem readExtensions_header : ∃ b t, pread off 8 (fun _ => 0) s = ((true, b), s.ticked t) ∧
    Bytes.word b 4 0 = extMagicBackingFormat ∧ Bytes.word b 4 4 = len := by
  obtain ⟨t, ht⟩ := pread_ok hs off (n := 8) (by norm_num) fun _ => 0
  refine ⟨_, t, ht, ?_, ?_⟩
  · rw [← hmagic]
    refine Bytes.beVal_congr fun i hi => ?_
    rw [Bytes.drop_apply, Bytes.write_apply_of_mem (by omega), Bytes.drop_apply]
  · rw [← hlen]
    refine Bytes.beVal_congr fun i hi => ?_
    rw [Bytes.drop_apply, Bytes.drop_apply, ← Nat.zero_add (4 + i),
      Bytes.write_apply_of_mem (by omega), Bytes.drop_apply, Nat.add_assoc]

theorem readExtensions_of_long (ho : off < stop) (hl : 16 ≤ len) (format : List UInt8) :
    ∃ t, readExtensions stop (fuel + 1) off format s = ((2, format), s.ticked t) := by
  obtain ⟨b, t, ht, h1, h2⟩ := readExtensions_header hs hmagic hlen
  refine ⟨t, ?_⟩
  have hm : extMagicBackingFormat ≠ extMagicEnd := by decide
  simp [readExtensions, Nat.not_le.mpr ho, bind_apply, ht, h1, h2, hm, hl]

/-- A name of at most eight bytes is read back without its padding. -/
theorem readExtensions_of_short {f : List UInt8} (ho : off < stop) (hl : len = 8)
    (hstop : stop ≤ off + 16) (h0 : 0 ∉ f) (hf : f.length ≤ 8) (hb : ∀ i < 8, s.hd.data (off + 8 + i) = f.getD i 0)
    (format : List UInt8) :
    ∃ t, readExtensions stop (fuel + 1) off format s = ((0, f), s.ticked t) := by
  obtain ⟨b, t, ht, h1, h2⟩ := readExtensions_header hs hmagic hlen
  obtain ⟨t', ht'⟩ := pread_ok (s := s.ticked t) hs (off + 8) (n := 8) (by norm_num)
    fun _ => 0
  refine ⟨t', ?_⟩
  have hm : extMagicBackingFormat ≠ extMagicEnd := by decide
  have hc := cstring_eq (n := 8)
    (b := Bytes.write (fun _ => 0) 0 8 ((s.ticked t).hd.data.drop (off + 8))) h0 hf
    fun i hi => by
      rw [← hb i hi, ← Nat.zero_add i, Bytes.write_apply_of_mem hi, Bytes.drop_apply,
        Nat.zero_add]
      rfl
  subst hl
  simp only [readExtensions, bind_apply, ht, h1, h2, hm, ht', Nat.not_le.mpr ho, if_false,
    Bool.not_true, Bool.false_eq_true, if_true, hc, show ¬ 16 ≤ 8 by norm_num]
  rw [readExtensions_of_le (by simpa [pad8] using hstop)]
  rfl

end Extension

section Created

variable {o : CreateOptions} {name : List UInt8} (hname : o.backingFile = some name)
  (hlen : name.length ≤ 1023) (hnul : 0 ∉ name)
  (hformat : ∀ f ∈ o.backingFormat, f ∈ formatNames.map asciiBytes)

include hname hlen hformat

theorem create_bounds : (o.backingFile.getD []).length ≤ 1023 ∧
    (o.backingFormat.getD []).length ≤ 15 := by
  refine ⟨by simpa [hname] using hlen, ?_⟩
  rcases hf : o.backingFormat with _ | f
  · simp
  · simpa using (formatNames_wf (hformat f hf)).2.1

/-- The header of a new file as `qcow_open` sees it. -/
theorem create_ofBytes : QCowHeader.ofBytes (qcowCreate2 o).data =
    { magic := qcowMagic
      version := qcowVersion
      backingFileOffset := (createLayout o).backingFileOffset
      backingFileSize := name.length
      clusterBits := 12
      size := o.totalSize * 512 % 2 ^ 64
      cryptMethod := if o.encrypt then qcowCryptAes else 0
      l1Size := l1Entries o.totalSize % 2 ^ 32
      l1TableOffset := 4096
      refcountTableOffset := (createClusters o - 1) * 4096 % 2 ^ 64
      refcountTableClusters := 1
      nbSnapshots := 0
      snapshotsOffset := 0 } := by
  obtain ⟨hn, hf⟩ := create_bounds hname hlen hformat
  rw [QCowHeader.ofBytes_congr fun i hi => create_header hn hf hi, QCowHeader.ofBytes_bytes]
  have hsize : (createLayout o).backingFileSize = name.length := by simp [createLayout, hname]
  simp only [createHeader, hsize, createLayout_l1Size, createL1Size_eq, toInt32_emod,
    createLayout_l1TableOffset hn hf, createLayout_refcountTableOffset hn hf, QCowHeader.mk.injEq]
  have hoff : (createLayout o).backingFileOffset < 2 ^ 64 := by
    simp only [createLayout, hname, headerLength]
    split_ifs <;> (simp; try omega)
  refine ⟨by norm_num [qcowMagic], by norm_num [qcowVersion], Nat.mod_eq_of_lt hoff,
    Nat.mod_eq_of_lt (by omega), by norm_num [createClusterBits], trivial, ?_, Nat.mod_mod _ _,
    by norm_num, trivial, by norm_num, by norm_num, by norm_num⟩
  split_ifs <;> norm_num [qcowCryptAes]

theorem create_tablesFit : TablesFit (QCowHeader.ofBytes (qcowCreate2 o).data) ↔
    o.totalSize % 2 ^ 55 ≠ 0 ∧ l1Entries o.totalSize % 2 ^ 32 < 2 ^ 28 := by
  rw [create_ofBytes hname hlen hformat]
  have hv : vmStateIndex ⟨qcowMagic, qcowVersion, (createLayout o).backingFileOffset, name.length,
      12, o.totalSize * 512 % 2 ^ 64, if o.encrypt then qcowCryptAes else 0,
      l1Entries o.totalSize % 2 ^ 32, 4096, (createClusters o - 1) * 4096 % 2 ^ 64, 1, 0, 0⟩ =
      toInt32 (l1Entries o.totalSize % 2 ^ 32) := by
    rw [toInt32_mod]
    refine toInt32_congr ?_
    simp only [l1Entries]
    omega
  simp only [TablesFit, hv, headerAccepted, toInt32]
  have hcrypt : (if o.encrypt then qcowCryptAes else 0) ≤ qcowCryptAes := by split_ifs <;> decide
  simp only [Bool.and_eq_true, decide_eq_true_eq, hcrypt]
  constructor
  · rintro ⟨⟨⟨⟨⟨-, h⟩, -⟩, -⟩, -⟩, -, -, h', -⟩
    omega
  · rintro ⟨h, h'⟩
    have : 8 * (1 * 2 ^ (12 - 3) % 2 ^ 32) < 2 ^ 31 := by norm_num
    refine ⟨?_, le_rfl, ?_, by omega, this⟩
    · refine ⟨⟨⟨⟨⟨trivial, trivial⟩, by omega⟩, by norm_num⟩, by norm_num⟩, trivial⟩
    · split_ifs <;> omega

theorem create_names_at {i : ℕ} {l : List UInt8} (hl : createNames o (createLayout o) = l)
    (hi : i < l.length) : (qcowCreate2 o).data (headerLength + i) = l.getD i 0 := by
  obtain ⟨hn, hf⟩ := create_bounds hname hlen hformat
  subst hl
  exact create_names hn hf hi

omit hlen hformat in
theorem createNames_format {f : List UInt8} (hf : o.backingFormat = some f) (hne : f ≠ []) :
    ∃ a b : Fin 4 → UInt8, (∀ i, a i = Bytes.beByte 4 extMagicBackingFormat i) ∧
      (∀ i, b i = Bytes.beByte 4 ((f.length + 7) / 8 * 8) i) ∧
      createNames o (createLayout o) = a 0 :: a 1 :: a 2 :: a 3 :: b 0 :: b 1 :: b 2 :: b 3 ::
        (f ++ List.replicate ((f.length + 7) / 8 * 8 - f.length) 0 ++ name) := by
  have hext : (createLayout o).extLen = (f.length + 7) / 8 * 8 := by
    simp [createLayout, hname, hf]
  refine ⟨fun i => Bytes.beByte 4 extMagicBackingFormat i,
    fun i => Bytes.beByte 4 ((f.length + 7) / 8 * 8) i, fun _ => rfl, fun _ => rfl, ?_⟩
  rcases f with _ | ⟨c, f⟩
  · exact absurd rfl hne
  · simp only [createNames, hname, hf, hext]
    rfl

omit hname hlen hformat in
theorem getD_padded {f name : List UInt8} {k i : ℕ} (hi : i < f.length + k) :
    (f ++ List.replicate k 0 ++ name).getD i 0 = f.getD i 0 := by
  rw [List.getD_append _ _ _ _ (by simpa using hi)]
  by_cases h : i < f.length
  · rw [List.getD_append _ _ _ _ h]
  · rw [List.getD_append_right _ _ _ _ (by omega), List.getD_eq_default f _ (by omega),
      List.getD_replicate _ (by omega)]

/-- Reading the extensions of a new file. A format name that is longer than
eight bytes is padded to sixteen and refused. -/
theorem create_readExtensions {s : BDRVQcowState} (hs : s.Reliable)
    (hd : s.hd.data = (qcowCreate2 o).data) :
    ∃ t ret, readExtensions (createLayout o).backingFileOffset (createLayout o).backingFileOffset
        headerLength [] s = ((ret, if ret = 0 then o.backingFormat.getD [] else []), s.ticked t) ∧
      (ret = 0 ↔ (o.backingFormat.getD []).length ≤ 8) := by
  rcases hf : o.backingFormat with _ | f
  · refine ⟨s.hd.tick, 0, ?_, by simp⟩
    rw [readExtensions_of_le (by simp [createLayout, hname, hf])]
    simp
  obtain ⟨hne, hl, h0⟩ := formatNames_wf (hformat f hf)
  have hpos : 0 < f.length := List.length_pos_iff.mpr hne
  have hoff : (createLayout o).backingFileOffset = headerLength + 7 + (f.length + 7) / 8 * 8 + 1 := by
    simp [createLayout, hname, hf]
    omega
  obtain ⟨a, b, ha, hb, hnames⟩ := createNames_format hname hf hne
  have hdata := fun i => create_names_at hname hlen hformat (i := i) hnames
  simp only [List.length_cons, List.length_append, List.length_replicate] at hdata
  have hmagic : s.hd.data.word 4 headerLength = extMagicBackingFormat := by
    rw [← Bytes.beVal_beByte (w := 4) (v := extMagicBackingFormat) (by decide), hd]
    refine Bytes.beVal_congr fun i hi => ?_
    rw [Bytes.drop_apply, hdata i (by omega)]
    interval_cases i <;> exact ha _
  have hword : s.hd.data.word 4 (headerLength + 4) = (f.length + 7) / 8 * 8 := by
    rw [← Bytes.beVal_beByte (w := 4) (v := (f.length + 7) / 8 * 8) (by omega), hd]
    refine Bytes.beVal_congr fun i hi => ?_
    rw [Bytes.drop_apply, Nat.add_assoc, hdata (4 + i) (by omega)]
    interval_cases i <;> exact hb _
  rw [hoff]
  by_cases hshort : f.length ≤ 8
  · have h8 : (f.length + 7) / 8 * 8 = 8 := by omega
    obtain ⟨t, ht⟩ := readExtensions_of_short hs (headerLength + 7 + (f.length + 7) / 8 * 8)
      hmagic hword (show headerLength < headerLength + 7 + (f.length + 7) / 8 * 8 + 1 by omega) h8
      (by omega) h0 hshort (fun i hi => by
        rw [hd, Nat.add_assoc, hdata (8 + i) (by omega), show 8 + i = i + 8 by omega]
        exact getD_padded (by omega)) []
    exact ⟨t, 0, by simpa using ht, by simpa using hshort⟩
  · obtain ⟨t, ht⟩ := readExtensions_of_long hs (headerLength + 7 + (f.length + 7) / 8 * 8)
      hmagic hword (show headerLength < headerLength + 7 + (f.length + 7) / 8 * 8 + 1 by omega)
      (by omega) []
    exact ⟨t, 2, by simpa using ht, by simpa using hshort⟩

/-- The backing file name of a new file. -/
theorem create_name {i : ℕ} (hi : i < name.length) :
    (qcowCreate2 o).data ((createLayout o).backingFileOffset + i) = name.getD i 0 := by
  rcases hf : o.backingFormat with _ | f
  · have hoff : (createLayout o).backingFileOffset = headerLength := by
      simp [createLayout, hname, hf]
    rw [hoff]
    exact create_names_at hname hlen hformat (by simp [createNames, hname, hf]) hi
  · obtain ⟨hne, -, -⟩ := formatNames_wf (hformat f hf)
    obtain ⟨a, b, -, -, hnames⟩ := createNames_format hname hf hne
    have hoff : (createLayout o).backingFileOffset = headerLength + (8 + (f.length + 7) / 8 * 8) := by
      simp [createLayout, hname, hf]
      omega
    rw [hoff, Nat.add_assoc, create_names_at hname hlen hformat hnames (by simp; omega),
      show 8 + (f.length + 7) / 8 * 8 + i = (f.length + 7) / 8 * 8 + i + 8 by omega]
    refine (List.getD_append_right _ _ _ _ (by simp; omega)).trans ?_
    congr 1
    simp
    omega

include hnul

/-- The second part of opening a new file. -/
theorem create_openNames {s : BDRVQcowState} (hs : s.Reliable)
    (hd : s.hd.data = (qcowCreate2 o).data) :
    ∃ t, openNames (QCowHeader.ofBytes (qcowCreate2 o).data) s =
      if (o.backingFormat.getD []).length ≤ 8
      then (some (name, o.backingFormat.getD []),
        { s.ticked t with snapshots := [], snapshotsSize := 0 })
      else (none, s.ticked t) := by
  have hne : (createLayout o).backingFileOffset ≠ 0 := by
    simp [createLayout, hname, headerLength]
  obtain ⟨t, ret, ht, hret⟩ := create_readExtensions hname hlen hformat hs hd
  rw [create_ofBytes hname hlen hformat]
  by_cases h0 : ret = 0
  · obtain ⟨t', ht'⟩ := pread_ok (s := s.ticked t) hs (createLayout o).backingFileOffset
      (n := name.length) (by omega) fun _ => 0
    refine ⟨t', ?_⟩
    have hc := cstring_eq (n := name.length) (b := Bytes.write (fun _ => 0) 0 name.length
      (s.hd.data.drop (createLayout o).backingFileOffset)) hnul le_rfl fun i hi => by
        rw [← create_name hname hlen hformat hi, ← hd, ← Nat.zero_add i,
          Bytes.write_apply_of_mem hi, Nat.zero_add]
        rfl
    rw [if_pos (hret.mp h0)]
    subst h0
    simp [openNames, bind_apply, hne, ht, Nat.min_eq_left hlen, ht', qcowReadSnapshots, hc]
  · refine ⟨t, ?_⟩
    rw [if_neg (fun h => h0 (hret.mpr h))]
    simp [openNames, bind_apply, hne, ht, h0]

end Created

/-! ### Checking a new image -/

/-- The table of a check that has counted the first `a` clusters once each. -/
def counted (a : ℕ) : CheckState := ⟨fun k => if k < a then 1 else 0, 0⟩

theorem incClusters_counted {nbClusters m a : ℕ} (h : a + m ≤ nbClusters) :
    incClusters nbClusters m a (counted a) = counted (a + m) := by
  induction m generalizing a with
  | zero => rfl
  | succ m ih =>
    have hstep : (⟨Function.update (counted a).counts a 1, 0⟩ : CheckState) = counted (a + 1) := by
      simp only [counted, CheckState.mk.injEq, and_true]
      funext k
      rcases lt_trichotomy k a with hk | rfl | hk
      · simp [Function.update_of_ne hk.ne, hk, Nat.lt_succ_of_lt hk]
      · simp
      · simp [Function.update_of_ne hk.ne', Nat.not_lt.mpr hk.le]
        omega
    have hv : ((counted a).counts a + 1) % 2 ^ 16 = 1 := by simp [counted]
    have he : (counted a).errors = 0 := rfl
    simp only [incClusters, Nat.not_le.mpr (show a < nbClusters by omega), if_false, hv, he,
      one_ne_zero, Nat.add_zero, hstep]
    rw [ih (by omega), Nat.add_assoc, Nat.add_comm 1 m]

theorem incRefcounts_counted {s : BDRVQcowState} (hb : s.clusterBits = 12)
    {nbClusters off a m size : ℕ} (hoff : off = a * 4096) (h : a + m ≤ nbClusters)
    (hm : (a * 4096 + size + 4095) / 4096 = a + m) :
    incRefcounts s nbClusters off size (counted a) = counted (a + m) := by
  subst hoff
  have hc : s.clusterSize = 4096 := by rw [BDRVQcowState.clusterSize, hb]; norm_num
  by_cases h0 : size = 0
  · obtain rfl : m = 0 := by omega
    simp [incRefcounts, h0]
  · have h1 : a * 4096 / 4096 = a := Nat.mul_div_cancel _ (by norm_num)
    have h2 : (a * 4096 + size - 1) / 4096 + 1 - a = m := by omega
    rw [incRefcounts, if_neg h0]
    simp only [hc, h1, h2]
    exact incClusters_counted h

theorem checkL1Entries_zero {s : BDRVQcowState} {nbClusters n i : ℕ} {check : Bool} {t : ℕ → ℕ}
    (ht : ∀ j, t j = 0) (c : CheckState) :
    checkL1Entries nbClusters check t n i c s = ((true, c), s) := by
  induction n generalizing i with
  | zero => rfl
  | succ n ih => simp only [checkL1Entries, ht, if_true, ih]

theorem checkBlocks_counted {s : BDRVQcowState} (hb : s.clusterBits = 12) {nbClusters a r n i : ℕ}
    (h : a + r ≤ nbClusters)
    (ht : ∀ j < i + n, s.refcountTable j = if j < r then (a + j) * 4096 else 0) (ha : 0 < a)
    (hn : r ≤ i + n) :
    checkBlocks s nbClusters n i (counted (a + min i r)) = counted (a + r) := by
  have hc : s.clusterSize = 4096 := by rw [BDRVQcowState.clusterSize, hb]; norm_num
  induction n generalizing i with
  | zero => rw [Nat.min_eq_right (show r ≤ i from hn)]; rfl
  | succ n ih =>
    rw [checkBlocks, ← ih (i := i + 1) (fun j hj => ht j (by omega)) (by omega)]
    simp only [ht i (by omega)]
    rcases Nat.lt_or_ge i r with hir | hir
    · have h0 : (a + i) * 4096 ≠ 0 := by simp; omega
      rw [if_pos hir, if_neg h0, hc, Nat.min_eq_left hir.le, Nat.min_eq_left hir,
        incRefcounts_counted hb (m := 1) rfl (by omega) (by omega), Nat.add_assoc]
    · rw [if_neg (Nat.not_lt.mpr hir), if_pos rfl, Nat.min_eq_right hir,
        Nat.min_eq_right (by omega)]

theorem compareRefcounts_ok {s : BDRVQcowState} (hs : s.Reliable) (hb : s.clusterBits ≤ 30)
    (hc : s.RefcountCacheOk) {n i : ℕ} {c : CheckState}
    (h : ∀ k < i + n, s.diskRefcount k = c.counts k) : (compareRefcounts n i c s).1 = c := by
  induction n generalizing i s with
  | zero => rfl
  | succ n ih =>
    obtain ⟨b, o, t, hg, hc', -⟩ := getRefcount_ok hs hb hc i
    rw [compareRefcounts, bind_apply, hg]
    have he : c.errorIf (s.diskRefcount i ≠ c.counts i) = c := by
      simp [CheckState.errorIf, h i (by omega)]
    simp only [he]
    exact ih (s := s.recached b o t) hs hb hc' (i := i + 1) fun k hk => h k (by omega)

/-- `check_refcounts` on an image of a header, an empty L1 table, a refcount
table and refcount blocks that follow each other, with every count one. -/
theorem checkRefcounts_new {s : BDRVQcowState} {n r L : ℕ} (hs : s.Reliable)
    (hcache : s.RefcountCacheOk) (hb : s.clusterBits = 12) (h1 : s.l1Size = L)
    (h2 : s.l1TableOffset = 4096) (h3 : s.refcountTableOffset = (n - 1) * 4096)
    (h4 : s.refcountTableSize = 512) (h5 : s.hd.len = (n + r) * 4096) (hsnap : s.snapshots = [])
    (hsnaps : s.snapshotsSize = 0) (hl : L < 2 ^ 28) (hclusters : n = (L + 511) / 512 + 2)
    (hr512 : r ≤ 512) (hl1 : ∀ j < L, s.hd.data.word 8 (4096 + 8 * j) = 0)
    (hrt : ∀ j < 512, s.refcountTable j = if j < r then (n + j) * 4096 else 0)
    (hdisk : ∀ k < n + r, s.diskRefcount k = 1) : (checkRefcounts s).1 = 0 := by
  have hcs : s.clusterSize = 4096 := by rw [BDRVQcowState.clusterSize, hb]; norm_num
  have hnb : s.sizeToClusters s.hd.len = n + r := by
    rw [BDRVQcowState.sizeToClusters, hcs, h5]
    omega
  obtain ⟨t1, ht1⟩ := preadTable_ok hs 4096 (w := 8) (n := L) (by omega) fun _ => 0
  have hzero : ∀ j, (if j < L then s.hd.data.word 8 (4096 + 8 * j) else 0) = 0 := fun j => by
    split_ifs with hj
    · exact hl1 j hj
    · rfl
  simp only [hzero] at ht1
  have e0 : (⟨fun _ => 0, 0⟩ : CheckState) = counted 0 := by simp [counted]
  have e1 : incRefcounts s (n + r) 0 4096 (counted 0) = counted 1 :=
    incRefcounts_counted hb (a := 0) (m := 1) (by norm_num) (by omega) (by norm_num)
  have e2 : incRefcounts s (n + r) 4096 (L * 8) (counted 1) = counted (n - 1) := by
    rw [incRefcounts_counted hb (a := 1) (m := n - 2) (by norm_num) (by omega) (by omega),
      show 1 + (n - 2) = n - 1 by omega]
  have hL1 : checkRefcountsL1 (n + r) 4096 L true (counted 1) s =
      ((true, counted (n - 1)), s.ticked t1) := by
    simp only [checkRefcountsL1, bind_apply, get_apply, e2, ht1]
    exact checkL1Entries_zero (fun _ => rfl) _
  have hb' : (s.ticked t1).clusterBits = 12 := hb
  have e3 : incRefcounts (s.ticked t1) (n + r) ((n - 1) * 4096) (512 * 8) (counted (n - 1)) =
      counted n := by
    rw [incRefcounts_counted hb' (m := 1) rfl (by omega) (by omega), show n - 1 + 1 = n by omega]
  have e4 : checkBlocks (s.ticked t1) (n + r) 512 0 (counted n) = counted (n + r) :=
    checkBlocks_counted hb' (a := n) (r := r) (i := 0) le_rfl
      (fun j hj => hrt j (by omega)) (by omega) (by omega)
  have e5 : (compareRefcounts (n + r) 0 (counted (n + r)) (s.ticked t1)).1 = counted (n + r) :=
    compareRefcounts_ok (s := s.ticked t1) (i := 0) hs (by omega) hcache fun k hk => by
      have hk' : k < n + r := by omega
      simp only [counted, if_pos hk']
      exact hdisk k hk'
  have hfinal : checkRefcounts s = (((compareRefcounts (n + r) 0 (counted (n + r))
      (s.ticked t1)).1.errors : ℤ), (compareRefcounts (n + r) 0 (counted (n + r)) (s.ticked t1)).2) := by
    simp only [checkRefcounts, bind_apply, get_apply, hnb, hcs, e0, e1, h1, h2, hL1]
    simp only [Bool.not_true, Bool.false_eq_true, if_false, bind_apply, hsnap, checkSnapshots,
      pure_apply, get_apply]
    rw [show (s.ticked t1).snapshotsSize = 0 from hsnaps, Int.toNat_zero,
      show (s.ticked t1).refcountTableSize = 512 from h4,
      show (s.ticked t1).refcountTableOffset = (n - 1) * 4096 from h3,
      show incRefcounts (s.ticked t1) (n + r) (s.ticked t1).snapshotsOffset 0 (counted (n - 1)) =
        counted (n - 1) from rfl, e3, e4]
  rw [hfinal, e5]
  rfl

@[simp] theorem blankState_hd (hd : HostFile) (codec : Codec) : (blankState hd codec).hd = hd := rfl

/-- The driver state after opening a new file. -/
def freshState (o : CreateOptions) (codec : Codec) (t : ℕ) : BDRVQcowState :=
  { tablesState (QCowHeader.ofBytes (qcowCreate2 o).data) (blankState (qcowCreate2 o) codec) t with
    snapshots := []
    snapshotsSize := 0 }

section Fresh

variable {o : CreateOptions} {name : List UInt8} (hname : o.backingFile = some name)
  (hlen : name.length ≤ 1023) (hnul : 0 ∉ name)
  (hformat : ∀ f ∈ o.backingFormat, f ∈ formatNames.map asciiBytes)

include hname hlen hformat

section Open

include hnul

theorem qcowOpen_create (codec : Codec) :
    ∃ t, qcowOpen (qcowCreate2 o) codec =
      if o.totalSize % 2 ^ 55 ≠ 0 ∧ l1Entries o.totalSize % 2 ^ 32 < 2 ^ 28 ∧
        (o.backingFormat.getD []).length ≤ 8
      then some ⟨freshState o codec t, name, o.backingFormat.getD []⟩ else none := by
  have hs : (blankState (qcowCreate2 o) codec).Reliable := fun _ => rfl
  have hfit := create_tablesFit hname hlen hformat
  by_cases h : TablesFit (QCowHeader.ofBytes (qcowCreate2 o).data)
  · obtain ⟨t, ht⟩ := openTables_of_fit hs h
    obtain ⟨t', ht'⟩ := create_openNames hname hlen hnul hformat
      (s := tablesState (QCowHeader.ofBytes (qcowCreate2 o).data)
        (blankState (qcowCreate2 o) codec) t) hs rfl
    refine ⟨t', ?_⟩
    have hbody : qcowOpenBody (blankState (qcowCreate2 o) codec) =
        openNames (QCowHeader.ofBytes (qcowCreate2 o).data)
          (tablesState (QCowHeader.ofBytes (qcowCreate2 o).data)
            (blankState (qcowCreate2 o) codec) t) := by
      rw [qcowOpenBody, bind_apply, ht]
      rfl
    obtain ⟨h1, h2⟩ := hfit.mp h
    rw [qcowOpen, hbody, ht']
    by_cases h8 : (o.backingFormat.getD []).length ≤ 8
    · rw [if_pos h8, if_pos ⟨h1, h2, h8⟩]
      rfl
    · rw [if_neg h8, if_neg fun h => h8 h.2.2]
  · refine ⟨0, ?_⟩
    have hnone := openTables_of_not_fit hs h
    have hbody : (qcowOpenBody (blankState (qcowCreate2 o) codec)).1 = none := by
      rw [qcowOpenBody, bind_apply, hnone]
      rfl
    rw [if_neg fun h' => h (hfit.mpr ⟨h'.1, h'.2.1⟩), qcowOpen]
    generalize hr : qcowOpenBody (blankState (qcowCreate2 o) codec) = r at hbody
    obtain ⟨a, b⟩ := r
    obtain rfl : a = none := hbody
    rfl

end Open

variable {codec : Codec} {t : ℕ} (hl : l1Entries o.totalSize % 2 ^ 32 < 2 ^ 28)

include hl

omit hname hlen hformat in
theorem createL1Size_toNat : (createL1Size o.totalSize).toNat = l1Entries o.totalSize % 2 ^ 32 := by
  rw [createL1Size_eq, toInt32, if_pos (by omega), Int.toNat_natCast]

omit hname hlen hformat in
theorem createClusters_le : createClusters o ≤ 2 ^ 19 + 2 := by
  rw [createClusters, createL1Size_toNat hl]
  omega

theorem create_l1Table {j : ℕ} (hj : j < l1Entries o.totalSize % 2 ^ 32) :
    (qcowCreate2 o).data.word 8 (4096 + 8 * j) = 0 := by
  obtain ⟨hn, hf⟩ := create_bounds hname hlen hformat
  have h0 := createLayout_names hn hf
  have h2 := createLayout_refcountTableOffset hn hf
  refine (Bytes.beVal_congr (c := fun _ => 0) fun i hi => create_zero (by omega) ?_).trans (by rfl)
  rw [h2, createClusters, createL1Size_toNat hl]
  omega

theorem freshState_refcountTable {j : ℕ} (hj : j < 512) : (freshState o codec t).refcountTable j =
    if j < (createLayout o).refClusters then (createClusters o + j) * 4096 else 0 := by
  obtain ⟨hn, hf⟩ := create_bounds hname hlen hformat
  have hc := createClusters_le hl
  have hlt : (createClusters o - 1) * 4096 < 2 ^ 64 := by omega
  simp only [freshState, tablesState, create_ofBytes hname hlen hformat, Nat.mod_eq_of_lt hlt]
  rw [if_pos (by norm_num; exact hj), ← createLayout_refcountTableOffset hn hf]
  have hend : (createLayout o).refcountBlockOffset + (createLayout o).refClusters * 4096 < 2 ^ 64 := by
    rw [createLayout_refcountBlockOffset hn hf, createLayout_refClusters hn hf]
    linarith [Nat.div_le_self (createClusters o) 2048]
  rw [blankState_hd, create_refcountTable hj hend, createLayout_refcountBlockOffset hn hf, Nat.add_mul]

/-- Every cluster of a new image is stored with the count one, when the refcount
blocks reach over themselves. -/
theorem freshState_diskRefcount {k : ℕ}
    (hr : createClusters o + (createLayout o).refClusters ≤ (createLayout o).refClusters * 2048)
    (hk : k < createClusters o + (createLayout o).refClusters) :
    (freshState o codec t).diskRefcount k = 1 := by
  obtain ⟨hn, hf⟩ := create_bounds hname hlen hformat
  have hc := createClusters_le hl
  have hrc := createLayout_refClusters hn hf
  have hR : (freshState o codec t).refcountsPerBlock = 2048 := by
    simp [BDRVQcowState.refcountsPerBlock, freshState, tablesState, headerState,
      create_ofBytes hname hlen hformat]
  have hsize : (freshState o codec t).refcountTableSize = 512 := by
    simp [freshState, tablesState, headerState, create_ofBytes hname hlen hformat]
  have hidx : k / 2048 < (createLayout o).refClusters := by omega
  have hcount : (createUpdates (createLayout o)).count k = 1 := by
    rw [createUpdates_eq hn hf, List.count_eq_one_of_mem List.nodup_range' (by simpa using hk)]
  have hstored := create_refcounts (o := o) (k := k) (by omega) (by rw [hcount]; norm_num)
  simp only [BDRVQcowState.diskRefcount, hR, hsize]
  rw [if_neg (by omega), freshState_refcountTable hname hlen hformat hl (by omega), if_pos hidx,
    if_neg (by have := two_le_createClusters (o := o); simp; omega)]
  have haddr : (createClusters o + k / 2048) * 4096 + 2 * (k % 2048) =
      (createLayout o).refcountBlockOffset + 2 * k := by
    rw [createLayout_refcountBlockOffset hn hf]
    linarith [Nat.div_add_mod k 2048]
  rw [haddr, ← hcount, ← hstored]
  rfl

theorem freshState_fields : (freshState o codec t).clusterBits = 12 ∧
    (freshState o codec t).l1Size = l1Entries o.totalSize % 2 ^ 32 ∧
    (freshState o codec t).l1TableOffset = 4096 ∧
    (freshState o codec t).refcountTableOffset = (createClusters o - 1) * 4096 ∧
    (freshState o codec t).refcountTableSize = 512 ∧
    (freshState o codec t).hd.len = (createClusters o + (createLayout o).refClusters) * 4096 := by
  obtain ⟨hn, hf⟩ := create_bounds hname hlen hformat
  have hc := createClusters_le hl
  have hlt : (createClusters o - 1) * 4096 < 2 ^ 64 := by omega
  have hend : (qcowCreate2 o).len =
      (createLayout o).refcountBlockOffset + (createLayout o).refClusters * 2 ^ createClusterBits := by
    simp only [qcowCreate2]
  simp only [freshState, tablesState, headerState, create_ofBytes hname hlen hformat, blankState_hd]
  refine ⟨trivial, trivial, trivial, Nat.mod_eq_of_lt hlt, by norm_num, ?_⟩
  rw [hend, createLayout_refcountBlockOffset hn hf, createClusterSize, Nat.add_mul]

/-- `check_refcounts` reports no errors on a new image. -/
theorem freshState_check
    (hr : createClusters o + (createLayout o).refClusters ≤ (createLayout o).refClusters * 2048) :
    (checkRefcounts (freshState o codec t)).1 = 0 := by
  obtain ⟨hn, hf⟩ := create_bounds hname hlen hformat
  obtain ⟨hb, h1, h2, h3, h4, h5⟩ : (freshState o codec t).clusterBits = 12 ∧ _ :=
    freshState_fields hname hlen hformat hl
  have hclusters : createClusters o = (l1Entries o.totalSize % 2 ^ 32 + 511) / 512 + 2 := by
    rw [createClusters, createL1Size_toNat hl]
  have hr512 : (createLayout o).refClusters ≤ 512 := by
    rw [createLayout_refClusters hn hf]
    have := createClusters_le hl
    omega
  exact checkRefcounts_new (fun _ => rfl) (fun h => absurd rfl h) hb h1 h2 h3 h4 h5 rfl rfl hl
    hclusters hr512 (fun j hj => create_l1Table hname hlen hformat hl hj)
    (fun j hj => freshState_refcountTable hname hlen hformat hl hj)
    (fun k hk => freshState_diskRefcount hname hlen hformat hl hr hk)

end Fresh

/-! ### The round trip -/

/-- The file written by `qcow_create2` opens with the same size and names, passes
the check, and no increment of `create_refcount_update` left the refcount blocks. -/
def RoundTrip (o : CreateOptions) (codec : Codec) : Prop :=
  (∃ r, qcowOpen (qcowCreate2 o) codec = some r ∧ r.state.totalSectors = o.totalSize ∧
    r.backingFile = o.backingFile.getD [] ∧ r.backingFormat = o.backingFormat.getD [] ∧
    (checkRefcounts r.state).1 = 0) ∧
  ∀ k ∈ createUpdates (createLayout o),
    k < (createLayout o).refClusters * 2 ^ (createClusterBits - 1)

/-- Clusters before the refcount blocks, from the size alone. -/
def clustersFor (totalSize : ℕ) : ℕ := (l1Entries totalSize % 2 ^ 32 + 511) / 512 + 2

/-- The format name fits eight bytes, the size in bytes fits 64 bits and its L1
table an `int` byte count, and the refcount blocks that cover what precedes them
reach over themselves. -/
def CreateFits (o : CreateOptions) : Prop :=
  (o.backingFormat.getD []).length ≤ 8 ∧ o.totalSize < 2 ^ 55 ∧
    l1Entries o.totalSize % 2 ^ 32 < 2 ^ 28 ∧
    clustersFor o.totalSize % 2048 + clustersFor o.totalSize / 2048 < 2048

/-- Exactly when a new image survives the round trip. -/
theorem create_open_roundTrip_iff (o : CreateOptions) (codec : Codec) (name : List UInt8)
    (hsize : 1 ≤ o.totalSize) (hname : o.backingFile = some name) (hlen : name.length ≤ 1023)
    (hnul : 0 ∉ name) (hformat : ∀ f ∈ o.backingFormat, f ∈ formatNames.map asciiBytes) :
    RoundTrip o codec ↔ CreateFits o := by
  obtain ⟨hn, hf⟩ := create_bounds hname hlen hformat
  obtain ⟨t, ht⟩ := qcowOpen_create hname hlen hnul hformat codec
  have htotal : (freshState o codec t).totalSectors = o.totalSize % 2 ^ 55 := by
    simp only [freshState, tablesState, headerState, create_ofBytes hname hlen hformat]
    omega
  have hclusters : l1Entries o.totalSize % 2 ^ 32 < 2 ^ 28 →
      createClusters o = clustersFor o.totalSize := fun hl => by
    rw [createClusters, createL1Size_toNat hl, clustersFor]
  have hblocks : (2 : ℕ) ^ (createClusterBits - 1) = 2048 := by norm_num [createClusterBits]
  have hrc := createLayout_refClusters hn hf
  constructor
  · rintro ⟨⟨r, hr, htot, -⟩, hin⟩
    rw [ht] at hr
    split_ifs at hr with hfit
    obtain ⟨-, hl, h8⟩ := hfit
    obtain rfl := Option.some.inj hr
    replace htot : o.totalSize % 2 ^ 55 = o.totalSize := htotal.symm.trans htot
    have hlast := hin (createClusters o + (createLayout o).refClusters - 1)
      (by rw [createUpdates_eq hn hf]; simp; omega)
    rw [hblocks, hrc, hclusters hl] at hlast
    exact ⟨h8, by omega, hl, by omega⟩
  · rintro ⟨h8, hT, hl, hself⟩
    have hreach : createClusters o + (createLayout o).refClusters ≤
        (createLayout o).refClusters * 2048 := by
      rw [hrc, hclusters hl]
      omega
    rw [if_pos ⟨by omega, hl, h8⟩] at ht
    refine ⟨⟨_, ht, by rw [htotal]; omega, by simp [hname], rfl, ?_⟩, fun k hk => ?_⟩
    · exact freshState_check hname hlen hformat hl hreach
    · rw [createUpdates_eq hn hf, List.mem_range'_1] at hk
      rw [hblocks]
      omega

/-- A codec that compresses nothing and a cipher that changes nothing. -/
def plainCodec : Codec where
  deflate := fun _ _ => .full
  inflate := fun _ _ => (false, fun _ => 0)
  encrypt := fun _ b => b
  decrypt := fun _ b => b

theorem create_open_roundTrip_qcow2 :
    RoundTrip ⟨1, some (asciiBytes "base.img"), some (asciiBytes "qcow2"), true⟩ plainCodec :=
  (create_open_roundTrip_iff _ _ _ (by norm_num) rfl (by decide) (by decide)
    (fun f hf => by cases hf; decide)).mpr
    ⟨by decide, by norm_num, by norm_num [l1Entries], by norm_num [clustersFor, l1Entries]⟩

/-- The format name `parallels` is refused when the image is opened. -/
theorem create_open_parallels : asciiBytes "parallels" ∈ formatNames.map asciiBytes ∧
    ¬ RoundTrip ⟨1, some (asciiBytes "base.img"), some (asciiBytes "parallels"), false⟩
      plainCodec := by
  refine ⟨by decide, ?_⟩
  rintro ⟨⟨r, hr, -⟩, -⟩
  obtain ⟨t, ht⟩ := qcowOpen_create
    (o := ⟨1, some (asciiBytes "base.img"), some (asciiBytes "parallels"), false⟩) rfl (by decide)
    (by decide) (fun f hf => by cases hf; decide) plainCodec
  rw [ht, if_neg (by decide)] at hr
  exact absurd hr (by simp)

end Ar7Qemu.Qcow2
