import Ar7Qemu.Ar7.IoMem
import Ar7Qemu.Lib.Run
import Mathlib.Tactic.IntervalCases

/-! When the accesses of each width to the plain registers of the AR7 are those of a memory of bytes. -/

namespace Ar7Qemu.Ar7

open Lib WordBytes

/-! ### Plain registers -/

/-- The port registers without a constant and without an effect of another register. -/
def StorageVlynq (tnetw vlynqIndex offset : ℕ) : Prop :=
  offset ≠ vlynqRevid ∧ offset ≠ vlynqIntstatclr ∧
    (vlynqIndex = tnetw → offset ≠ vlynqStat ∧ offset ≠ vlynqRstat ∧ offset ≠ vlynqRchipver)

def StorageReg (tnetw : ℕ) (b : Block) (offset : ℕ) : Prop :=
  match b with
  | .adsl | .vlynq1region0 | .vlynq1region1 | .gpio | .resetControl => True
  | .emif => offset ≠ emifRev
  | .dcl => offset ≠ dclBootConfig
  | .vlynq0 => StorageVlynq tnetw 0 offset
  | .vlynq1 => StorageVlynq tnetw 1 offset
  | _ => False

/-- The bytes of the plain registers, up to the last byte of each block. -/
def Plain (tnetw addr : ℕ) : Prop :=
  ∃ b : Block, b.base ≤ addr ∧ addr < b.base + b.size ∧ StorageReg tnetw b (wordAddr addr - b.base)

def wordAt {ρ : Type*} (s : Io ρ) (addr : ℕ) : Word :=
  match locate addr with
  | some b => regRead (s.regs b) (addr - b.base)
  | none => 0

def byteAt {ρ : Type*} (s : Io ρ) (addr : ℕ) : BitVec 8 := byte (wordAt s (wordAddr addr)) (addr % 4)

/-! ### A memory of bytes -/

/-- The little-endian value of the bytes from an address on. -/
def getBytes (m : ℕ → BitVec 8) (n addr : ℕ) : BitVec (8 * n) := ofBytes n fun i => m (addr + i)

def putBytes (m : ℕ → BitVec 8) (n addr : ℕ) (v : BitVec (8 * n)) : ℕ → BitVec 8 :=
  fun x => if addr ≤ x ∧ x < addr + n then byte v (x - addr) else m x

/-- An access of the guest. -/
inductive Access where
  | read (width : Width) (addr : ℕ)
  | write (width : Width) (addr : ℕ) (val : BitVec (8 * width.bytes))

namespace Access

/-- The access is aligned and goes to a plain register. -/
def Legal (tnetw : ℕ) : Access → Prop
  | read width addr | write width addr _ => addr % width.bytes = 0 ∧ Plain tnetw addr

/-- A memory of bytes after an access. -/
def apply (m : ℕ → BitVec 8) : Access → ℕ → BitVec 8
  | read _ _ => m
  | write width addr val => putBytes m width.bytes addr val

/-- The code carries out an access, and a read gets what is in the memory. -/
def Answers {ρ : Type*} (bd : Board ρ) (s : Io ρ) (m : ℕ → BitVec 8) (s' : Io ρ) : Access → Prop
  | read width addr => ioRead bd s width addr = some ((getBytes m width.bytes addr).setWidth 32, s')
  | write width addr val => ioWrite bd s width addr (val.setWidth 32) = some s'

end Access

/-- The plain registers hold the bytes of a memory. -/
def Holds {ρ : Type*} (bd : Board ρ) (s : Io ρ) (m : ℕ → BitVec 8) : Prop :=
  ∀ a, Plain bd.vlynqTnetw1130 a → byteAt s a = m a

/-- A run of accesses behaves as on a memory of bytes: every read gets the bytes last written, and the
plain registers hold them after every access. -/
def Behaves {ρ : Type*} (bd : Board ρ) : Io ρ → (ℕ → BitVec 8) → List Access → Prop
  | s, m, [] => Holds bd s m
  | s, m, a :: as => Holds bd s m ∧ ∃ s', a.Answers bd s m s' ∧ Behaves bd s' (a.apply m) as

/-! ### The condition -/

/-- The other bytes of the word of an access of some bytes are zero. -/
def ZeroAround {ρ : Type*} (s : Io ρ) (n addr : ℕ) : Prop :=
  ∀ a, wordAddr a = wordAddr addr → ¬ (addr ≤ a ∧ a < addr + n) → byteAt s a = 0

/-- Words, bytes that are merged, and half words that are read are always right. A byte or a half word that is
written replaces the word, a byte at the place of the first one. A byte that is not shifted on reading is the
first one. -/
def Access.Sound {ρ : Type*} (s : Io ρ) : Access → Prop
  | .read .b addr => addr % 4 = 0 ∨ Block.gpio.Covers addr ∨ byteAt s addr = byteAt s (wordAddr addr)
  | .write .b addr val => Merged addr ∨ ZeroAround s 1 addr ∧ (addr % 4 = 0 ∨ val = 0)
  | .write .w addr _ => ZeroAround s 2 addr
  | _ => True

def Access.step {ρ : Type*} (bd : Board ρ) (s : Io ρ) : Access → Option (Io ρ)
  | .read width addr => (ioRead bd s width addr).map Prod.snd
  | .write width addr val => ioWrite bd s width addr (val.setWidth 32)

/-! ### Words -/

section Words

variable {ρ : Type*} {bd : Board ρ} {s : Io ρ} {addr : ℕ}

theorem wordAddr_of_aligned (h : addr % 4 = 0) : wordAddr addr = addr := by
  unfold wordAddr
  omega

theorem wordAddr_add (addr : ℕ) : wordAddr addr + addr % 4 = addr := by
  unfold wordAddr
  omega

theorem wordAddr_mod (addr : ℕ) : wordAddr addr % 4 = 0 := by
  unfold wordAddr
  omega

theorem Plain.locate {tnetw : ℕ} (h : Plain tnetw addr) :
    ∃ b : Block, locate (wordAddr addr) = some b ∧ StorageReg tnetw b (wordAddr addr - b.base) := by
  obtain ⟨b, hbase, hsize, hreg⟩ := h
  exact ⟨b, locate_wordAddr hbase hsize, hreg⟩

theorem Plain.of_wordAddr {tnetw a : ℕ} (h : Plain tnetw addr) (ha : wordAddr a = wordAddr addr) : Plain tnetw a := by
  obtain ⟨b, hbase, hsize, hreg⟩ := h
  obtain ⟨h₁, h₂⟩ := aligned_block b
  refine ⟨b, ?_, ?_, ha ▸ hreg⟩ <;> (unfold wordAddr at ha; omega)

theorem vlynqRead_plain {b : Block} {i offset : ℕ} (h : StorageVlynq bd.vlynqTnetw1130 i offset) :
    ar7VlynqRead bd s b i offset = (regRead (s.regs b) offset, s) := by
  obtain ⟨h₁, h₂, h₃⟩ := h
  unfold ar7VlynqRead
  rw [if_neg h₁, if_neg h₂, if_neg fun h => (h₃ h.2).2.2 h.1]

theorem blockRead_plain {b : Block} {offset : ℕ} (h : StorageReg bd.vlynqTnetw1130 b offset) :
    blockRead bd s b offset = some (regRead (s.regs b) offset, s) := by
  cases b with
  | vlynq0 | vlynq1 => exact congrArg some (vlynqRead_plain h)
  | adsl | vlynq1region0 | vlynq1region1 | gpio | resetControl | emif | dcl => rfl
  | _ => exact h.elim

theorem memread_plain (h : Plain bd.vlynqTnetw1130 addr) :
    ar7IoMemread bd s (wordAddr addr) = some (wordAt s (wordAddr addr), s) := by
  obtain ⟨b, hlocate, hreg⟩ := h.locate
  rw [ar7IoMemread, if_neg (not_not.2 (wordAddr_mod addr)), wordAt, hlocate]
  exact blockRead_plain hreg

/-- A register is the only plain one that a write changes. -/
def StoredOnly (tnetw : ℕ) (s : Io ρ) (b : Block) (offset : ℕ) (val : Word) (s' : Io ρ) : Prop :=
  ∀ c o, StorageReg tnetw c o → regRead (s'.regs c) o = if c = b ∧ o = offset then val else regRead (s.regs c) o

theorem stored_setRegs (tnetw : ℕ) (b : Block) (offset : ℕ) (val : Word) :
    StoredOnly tnetw s b offset val (s.setRegs b (regWrite (s.regs b) offset val)) := by
  intro c o _
  unfold Io.setRegs
  by_cases hc : c = b
  · subst hc
    simp
  · simp [hc]

theorem stored_vlynq {b : Block} {i offset : ℕ} {val : Word}
    (hplain : ∀ o, StorageReg bd.vlynqTnetw1130 b o → StorageVlynq bd.vlynqTnetw1130 i o) :
    StoredOnly bd.vlynqTnetw1130 s b offset val (ar7VlynqWrite bd s b i offset val) := by
  intro c o hreg
  unfold ar7VlynqWrite Io.setRegs
  by_cases hc : c = b
  · subst hc
    dsimp only
    rw [Function.update_self, regRead_regWrite]
    by_cases ho : o = offset
    · simp [ho]
    · rw [if_neg ho, if_neg (show ¬ (c = c ∧ o = offset) from fun h => ho h.2)]
      split_ifs with hctrl
      · obtain ⟨hstat, hrstat, -⟩ := (hplain o hreg).2.2 hctrl.2
        rw [regRead_regSet, regRead_regSet, if_neg hrstat, if_neg hstat]
      · obtain ⟨hstat, hrstat, -⟩ := (hplain o hreg).2.2 hctrl.2
        rw [regRead_regClear, regRead_regClear, if_neg hrstat, if_neg hstat]
      · rfl
  · dsimp only
    rw [Function.update_of_ne hc, if_neg fun h => hc h.1]

theorem blockWrite_plain {b : Block} {offset : ℕ} (val : Word) (h : StorageReg bd.vlynqTnetw1130 b offset) :
    ∃ s', blockWrite bd s b offset val = some s' ∧ StoredOnly bd.vlynqTnetw1130 s b offset val s' := by
  cases b with
  | vlynq0 => exact ⟨_, rfl, stored_vlynq (i := 0) fun _ h => h⟩
  | vlynq1 => exact ⟨_, rfl, stored_vlynq (i := 1) fun _ h => h⟩
  | adsl | vlynq1region0 | vlynq1region1 | gpio => exact ⟨_, rfl, stored_setRegs _ _ _ _⟩
  | resetControl =>
    refine ⟨_, rfl, ?_⟩
    unfold ar7ResetWrite
    split_ifs
    · exact stored_setRegs _ _ _ _
    · exact stored_setRegs _ _ _ _
  | emif =>
    refine ⟨_, rfl, ?_⟩
    rw [ar7EmifWrite, if_neg (show offset ≠ emifRev from h)]
    exact stored_setRegs _ _ _ _
  | dcl => exact ⟨_, if_neg h, stored_setRegs _ _ _ _⟩
  | _ => exact h.elim

/-- A word that is written to a plain register is the only one that changes. -/
theorem memwrite_plain (val : Word) (h : Plain bd.vlynqTnetw1130 addr) :
    ∃ s', ar7IoMemwrite bd s (wordAddr addr) val = some s' ∧ ∀ a, Plain bd.vlynqTnetw1130 a →
      wordAt s' (wordAddr a) = if wordAddr a = wordAddr addr then val else wordAt s (wordAddr a) := by
  obtain ⟨b, hlocate, hreg⟩ := h.locate
  obtain ⟨s', hwrite, hstored⟩ := blockWrite_plain (s := s) val hreg
  refine ⟨s', ?_, fun a ha => ?_⟩
  · rw [ar7IoMemwrite, if_neg (not_not.2 (wordAddr_mod addr)), hlocate]
    exact hwrite
  · obtain ⟨c, hc, hcreg⟩ := ha.locate
    rw [wordAt, wordAt, hc]
    dsimp only
    rw [hstored c _ hcreg]
    by_cases hsame : wordAddr a = wordAddr addr
    · have hcb : c = b := Option.some.inj (hc.symm.trans (hsame ▸ hlocate))
      rw [if_pos hsame, if_pos ⟨hcb, by rw [hcb, hsame]⟩]
    · rw [if_neg hsame, if_neg]
      rintro ⟨rfl, hoffset⟩
      have hca : Block.Covers c (wordAddr a) :=
        of_decide_eq_true (List.find?_some (p := fun b => decide (Block.Covers b (wordAddr a))) hc)
      have hcaddr : Block.Covers c (wordAddr addr) :=
        of_decide_eq_true (List.find?_some (p := fun b => decide (Block.Covers b (wordAddr addr))) hlocate)
      have h₁ := hca.1
      have h₂ := hcaddr.1
      omega

end Words

/-! ### Bytes of words -/

section Bytes

theorem byte_and {w : ℕ} (u v : BitVec w) (i : ℕ) : byte (u &&& v) i = byte u i &&& byte v i := by
  apply BitVec.eq_of_getLsbD_eq
  intro j hj
  simp only [getLsbD_byte, BitVec.getLsbD_and, hj, decide_true, Bool.true_and]

theorem byte_and_ff (v : Word) {i : ℕ} (hi : i < 4) : byte (v &&& 0xff#32) i = if i = 0 then byte v 0 else 0 := by
  rw [byte_and]
  interval_cases i
  · exact BitVec.and_allOnes
  · exact BitVec.and_zero
  · exact BitVec.and_zero
  · exact BitVec.and_zero

theorem byte_and_ffff (v : Word) {i : ℕ} (hi : i < 4) : byte (v &&& 0xffff#32) i = if i < 2 then byte v i else 0 := by
  rw [byte_and]
  interval_cases i
  · exact BitVec.and_allOnes
  · exact BitVec.and_allOnes
  · exact BitVec.and_zero
  · exact BitVec.and_zero

theorem byte_widened {n : ℕ} (v : BitVec (8 * n)) {i : ℕ} (hi : i < 4) :
    byte (v.setWidth 32) i = if i < n then byte v i else 0 := by
  rw [byte_setWidth v (by omega)]
  split_ifs with h
  · rfl
  · exact byte_of_le v (by omega)

theorem byte_not (v : Word) {i : ℕ} (hi : i < 4) : byte (~~~v) i = ~~~byte v i := by
  apply BitVec.eq_of_getLsbD_eq
  intro j hj
  simp only [getLsbD_byte, BitVec.getLsbD_not, hj, show 8 * i + j < 32 by omega, decide_true, Bool.true_and]

theorem byte_placed {u : Word} (hu : ∀ j, j < 4 → j ≠ 0 → byte u j = 0) {k i : ℕ} (hi : i < 4) :
    byte (u <<< (8 * k)) i = if i = k then byte u 0 else 0 := by
  by_cases hik : i < k
  · rw [byte_shiftLeft_of_lt u hik, if_neg (by omega)]
  · obtain ⟨j, rfl⟩ := Nat.exists_eq_add_of_le (Nat.le_of_not_lt hik)
    rw [byte_shiftLeft_add u (by omega)]
    split_ifs with h
    · rw [show j = 0 by omega]
    · exact hu j (by omega) (by omega)

/-- A byte that is put into a word in place of the old one. -/
theorem byte_merged (old : Word) (v : BitVec 8) {k i : ℕ} (hi : i < 4) :
    byte ((old &&& ~~~(0xff#32 <<< (8 * k))) + (v.setWidth 32 &&& 0xff#32) <<< (8 * k)) i =
      if i = k then v else byte old i := by
  have hvalue : ∀ j < 4, byte (v.setWidth 32 &&& 0xff#32) j = if j = 0 then v else 0 := fun j hj => by
    rw [byte_and_ff _ hj, byte_widened (n := 1) v (show 0 < 4 by omega), if_pos Nat.one_pos, byte_zero]
  have hplaced : ∀ j < 4, byte ((v.setWidth 32 &&& 0xff#32) <<< (8 * k)) j = if j = k then v else 0 := fun j hj => by
    rw [byte_placed (fun j hj h => by rw [hvalue j hj, if_neg h]) hj, hvalue 0 (by omega), if_pos rfl]
  have hkept : ∀ j < 4, byte (old &&& ~~~(0xff#32 <<< (8 * k))) j = if j = k then 0 else byte old j := fun j hj => by
    have hmask : byte (0xff#32 <<< (8 * k)) j = if j = k then 0xff else 0 :=
      byte_placed (u := 0xff#32) (fun j hj h => by interval_cases j <;> first | exact absurd rfl h | rfl) hj
    rw [byte_and, byte_not _ hj, hmask]
    split_ifs
    · exact BitVec.and_zero
    · exact BitVec.and_allOnes
  have hdisjoint : (old &&& ~~~(0xff#32 <<< (8 * k))) &&& (v.setWidth 32 &&& 0xff#32) <<< (8 * k) = 0 := by
    refine eq_of_byte_eq 4 _ _ fun j hj => ?_
    have hzero : byte (0 : Word) j = 0 := by simp [byte]
    rw [byte_and, hkept j hj, hplaced j hj, hzero]
    split_ifs
    · exact BitVec.zero_and
    · exact BitVec.and_zero
  rw [BitVec.add_eq_or_of_and_eq_zero _ _ hdisjoint, byte_or, hkept i hi, hplaced i hi]
  split_ifs
  · exact BitVec.zero_or
  · exact BitVec.or_zero

end Bytes

/-! ### Accesses -/

section Steps

variable {ρ : Type*} {bd : Board ρ} {s : Io ρ} {m : ℕ → BitVec 8} {addr : ℕ}

theorem wordAddr_of_le {n a : ℕ} (hn : n = 1 ∨ n = 2 ∨ n = 4) (haligned : addr % n = 0) (ha : addr ≤ a ∧ a < addr + n) :
    wordAddr a = wordAddr addr := by
  unfold wordAddr
  rcases hn with rfl | rfl | rfl <;> omega

theorem bytes_cases (width : Width) : width.bytes = 1 ∨ width.bytes = 2 ∨ width.bytes = 4 := by
  cases width
  · exact Or.inl rfl
  · exact Or.inr (Or.inl rfl)
  · exact Or.inr (Or.inr rfl)

theorem byte_expected (h : Holds bd s m) {n : ℕ} (hn : n = 1 ∨ n = 2 ∨ n = 4) (haligned : addr % n = 0)
    (hplain : Plain bd.vlynqTnetw1130 addr) {i : ℕ} (hi : i < 4) :
    byte ((getBytes m n addr).setWidth 32) i = if i < n then byte (wordAt s (wordAddr addr)) (addr % 4 + i) else 0 := by
  rw [byte_widened _ hi]
  split_ifs with hin
  · have hsame : wordAddr (addr + i) = wordAddr addr := wordAddr_of_le hn haligned ⟨by omega, by omega⟩
    have hmod : (addr + i) % 4 = addr % 4 + i := by rcases hn with rfl | rfl | rfl <;> omega
    rw [getBytes, byte_ofBytes n _ hin, ← h _ (hplain.of_wordAddr hsame), byteAt, hsame, hmod]
  · rfl

theorem expected_eq_iff (h : Holds bd s m) {n : ℕ} (hn : n = 1 ∨ n = 2 ∨ n = 4) (haligned : addr % n = 0)
    (hplain : Plain bd.vlynqTnetw1130 addr) (v : Word) :
    v = (getBytes m n addr).setWidth 32 ↔
      ∀ i < 4, byte v i = if i < n then byte (wordAt s (wordAddr addr)) (addr % 4 + i) else 0 := by
  constructor
  · rintro rfl i hi
    exact byte_expected h hn haligned hplain hi
  · intro hv
    exact eq_of_byte_eq 4 _ _ fun i hi => (hv i hi).trans (byte_expected h hn haligned hplain hi).symm

/-- After a word has been written, the registers hold the bytes exactly when this word is right. -/
theorem holds_iff (h : Holds bd s m) {n : ℕ} (hn : n = 1 ∨ n = 2 ∨ n = 4) (haligned : addr % n = 0)
    (hplain : Plain bd.vlynqTnetw1130 addr) (v : BitVec (8 * n)) {val : Word} {s' : Io ρ}
    (hs' : ∀ a, Plain bd.vlynqTnetw1130 a →
      wordAt s' (wordAddr a) = if wordAddr a = wordAddr addr then val else wordAt s (wordAddr a)) :
    Holds bd s' (putBytes m n addr v) ↔ ∀ a, wordAddr a = wordAddr addr →
      byte val (a % 4) = if addr ≤ a ∧ a < addr + n then byte v (a - addr) else byteAt s a := by
  have hput : ∀ a, Plain bd.vlynqTnetw1130 a → (byteAt s' a = putBytes m n addr v a ↔
      (wordAddr a = wordAddr addr →
        byte val (a % 4) = if addr ≤ a ∧ a < addr + n then byte v (a - addr) else byteAt s a)) := by
    intro a ha
    rw [byteAt, hs' a ha, putBytes, h a ha]
    by_cases hsame : wordAddr a = wordAddr addr
    · rw [if_pos hsame]
      exact ⟨fun hb _ => hb, fun hb => hb hsame⟩
    · rw [if_neg hsame, if_neg fun hin => hsame (wordAddr_of_le hn haligned hin)]
      exact ⟨fun _ hb => absurd hb hsame, fun _ => h a ha⟩
  constructor
  · intro hholds a hsame
    have ha := hplain.of_wordAddr hsame
    exact (hput a ha).1 (hholds a ha) hsame
  · intro hbytes a ha
    exact (hput a ha).2 (hbytes a)

theorem Plain.not_covers (h : Plain bd.vlynqTnetw1130 addr) {c : Block} (hc : ∀ o, ¬ StorageReg bd.vlynqTnetw1130 c o) :
    ¬ c.Covers addr := by
  rintro ⟨h₁, h₂⟩
  obtain ⟨b, hbase, hsize, hreg⟩ := h
  rcases disjoint_blocks b c with rfl | hbc | hcb
  · exact hc _ hreg
  · omega
  · omega

theorem answers_read (h : Holds bd s m) {width : Width} (hlegal : (Access.read width addr).Legal bd.vlynqTnetw1130) {v : Word}
    (hread : ioRead bd s width addr = some (v, s)) : ∃ s', Access.step bd s (.read width addr) = some s' ∧
      ((Access.read width addr).Answers bd s m s' ∧ Holds bd s' m ↔
        ∀ i < 4, byte v i = if i < width.bytes then byte (wordAt s (wordAddr addr)) (addr % 4 + i) else 0) := by
  refine ⟨s, by rw [Access.step, hread]; rfl, ?_⟩
  rw [← expected_eq_iff h (bytes_cases width) hlegal.1 hlegal.2, Access.Answers, hread]
  constructor
  · rintro ⟨hanswer, -⟩
    cases hanswer
    rfl
  · rintro rfl
    exact ⟨rfl, h⟩

theorem answers_write (h : Holds bd s m) {width : Width} {val : BitVec (8 * width.bytes)}
    (hlegal : (Access.write width addr val).Legal bd.vlynqTnetw1130) {v : Word}
    (hwrite : ioWrite bd s width addr (val.setWidth 32) = ar7IoMemwrite bd s (wordAddr addr) v) :
    ∃ s', Access.step bd s (.write width addr val) = some s' ∧
      ((Access.write width addr val).Answers bd s m s' ∧ Holds bd s' ((Access.write width addr val).apply m) ↔
        ∀ a, wordAddr a = wordAddr addr →
          byte v (a % 4) = if addr ≤ a ∧ a < addr + width.bytes then byte val (a - addr) else byteAt s a) := by
  obtain ⟨s', hmem, hword⟩ := memwrite_plain (s := s) v hlegal.2
  refine ⟨s', hwrite.trans hmem, ?_⟩
  rw [Access.apply, holds_iff h (bytes_cases width) hlegal.1 hlegal.2 val hword]
  exact ⟨And.right, fun hbytes => ⟨hwrite.trans hmem, hbytes⟩⟩

theorem sound_readl (h : Holds bd s m) (hlegal : (Access.read .l addr).Legal bd.vlynqTnetw1130) :
    ∃ s', Access.step bd s (.read .l addr) = some s' ∧
      ((Access.read .l addr).Answers bd s m s' ∧ Holds bd s' m ↔ (Access.read .l addr).Sound s) := by
  have haligned : addr % 4 = 0 := hlegal.1
  have hread : ar7IoMemread bd s (wordAddr addr) = some (wordAt s (wordAddr addr), s) := memread_plain hlegal.2
  obtain ⟨s', hstep, hiff⟩ := answers_read h hlegal (v := wordAt s (wordAddr addr))
    (show ar7IoMemread bd s addr = _ by rw [← hread, wordAddr_of_aligned haligned])
  refine ⟨s', hstep, hiff.trans ⟨fun _ => trivial, fun _ i hi => ?_⟩⟩
  rw [if_pos (show i < Width.bytes .l from hi), haligned, Nat.zero_add]

theorem sound_readw (h : Holds bd s m) (hlegal : (Access.read .w addr).Legal bd.vlynqTnetw1130) :
    ∃ s', Access.step bd s (.read .w addr) = some s' ∧
      ((Access.read .w addr).Answers bd s m s' ∧ Holds bd s' m ↔ (Access.read .w addr).Sound s) := by
  have haligned : addr % 2 = 0 := hlegal.1
  have hread : ar7IoMemread bd s (wordAddr addr) = some (wordAt s (wordAddr addr), s) := memread_plain hlegal.2
  rcases (show addr % 4 = 0 ∨ addr % 4 = 2 by omega) with hmod | hmod
  · obtain ⟨s', hstep, hiff⟩ := answers_read h hlegal (v := wordAt s (wordAddr addr) &&& 0xffff#32) (by
      show ioReadw bd s addr = _
      rw [ioReadw, hread]
      exact if_pos hmod)
    refine ⟨s', hstep, hiff.trans ⟨fun _ => trivial, fun _ i hi => ?_⟩⟩
    rw [byte_and_ffff _ hi, hmod, Nat.zero_add]
    rfl
  · obtain ⟨s', hstep, hiff⟩ := answers_read h hlegal (v := wordAt s (wordAddr addr) >>> 16) (by
      show ioReadw bd s addr = _
      rw [ioReadw, hread]
      show (if addr % 4 = 0 then _ else if addr % 4 = 2 then _ else _) = _
      rw [if_neg (by omega), if_pos hmod])
    refine ⟨s', hstep, hiff.trans ⟨fun _ => trivial, fun _ i hi => ?_⟩⟩
    rw [hmod, show wordAt s (wordAddr addr) >>> 16 = wordAt s (wordAddr addr) >>> (8 * 2) from rfl, byte_ushiftRight]
    split_ifs with hlow
    · rfl
    · exact byte_of_le _ (by have : ¬ i < 2 := hlow; omega)

theorem sound_readb (h : Holds bd s m) (hlegal : (Access.read .b addr).Legal bd.vlynqTnetw1130) :
    ∃ s', Access.step bd s (.read .b addr) = some s' ∧
      ((Access.read .b addr).Answers bd s m s' ∧ Holds bd s' m ↔ (Access.read .b addr).Sound s) := by
  have hread : ar7IoMemread bd s (wordAddr addr) = some (wordAt s (wordAddr addr), s) := memread_plain hlegal.2
  have hbbif : ¬ Block.bbif.Covers addr := hlegal.2.not_covers fun _ h => h
  have hclock : ¬ Block.clockControl.Covers addr := hlegal.2.not_covers fun _ h => h
  by_cases hgpio : Block.gpio.Covers addr
  · obtain ⟨s', hstep, hiff⟩ := answers_read h hlegal
      (v := wordAt s (wordAddr addr) >>> (8 * (addr % 4)) &&& 0xff#32) (by
        show ioReadb bd s addr = _
        rw [ioReadb, hread]
        exact if_pos (Or.inr hgpio))
    refine ⟨s', hstep, hiff.trans ⟨fun _ => Or.inr (Or.inl hgpio), fun _ i hi => ?_⟩⟩
    rw [byte_and_ff _ hi, byte_ushiftRight]
    show _ = if i < 1 then _ else _
    split_ifs with h₀ h₁ h₁
    · rw [h₀]
    · omega
    · omega
    · rfl
  · obtain ⟨s', hstep, hiff⟩ := answers_read h hlegal (v := wordAt s (wordAddr addr) &&& 0xff#32) (by
      show ioReadb bd s addr = _
      rw [ioReadb, hread]
      show (if _ then _ else if _ then _ else _) = _
      rw [if_neg (not_or.2 ⟨hbbif, hgpio⟩), if_neg hclock])
    have hfirst : byteAt s (wordAddr addr) = byte (wordAt s (wordAddr addr)) 0 := by
      rw [byteAt, wordAddr_of_aligned (wordAddr_mod addr), wordAddr_mod]
    refine ⟨s', hstep, hiff.trans ?_⟩
    constructor
    · intro hbytes
      have hzero := hbytes 0 (by omega)
      rw [byte_and_ff _ (by omega), if_pos rfl, if_pos (show 0 < Width.bytes .b by decide), Nat.add_zero] at hzero
      refine Or.inr (Or.inr ?_)
      rw [hfirst, hzero, byteAt]
    · intro hsound i hi
      rw [byte_and_ff _ hi]
      show _ = if i < 1 then _ else _
      split_ifs with h₀ h₁ h₁
      · rcases hsound with hmod | hcovers | hsame
        · rw [h₀, hmod]
        · exact absurd hcovers hgpio
        · rw [h₀, Nat.add_zero, ← hfirst, ← hsame, byteAt]
      · omega
      · omega
      · rfl

theorem sound_writel (h : Holds bd s m) {val : BitVec (8 * Width.bytes .l)}
    (hlegal : (Access.write .l addr val).Legal bd.vlynqTnetw1130) : ∃ s', Access.step bd s (.write .l addr val) = some s' ∧
      ((Access.write .l addr val).Answers bd s m s' ∧ Holds bd s' ((Access.write .l addr val).apply m) ↔
        (Access.write .l addr val).Sound s) := by
  have haligned : addr % 4 = 0 := hlegal.1
  obtain ⟨s', hstep, hiff⟩ := answers_write h hlegal (v := val.setWidth 32)
    (show ar7IoMemwrite bd s addr _ = _ by rw [wordAddr_of_aligned haligned])
  refine ⟨s', hstep, hiff.trans ⟨fun _ => trivial, fun _ a ha => ?_⟩⟩
  rw [wordAddr_of_aligned haligned] at ha
  have hsplit := wordAddr_add a
  have hmod : a % 4 < 4 := Nat.mod_lt _ (by omega)
  have hn : Width.bytes .l = 4 := rfl
  rw [if_pos (by omega), byte_widened val hmod, if_pos (by omega), show a - addr = a % 4 by omega]

/-- A half word that is written to one half of a word clears the other half. -/
theorem sound_writew (h : Holds bd s m) {val : BitVec (8 * Width.bytes .w)}
    (hlegal : (Access.write .w addr val).Legal bd.vlynqTnetw1130) : ∃ s', Access.step bd s (.write .w addr val) = some s' ∧
      ((Access.write .w addr val).Answers bd s m s' ∧ Holds bd s' ((Access.write .w addr val).apply m) ↔
        (Access.write .w addr val).Sound s) := by
  have haligned : addr % 2 = 0 := hlegal.1
  have hn : Width.bytes .w = 2 := rfl
  -- the word that is written has the value in its half and zeros in the other one
  have hword : ∃ v, ioWritew bd s addr (val.setWidth 32) = ar7IoMemwrite bd s (wordAddr addr) v ∧
      ∀ i < 4, byte v i = if addr % 4 ≤ i ∧ i < addr % 4 + 2 then byte val (i - addr % 4) else 0 := by
    rcases (show addr % 4 = 0 ∨ addr % 4 = 2 by omega) with hmod | hmod
    · refine ⟨val.setWidth 32, by rw [ioWritew, if_pos hmod, wordAddr_of_aligned hmod], fun i hi => ?_⟩
      rw [byte_widened val hi, hmod]
      by_cases hlow : i < 2
      · rw [if_pos (by omega), if_pos (by omega), Nat.sub_zero]
      · rw [if_neg (by omega), if_neg (by omega)]
    · refine ⟨val.setWidth 32 <<< 16, ?_, fun i hi => ?_⟩
      · rw [ioWritew, if_neg (by omega), if_pos hmod, show addr - 2 = wordAddr addr by unfold wordAddr; omega]
      · rw [hmod, show val.setWidth 32 <<< 16 = val.setWidth 32 <<< (8 * 2) from rfl]
        by_cases hlow : i < 2
        · rw [byte_shiftLeft_of_lt _ hlow, if_neg (by omega)]
        · obtain ⟨j, rfl⟩ := Nat.exists_eq_add_of_le (Nat.le_of_not_lt hlow)
          rw [byte_shiftLeft_add _ (by omega), byte_widened val (by omega), if_pos (by omega), if_pos (by omega),
            Nat.add_sub_cancel_left]
  obtain ⟨v, hwrite, hv⟩ := hword
  obtain ⟨s', hstep, hiff⟩ := answers_write h hlegal hwrite
  refine ⟨s', hstep, hiff.trans ?_⟩
  constructor
  · intro hbytes a ha hout
    have hb := hbytes a ha
    have h₁ := wordAddr_add a
    have h₂ := wordAddr_add addr
    rw [hv _ (Nat.mod_lt _ (by omega)), if_neg (by omega), if_neg (by omega)] at hb
    exact hb.symm
  · intro hzero a ha
    have h₁ := wordAddr_add a
    have h₂ := wordAddr_add addr
    rw [hv _ (Nat.mod_lt _ (by omega))]
    by_cases hin : addr ≤ a ∧ a < addr + Width.bytes .w
    · rw [if_pos (by omega), if_pos hin, show a % 4 - addr % 4 = a - addr by omega]
    · rw [if_neg (by omega), if_neg hin, hzero a ha hin]

/-- A byte that is not merged becomes the whole word. -/
theorem sound_writeb (h : Holds bd s m) {val : BitVec (8 * Width.bytes .b)}
    (hlegal : (Access.write .b addr val).Legal bd.vlynqTnetw1130) : ∃ s', Access.step bd s (.write .b addr val) = some s' ∧
      ((Access.write .b addr val).Answers bd s m s' ∧ Holds bd s' ((Access.write .b addr val).apply m) ↔
        (Access.write .b addr val).Sound s) := by
  have h₂ := wordAddr_add addr
  have hn : Width.bytes .b = 1 := rfl
  by_cases hmerged : Merged addr
  · obtain ⟨s', hstep, hiff⟩ := answers_write h hlegal
      (v := (wordAt s (wordAddr addr) &&& ~~~(0xff#32 <<< (8 * (addr % 4)))) +
        (val.setWidth 32 &&& 0xff#32) <<< (8 * (addr % 4))) (by
        show ioWriteb bd s addr _ = _
        rw [ioWriteb, if_pos hmerged, memread_plain hlegal.2]
        rfl)
    refine ⟨s', hstep, hiff.trans ⟨fun _ => Or.inl hmerged, fun _ a ha => ?_⟩⟩
    have h₁ := wordAddr_add a
    refine (byte_merged _ (show BitVec 8 from val) (Nat.mod_lt _ (by omega))).trans ?_
    by_cases hin : addr ≤ a ∧ a < addr + Width.bytes .b
    · rw [if_pos (by omega), if_pos hin, show a - addr = 0 by omega]
      exact (byte_zero val).symm
    · rw [if_neg (by omega), if_neg hin, byteAt, ha]
  · obtain ⟨s', hstep, hiff⟩ := answers_write h hlegal (v := val.setWidth 32)
      (show ioWriteb bd s addr _ = _ from if_neg hmerged)
    refine ⟨s', hstep, hiff.trans ?_⟩
    have hv : ∀ i < 4, byte (val.setWidth 32) i = if i = 0 then byte val 0 else 0 := fun i hi => by
      rw [byte_widened val hi]
      by_cases h₀ : i = 0
      · rw [if_pos h₀, if_pos (by omega), h₀]
      · rw [if_neg h₀, if_neg (by omega)]
    have hself : byte val 0 = val := byte_zero val
    constructor
    · intro hbytes
      have hvalue : addr % 4 = 0 ∨ byte val 0 = 0 := by
        by_cases hmod : addr % 4 = 0
        · exact Or.inl hmod
        · have hb := hbytes addr rfl
          rw [hv _ (Nat.mod_lt _ (by omega)), if_neg hmod, if_pos (by omega), Nat.sub_self] at hb
          exact Or.inr hb.symm
      refine Or.inr ⟨fun a ha hout => ?_, hvalue.imp_right fun hzero => hself.symm.trans hzero⟩
      have h₁ := wordAddr_add a
      have hb := hbytes a ha
      rw [if_neg (show ¬ (addr ≤ a ∧ a < addr + Width.bytes .b) by omega), hv _ (Nat.mod_lt _ (by omega))] at hb
      rw [← hb]
      split_ifs with h₀
      · exact hvalue.resolve_left (by omega)
      · rfl
    · rintro (hm | ⟨hzero, hvalue⟩) a ha
      · exact absurd hm hmerged
      · have h₁ := wordAddr_add a
        have hvalue' : addr % 4 ≠ 0 → byte val 0 = 0 := fun hmod => hself.trans (hvalue.resolve_left hmod)
        rw [hv _ (Nat.mod_lt _ (by omega))]
        by_cases hin : addr ≤ a ∧ a < addr + Width.bytes .b
        · rw [if_pos hin, show a - addr = 0 by omega]
          split_ifs with h₀
          · rfl
          · exact (hvalue' (by omega)).symm
        · rw [if_neg hin, hzero a ha (by omega)]
          split_ifs with h₀
          · exact hvalue' (by omega)
          · rfl

theorem step_sound (h : Holds bd s m) {a : Access} (hlegal : a.Legal bd.vlynqTnetw1130) :
    ∃ s', a.step bd s = some s' ∧ (a.Answers bd s m s' ∧ Holds bd s' (a.apply m) ↔ a.Sound s) := by
  cases a with
  | read width addr =>
    cases width with
    | b => exact sound_readb h hlegal
    | w => exact sound_readw h hlegal
    | l => exact sound_readl h hlegal
  | write width addr val =>
    cases width with
    | b => exact sound_writeb h hlegal
    | w => exact sound_writew h hlegal
    | l => exact sound_writel h hlegal

theorem Access.Answers.step {s' : Io ρ} {a : Access} (h : a.Answers bd s m s') : a.step bd s = some s' := by
  cases a with
  | read width addr =>
    rw [Access.step, show ioRead bd s width addr = _ from h]
    rfl
  | write width addr val => exact h

theorem Behaves.holds {as : List Access} (h : Behaves bd s m as) : Holds bd s m := by
  cases as with
  | nil => exact h
  | cons a as => exact h.1

theorem behaves_iff (as : List Access) (h : Holds bd s m) (hlegal : ∀ a ∈ as, a.Legal bd.vlynqTnetw1130) :
    Behaves bd s m as ↔ MeetsM (Access.step bd) Access.Sound s as := by
  induction as generalizing s m with
  | nil => exact ⟨fun _ => trivial, fun _ => h⟩
  | cons a as ih =>
    obtain ⟨s', hstep, hiff⟩ := step_sound h (hlegal a List.mem_cons_self)
    have hrest : ∀ b ∈ as, b.Legal bd.vlynqTnetw1130 := fun b hb => hlegal b (List.mem_cons_of_mem _ hb)
    constructor
    · rintro ⟨-, s₁, hanswers, hbehaves⟩
      cases hstep.symm.trans hanswers.step
      refine ⟨hiff.1 ⟨hanswers, hbehaves.holds⟩, fun s₂ hs₂ => ?_⟩
      cases hstep.symm.trans hs₂
      exact (ih hbehaves.holds hrest).1 hbehaves
    · rintro ⟨hsound, hmeets⟩
      obtain ⟨hanswers, hholds⟩ := hiff.2 hsound
      exact ⟨h, s', hanswers, (ih hholds hrest).2 (hmeets s' hstep)⟩

end Steps

/-- From any state on, aligned accesses of any widths to the plain registers are those of a memory of bytes
exactly when each of them meets its condition. -/
theorem io_behaves_iff {ρ : Type*} (bd : Board ρ) (s : Io ρ) (as : List Access)
    (hlegal : ∀ a ∈ as, a.Legal bd.vlynqTnetw1130) :
    Behaves bd s (byteAt s) as ↔ MeetsM (Access.step bd) Access.Sound s as :=
  behaves_iff as (fun _ _ => rfl) hlegal

def quietBoard : Board Unit where
  vlynqTnetw1130 := 0
  devRead := fun _ _ _ => some (0, ())
  devWrite := fun _ _ _ _ => some ()
  displayWrite := fun _ _ _ => some ()

/-- All registers are zero. -/
def clearedIo : Io Unit := ⟨fun _ _ => 0, false, ()⟩

/-- A byte is written into the second byte of a register of the EMIF. -/
def emifByte : Access := .write .b 0x08610805 7

theorem legal_emifByte : ∀ a ∈ [emifByte], a.Legal quietBoard.vlynqTnetw1130 := by
  intro a ha
  rw [List.mem_singleton.1 ha]
  exact ⟨rfl, .emif, by decide, by decide, by show 4 ≠ 0; decide⟩

theorem io_behaves_emifByte : (∀ a ∈ [emifByte], a.Legal quietBoard.vlynqTnetw1130) ∧
    (Behaves quietBoard clearedIo (byteAt clearedIo) [emifByte] ↔
      MeetsM (Access.step quietBoard) Access.Sound clearedIo [emifByte]) :=
  ⟨legal_emifByte, io_behaves_iff quietBoard clearedIo [emifByte] legal_emifByte⟩

/-- The value ends up in the first byte of the register. -/
theorem emifByte_not_behaves : ¬ Behaves quietBoard clearedIo (byteAt clearedIo) [emifByte] := by
  intro h
  rcases ((behaves_iff [emifByte] (fun _ _ => rfl) legal_emifByte).1 h).1 with hmerged | ⟨-, hvalue⟩
  · exact absurd hmerged (by decide)
  · exact absurd hvalue (by decide)

end Ar7Qemu.Ar7
