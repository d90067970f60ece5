import Ar7Qemu.Gdb.Commands

/-! Which commands of the GDB stub stay within the text and the arrays. Numbers and strings are read up to
the end of the text at most. Four commands go on behind it or fill an array with as many bytes as they
are told to. -/

namespace Ar7Qemu.Gdb

open Lib CString

variable {σ : Type} {m : Target σ} {s : Stub σ} {line : List UInt8}

/-! ### Reading the text -/

/-- The number at a place of the text, and the place behind it. -/
def numberAt (line : List UInt8) (p : ℕ) : ℕ × ℕ := ((strtoull (line.drop p)).1, p + (strtoull (line.drop p)).2)

/-- The place behind a byte, if it is there. -/
def skipAt (line : List UInt8) (c : UInt8) (p : ℕ) : ℕ := if line.getD p 0 = c then p + 1 else p

theorem peek_eq {p : ℕ} (hp : p ≤ line.length) : peek line p = some (line.getD p 0) := if_pos hp

theorem number_eq {p : ℕ} (hp : p ≤ line.length) : number line p = some (numberAt line p) := if_pos hp

theorem numberAt_le {p : ℕ} (hp : p ≤ line.length) : (numberAt line p).2 ≤ line.length := by
  have hread := strtoull_snd_le (line.drop p)
  rw [List.length_drop] at hread
  show p + _ ≤ _
  omega

theorem skip_eq {p : ℕ} (c : UInt8) (hp : p ≤ line.length) : skip line c p = some (skipAt line c p) := by
  rw [skip, peek_eq hp]
  rfl

theorem lt_of_getD {p : ℕ} {c : UInt8} (hc : c ≠ 0) (h : line.getD p 0 = c) : p < line.length := by
  rcases Nat.lt_or_ge p line.length with hlt | hge
  · exact hlt
  · have hnul : line.getD p 0 = 0 := by simp [hge]
    exact absurd (h.symm.trans hnul) hc

theorem skipAt_le {p : ℕ} {c : UInt8} (hc : c ≠ 0) (hp : p ≤ line.length) : skipAt line c p ≤ line.length := by
  unfold skipAt
  split_ifs with h
  · exact lt_of_getD hc h
  · exact hp

theorem isSome_peek {α : Type} {p : ℕ} {f : UInt8 → Option α} (hp : p ≤ line.length)
    (h : (f (line.getD p 0)).isSome) : ((peek line p).bind f).isSome := by
  rw [peek_eq hp]
  exact h

theorem isSome_number {α : Type} {p : ℕ} {f : ℕ × ℕ → Option α} (hp : p ≤ line.length)
    (h : ∀ v q, q ≤ line.length → (f (v, q)).isSome) : ((number line p).bind f).isSome := by
  rw [number_eq hp]
  exact h _ _ (numberAt_le hp)

theorem isSome_skip {α : Type} {p : ℕ} {c : UInt8} {f : ℕ → Option α} (hc : c ≠ 0) (hp : p ≤ line.length)
    (h : ∀ q ≤ line.length, (f q).isSome) : ((skip line c p).bind f).isSome := by
  rw [skip_eq c hp]
  exact h _ (skipAt_le hc hp)

/-- `hextomem` stays in the text and the array, or stores nothing. -/
theorem hextomem_spec (line : List UInt8) : ∀ (count p : ℕ) (mem : List UInt8),
    (count = 0 ∨ p + 2 * count ≤ line.length + 1 ∧ mem.length + count ≤ maxPacketLength) ∧
        (∃ out, hextomem line count p mem = some out ∧ out.length = mem.length + count) ∨
      ¬ (count = 0 ∨ p + 2 * count ≤ line.length + 1 ∧ mem.length + count ≤ maxPacketLength) ∧
        hextomem line count p mem = none := by
  intro count
  induction count with
  | zero => exact fun p mem => .inl ⟨.inl rfl, mem, rfl, rfl⟩
  | succ count ih =>
    intro p mem
    by_cases hin : p + 1 ≤ line.length ∧ mem.length < maxPacketLength
    · have hstep : ∃ v, hextomem line (count + 1) p mem = hextomem line count (p + 2) (mem ++ [v]) := by
        refine ⟨UInt8.ofNat (fromhex (line.getD p 0) <<< 4 ||| fromhex (line.getD (p + 1) 0)), ?_⟩
        rw [hextomem, peek_eq (show p ≤ line.length by omega), peek_eq hin.1]
        dsimp only [Option.bind_eq_bind, Option.bind_some]
        rw [store, if_pos hin.2]
        rfl
      obtain ⟨v, hv⟩ := hstep
      rw [hv]
      have hlen : (mem ++ [v]).length = mem.length + 1 := List.length_append
      rcases ih (p + 2) (mem ++ [v]) with ⟨hfits, out, hout, hlength⟩ | ⟨hfits, hnone⟩
      · exact .inl ⟨.inr (by omega), out, hout, by omega⟩
      · exact .inr ⟨by omega, hnone⟩
    · refine .inr ⟨by omega, ?_⟩
      rw [hextomem]
      by_cases hp : p + 1 ≤ line.length
      · have hfull : ¬ mem.length < maxPacketLength := fun h => hin ⟨hp, h⟩
        rw [peek_eq (show p ≤ line.length by omega), peek_eq hp]
        dsimp only [Option.bind_eq_bind, Option.bind_some]
        rw [store, if_neg hfull]
        rfl
      · have hlo : peek line (p + 1) = none := if_neg hp
        rw [hlo]
        cases peek line p <;> rfl

/-! ### Packets -/

theorem length_packetBytes (buf : List UInt8) : (packetBytes buf).length = buf.length + 4 := by
  simp [packetBytes]

theorem isSome_putPacket {buf : List UInt8} (h : buf.length ≤ maxPacketLength) : (putPacket s buf).isSome := by
  unfold putPacket
  rw [if_pos (by rw [length_packetBytes]; omega)]
  rfl

theorem isSome_putPacket_snprintf (text : List UInt8) : (putPacket s (snprintf text)).isSome := by
  apply isSome_putPacket
  have hlen : (snprintf text).length ≤ maxPacketLength - 1 := List.length_take_le _ _
  omega

theorem length_memtohex (mem : List UInt8) :
    (mem.flatMap fun c => [tohex (c.toNat >>> 4), tohex (c.toNat &&& 0xf)]).length = 2 * mem.length := by
  induction mem with
  | nil => rfl
  | cons c mem ih =>
    rw [List.flatMap_cons, List.length_append, ih, List.length_cons]
    simp only [List.length_cons, List.length_nil]
    omega

theorem isSome_putHex (s : Stub σ) (mem : List UInt8) : (putHex s mem).isSome ↔ 2 * mem.length + 1 ≤ maxPacketLength := by
  unfold putHex memtohex
  split_ifs with h
  · refine iff_of_true (isSome_putPacket ?_) h
    rw [length_memtohex]
    omega
  · exact iff_of_false (by simp) h

/-! ### Memory and registers -/

/-- No page is mapped at an address. -/
def Unmapped (m : Target σ) (s : Stub σ) (addr : BitVec 32) : Prop := m.physPage s.world s.gCpu (pageOf addr) = none

theorem pageOf_add {addr : BitVec 32} {k : ℕ} (hk : k < targetPageSize - addr.toNat % targetPageSize) :
    pageOf (addr + BitVec.ofNat 32 k) = pageOf addr := by
  have hpage : targetPageSize = 4096 := rfl
  rw [hpage] at hk
  have haddr := addr.isLt
  have hsum : (addr + BitVec.ofNat 32 k).toNat = addr.toNat + k := by
    rw [BitVec.toNat_add, BitVec.toNat_ofNat]
    omega
  have hmod : (addr.toNat + k) % 4096 = addr.toNat % 4096 + k := by omega
  unfold pageOf
  rw [hsum, hpage, hmod, BitVec.ofNat_add]
  generalize BitVec.ofNat 32 k = x
  generalize BitVec.ofNat 32 (addr.toNat % 4096) = y
  bv_omega

/-- A read of memory goes up to the first page that is not mapped, where this is within the array.
Otherwise it is done, or it writes behind the array. -/
theorem cpuMemoryRwDebug_read (m : Target σ) (cpu : ℕ) (mapped : BitVec 32 → Option ℕ) : ∀ (len : ℕ) (addr : BitVec 32)
    (off : ℕ) (world : σ) (mem : List UInt8), m.physPage world cpu = mapped → mem.length = off → off ≤ maxPacketLength →
      (∃ k < len, off + k ≤ maxPacketLength ∧ mapped (pageOf (addr + BitVec.ofNat 32 k)) = none) ∧
          (∃ t, cpuMemoryRwDebug m false cpu addr len off (world, mem) = some (false, t)) ∨
        ¬ (∃ k < len, off + k ≤ maxPacketLength ∧ mapped (pageOf (addr + BitVec.ofNat 32 k)) = none) ∧
          ((off + len ≤ maxPacketLength ∧ ∃ world' mem', mem'.length = off + len ∧
              cpuMemoryRwDebug m false cpu addr len off (world, mem) = some (true, world', mem')) ∨
            maxPacketLength < off + len ∧ cpuMemoryRwDebug m false cpu addr len off (world, mem) = none) := by
  intro len
  induction len using Nat.strong_induction_on with
  | _ len ih =>
    intro addr off world mem hmap hmem hoff
    rw [cpuMemoryRwDebug]
    by_cases hlen : len = 0
    · rw [if_pos hlen]
      right
      refine ⟨fun ⟨k, hk, _⟩ => by omega, .inl ⟨by omega, world, mem, by omega, rfl⟩⟩
    · rw [if_neg hlen]
      dsimp only
      rw [hmap]
      cases hphys : mapped (pageOf addr) with
      | none =>
        left
        refine ⟨⟨0, Nat.pos_of_ne_zero hlen, hoff, ?_⟩, _, rfl⟩
        have hzero : addr + BitVec.ofNat 32 0 = addr := BitVec.add_zero addr
        rw [hzero]
        exact hphys
      | some phys =>
        have hpage : addr.toNat % targetPageSize < targetPageSize := Nat.mod_lt _ (by decide)
        generalize hl : min (targetPageSize - addr.toNat % targetPageSize) len = l
        have hlow : ∀ k < l, mapped (pageOf (addr + BitVec.ofNat 32 k)) ≠ none := by
          intro k hk hnone
          rw [pageOf_add (by omega), hphys] at hnone
          exact Option.some_ne_none _ hnone
        dsimp only
        unfold accessDebug
        rw [if_neg Bool.false_ne_true]
        by_cases hroom : off + l ≤ maxPacketLength
        · have hshift : ∀ k, addr + BitVec.ofNat 32 l + BitVec.ofNat 32 k = addr + BitVec.ofNat 32 (l + k) := by
            intro k
            rw [BitVec.ofNat_add, BitVec.add_assoc]
          have hexists : (∃ k < len, off + k ≤ maxPacketLength ∧ mapped (pageOf (addr + BitVec.ofNat 32 k)) = none) ↔
              ∃ k < len - l, off + l + k ≤ maxPacketLength ∧
                mapped (pageOf (addr + BitVec.ofNat 32 l + BitVec.ofNat 32 k)) = none := by
            constructor
            · rintro ⟨k, hk, hin, hnone⟩
              have hge : l ≤ k := not_lt.1 fun hlt => hlow k hlt hnone
              refine ⟨k - l, by omega, by omega, ?_⟩
              rw [hshift, Nat.add_sub_of_le hge]
              exact hnone
            · rintro ⟨k, hk, hin, hnone⟩
              rw [hshift] at hnone
              exact ⟨l + k, by omega, by omega, hnone⟩
          rw [if_pos hroom, hexists]
          dsimp only [Option.bind_some]
          have hmap' : m.physPage (m.physRead world (phys + addr.toNat % targetPageSize) l).2 cpu = mapped := by
            rw [← hmap]
            exact funext fun page => m.physPage_read _ _ _ _ _
          have hmem' : (mem ++ (List.range l).map (m.physRead world (phys + addr.toNat % targetPageSize) l).1).length =
              off + l := by
            rw [List.length_append, List.length_map, List.length_range, hmem]
          have hrest : off + l + (len - l) = off + len := by omega
          have hnext := ih (len - l) (by omega) (addr + BitVec.ofNat 32 l) (off + l) _ _ hmap' hmem' hroom
          rw [hrest] at hnext
          exact hnext
        · rw [if_neg hroom]
          right
          refine ⟨?_, .inr ⟨by omega, rfl⟩⟩
          rintro ⟨k, -, hin, hnone⟩
          exact hlow k (by omega) hnone

theorem isSome_write (m : Target σ) (cpu : ℕ) : ∀ (len : ℕ) (addr : BitVec 32) (off : ℕ) (t : σ × List UInt8),
    (cpuMemoryRwDebug m true cpu addr len off t).isSome := by
  intro len
  induction len using Nat.strong_induction_on with
  | _ len ih =>
    intro addr off t
    rw [cpuMemoryRwDebug]
    by_cases hlen : len = 0
    · rw [if_pos hlen]
      rfl
    · rw [if_neg hlen]
      dsimp only
      cases m.physPage t.1 cpu (pageOf addr) with
      | none => rfl
      | some phys =>
        have hpage : addr.toNat % targetPageSize < targetPageSize := Nat.mod_lt _ (by decide)
        exact ih _ (by omega) _ _ _

theorem isSome_readRegisters (m : Target σ) (s : Stub σ) : (handleReadRegisters m s).isSome := by
  have hloop : ∀ (regs : List ℕ) (mem : List UInt8), mem.length + 16 * regs.length ≤ maxPacketLength →
      ∃ out, regs.foldlM (fun mem (reg : ℕ) =>
        let value := m.readRegister s.world s.gCpu reg
        if mem.length + value.length ≤ maxPacketLength then some (mem ++ value) else none) mem = some out ∧
          out.length ≤ mem.length + 16 * regs.length := by
    intro regs
    induction regs with
    | nil => exact fun mem _ => ⟨mem, rfl, Nat.le_refl _⟩
    | cons reg regs ih =>
      intro mem hmem
      have hvalue := m.readRegister_le s.world s.gCpu reg
      rw [List.length_cons] at hmem
      obtain ⟨out, hout, hlen⟩ := ih (mem ++ m.readRegister s.world s.gCpu reg) (by rw [List.length_append]; omega)
      refine ⟨out, ?_, ?_⟩
      · rw [List.foldlM_cons, if_pos (show mem.length + (m.readRegister s.world s.gCpu reg).length ≤ maxPacketLength by omega)]
        exact hout
      · rw [List.length_append] at hlen
        rw [List.length_cons]
        omega
  have hregs := m.numGRegs_le
  have hmax : maxPacketLength = 4096 := rfl
  obtain ⟨out, hout, hlen⟩ := hloop (List.range m.numGRegs) [] (by rw [List.length_range, List.length_nil]; omega)
  have hread : readRegisters m s = some out := hout
  rw [List.length_range, List.length_nil] at hlen
  unfold handleReadRegisters
  rw [hread, Option.bind_some, isSome_putHex]
  omega

/-! ### The commands that stay in their buffers -/

variable (m : Target σ) (s : Stub σ)

theorem isSome_handlePc (h : 1 ≤ line.length) : (handlePc m s line).isSome := by
  apply isSome_peek h
  split
  · rfl
  · exact isSome_number h fun v q _ => rfl

theorem isSome_handleSyscall (h : 1 ≤ line.length) : (handleSyscall m s line).isSome := by
  apply isSome_number h
  intro ret p hp
  apply isSome_peek hp
  have htail : ∀ err, ∀ q ≤ line.length, ((skip line (chr ',') q).bind fun p => (peek line p).bind fun type =>
      if type = chr 'C' then
        putPacket { s with world := m.syscall s.world s.cCpu (BitVec.ofNat 32 ret) (BitVec.ofNat 32 err) } (ascii "T02")
      else some { s with world := m.vmStart (m.syscall s.world s.cCpu (BitVec.ofNat 32 ret) (BitVec.ofNat 32 err)) }).isSome := by
    intro err q hq
    apply isSome_skip (by decide) hq
    intro q hq
    apply isSome_peek hq
    split
    · exact isSome_putPacket (by decide)
    · rfl
  split
  next hcomma => exact isSome_number (lt_of_getD (by decide) hcomma) htail
  next => exact htail 0 p hp

theorem isSome_handleBreakpoint (insert : Bool) (h : 1 ≤ line.length) : (handleBreakpoint m s insert line).isSome := by
  apply isSome_number h
  intro type p hp
  apply isSome_skip (by decide) hp
  intro p hp
  apply isSome_number hp
  intro addr p hp
  apply isSome_skip (by decide) hp
  intro p hp
  apply isSome_number hp
  intro len p hp
  apply isSome_putPacket
  split_ifs <;> decide

theorem isSome_handleAlive (h : 1 ≤ line.length) : (handleAlive m s line).isSome := by
  apply isSome_number h
  intro thread p hp
  apply isSome_putPacket
  split_ifs <;> decide

theorem isSome_handleReadRegister (h : 1 ≤ line.length) : (handleReadRegister m s line).isSome := by
  unfold handleReadRegister
  split
  · exact isSome_putPacket (Nat.zero_le _)
  · apply isSome_number h
    intro reg p hp
    have hvalue := m.readRegister_le s.world s.gCpu (toInt reg)
    dsimp only
    split
    · rw [isSome_putHex]
      exact (show 2 * _ + 1 ≤ 4096 by omega)
    · exact isSome_putPacket (by decide)

theorem isSome_hextomem_half (hshort : line.length < maxPacketLength) {p : ℕ} (hp : p ≤ line.length)
    {f : List UInt8 → Option (Stub σ)} (h : ∀ mem, (f mem).isSome) :
    ((hextomem line ((line.length - p) / 2) p []).bind f).isSome := by
  rcases hextomem_spec line ((line.length - p) / 2) p [] with ⟨-, out, hout, -⟩ | ⟨hfits, -⟩
  · rw [hout]
    exact h out
  · rw [List.length_nil] at hfits
    omega

theorem isSome_handleWriteRegister (hshort : line.length < maxPacketLength) (h : 1 ≤ line.length) :
    (handleWriteRegister m s line).isSome := by
  unfold handleWriteRegister
  split
  · exact isSome_putPacket (Nat.zero_le _)
  · apply isSome_number h
    intro reg p hp
    apply isSome_skip (by decide) hp
    intro p hp
    exact isSome_hextomem_half hshort hp fun mem => isSome_putPacket (by decide)

theorem isSome_handleWriteRegisters (hshort : line.length < maxPacketLength) (h : 1 ≤ line.length) :
    (handleWriteRegisters m s line).isSome :=
  isSome_hextomem_half hshort h fun _ => isSome_putPacket (by decide)

/-! ### Queries -/

theorem length_of_starts {text : List UInt8} (hstarts : text <+: line.drop 1) : 1 + text.length ≤ line.length ∨ text = [] := by
  have hlen := hstarts.length_le
  rw [List.length_drop] at hlen
  rcases text with _ | ⟨c, text⟩
  · exact .inr rfl
  · rw [List.length_cons] at hlen ⊢
    omega

theorem isSome_handleSstep (h : 11 ≤ line.length) : (handleSstep s line).isSome := by
  apply isSome_peek h
  split
  · exact isSome_putPacket_snprintf _
  next hset =>
    have hlt := lt_of_getD (by decide) (not_not.1 hset)
    exact isSome_number hlt fun type q _ => isSome_putPacket (by decide)

theorem isSome_reportCpuinfo : (reportCpuinfo m s).isSome := by
  unfold reportCpuinfo
  split
  · exact isSome_putPacket (by decide)
  · rw [Option.isSome_map]
    exact isSome_putPacket_snprintf _

theorem cpuOfThread_lt {thread : ℤ} {cpu : ℕ} (h : cpuOfThread m thread = some cpu) : cpu < 2 ^ 31 := by
  have hmem := List.mem_range.1 (List.mem_of_find?_eq_some h)
  exact hmem.trans m.smpCpus_lt

theorem isSome_handleThreadInfo (h : 17 ≤ line.length) : (handleThreadInfo m s line).isSome := by
  apply isSome_number h
  intro thread q _
  dsimp only
  split
  · rfl
  next cpu hcpu =>
    have hdigits : (decimal cpu).length ≤ 10 := by
      unfold decimal
      rw [List.length_map, Nat.length_toDigits_le_iff (by decide) (by decide)]
      exact (cpuOfThread_lt m hcpu).trans (by decide)
    have hstate : (ascii (if m.halted s.world cpu then " [halted ]" else " [running]")).length = 10 := by
      split_ifs <;> rfl
    have hstart : (ascii "CPU#").length = 4 := rfl
    rw [isSome_putHex, List.length_append, List.length_append, hstate, hstart]
    exact (show 2 * _ + 1 ≤ 4096 by omega)

theorem length_memtox (mem : List UInt8) : (memtox mem).length ≤ 2 * mem.length := by
  induction mem with
  | nil => exact Nat.le_refl _
  | cons c mem ih =>
    unfold memtox at ih ⊢
    rw [List.flatMap_cons, List.length_append, List.length_cons]
    split <;> simp only [List.length_cons, List.length_nil] <;> omega

theorem isSome_handleXfer (xml : List UInt8 → Option (List UInt8)) (h : 20 ≤ line.length) :
    (handleXfer xml s line).isSome := by
  have hname : 20 + ((line.drop 20).takeWhile (· ≠ chr ':')).length ≤ line.length := by
    have hle := (List.takeWhile_sublist (· ≠ chr ':') (l := line.drop 20)).length_le
    rw [List.length_drop] at hle
    omega
  unfold handleXfer
  dsimp only
  split
  · exact isSome_putPacket (by decide)
  next text _ =>
    apply isSome_skip (by decide) hname
    intro p hp
    apply isSome_number hp
    intro addr p hp
    apply isSome_skip (by decide) hp
    intro p hp
    apply isSome_number hp
    intro len p hp
    dsimp only
    split
    · exact isSome_putPacket (by decide)
    · have hpart : (memtox ((text.drop (addr % 2 ^ 32)).take (min (len % 2 ^ 32) ((maxPacketLength - 5) / 2)))).length ≤
          maxPacketLength - 5 := by
        have htake := List.length_take_le (min (len % 2 ^ 32) ((maxPacketLength - 5) / 2)) (text.drop (addr % 2 ^ 32))
        have hall := length_memtox ((text.drop (addr % 2 ^ 32)).take (min (len % 2 ^ 32) ((maxPacketLength - 5) / 2)))
        omega
      have hmax : maxPacketLength = 4096 := rfl
      rw [if_pos (by rw [List.length_cons]; omega)]
      exact isSome_putPacket (by rw [List.length_cons]; omega)

/-! ### The commands that do not -/

/-- The address and the length of a memory command, and the place behind them. -/
def memoryArgs (line : List UInt8) : BitVec 32 × ℕ × ℕ :=
  let addr := numberAt line 1
  let len := numberAt line (skipAt line (chr ',') addr.2)
  (BitVec.ofNat 32 addr.1, (toInt len.1).toNat, len.2)

/-- The answer to a read of `len` bytes fits, or the read ends at a page that is not mapped before it has
filled the array. -/
def ReadSafe (m : Target σ) (s : Stub σ) (addr : BitVec 32) (len : ℕ) : Prop :=
  len ≤ (maxPacketLength - 1) / 2 ∨ ∃ k < len, k ≤ maxPacketLength ∧ Unmapped m s (addr + BitVec.ofNat 32 k)

/-- There are enough digits for `len` bytes behind a place; the end of the text may be read as one. -/
def DigitsSuffice (line : List UInt8) (p len : ℕ) : Prop := len = 0 ∨ p + 2 * len ≤ line.length + 1

variable {m s}

theorem memoryArgs_le (h : 1 ≤ line.length) : (memoryArgs line).2.2 ≤ line.length := by
  have hskip : skipAt line (chr ',') (numberAt line 1).2 ≤ line.length := skipAt_le (by decide) (numberAt_le h)
  have hlen := numberAt_le hskip
  exact hlen

theorem handleReadMemory_eq (h : 1 ≤ line.length) :
    handleReadMemory m s line =
      (cpuMemoryRwDebug m false s.gCpu (memoryArgs line).1 (memoryArgs line).2.1 0 (s.world, [])).bind fun t =>
        if t.1 then putHex { s with world := t.2.1 } t.2.2 else putPacket { s with world := t.2.1 } (ascii "E14") := by
  have haddr := numberAt_le h
  have hskip : skipAt line (chr ',') (numberAt line 1).2 ≤ line.length := skipAt_le (by decide) haddr
  unfold handleReadMemory memoryArgs
  rw [number_eq h]
  rcases hfirst : numberAt line 1 with ⟨addr, p⟩
  rw [hfirst] at haddr hskip
  simp only [Option.bind_eq_bind, Option.bind_some]
  rw [skip_eq _ haddr, Option.bind_some, number_eq hskip, Option.bind_some]

theorem handleReadMemory_isSome_iff (h : 1 ≤ line.length) :
    (handleReadMemory m s line).isSome ↔ ReadSafe m s (memoryArgs line).1 (memoryArgs line).2.1 := by
  rw [handleReadMemory_eq h]
  have hmax : maxPacketLength = 4096 := rfl
  have hread := cpuMemoryRwDebug_read m s.gCpu (m.physPage s.world s.gCpu) (memoryArgs line).2.1 (memoryArgs line).1 0
    s.world [] rfl rfl (Nat.zero_le _)
  unfold ReadSafe Unmapped
  simp only [Nat.zero_add] at hread
  rcases hread with ⟨hstop, t, hrun⟩ | ⟨hnone, ⟨hlen, world, mem, hmem, hrun⟩ | ⟨hlen, hrun⟩⟩
  · refine iff_of_true ?_ (.inr hstop)
    rw [hrun]
    dsimp only [Option.bind_some]
    rw [if_neg Bool.false_ne_true]
    exact isSome_putPacket (by decide)
  · rw [hrun]
    dsimp only [Option.bind_some]
    rw [if_pos rfl, isSome_putHex, hmem]
    constructor
    · intro hfits
      exact .inl (by omega)
    · rintro (hfits | hstop)
      · omega
      · exact absurd hstop hnone
  · rw [hrun]
    refine iff_of_false (by simp) ?_
    rintro (hfits | hstop)
    · omega
    · exact hnone hstop

theorem hextomem_isSome_iff (hshort : line.length < maxPacketLength) {p count : ℕ} (hp : p ≤ line.length)
    {f : List UInt8 → Option (Stub σ)} (h : ∀ mem, mem.length = count → (f mem).isSome) :
    ((hextomem line count p []).bind f).isSome ↔ DigitsSuffice line p count := by
  unfold DigitsSuffice
  rcases hextomem_spec line count p [] with ⟨hfits, out, hout, hlen⟩ | ⟨hfits, hnone⟩
  · rw [List.length_nil] at hfits hlen
    rw [hout]
    exact iff_of_true (h out (by omega)) (by omega)
  · rw [List.length_nil] at hfits
    rw [hnone]
    refine iff_of_false (by simp) ?_
    omega

theorem handleWriteMemory_eq (h : 1 ≤ line.length) :
    handleWriteMemory m s line =
      (hextomem line (memoryArgs line).2.1 (skipAt line (chr ':') (memoryArgs line).2.2) []).bind fun mem =>
        (cpuMemoryRwDebug m true s.gCpu (memoryArgs line).1 (memoryArgs line).2.1 0 (s.world, mem)).bind fun t =>
          putPacket { s with world := t.2.1 } (ascii (if t.1 then "OK" else "E14")) := by
  have haddr := numberAt_le h
  have hskip : skipAt line (chr ',') (numberAt line 1).2 ≤ line.length := skipAt_le (by decide) haddr
  have hargs := numberAt_le hskip
  unfold handleWriteMemory memoryArgs
  rw [number_eq h]
  rcases hfirst : numberAt line 1 with ⟨addr, p⟩
  rw [hfirst] at haddr hskip hargs
  simp only [Option.bind_eq_bind, Option.bind_some]
  rw [skip_eq _ haddr, Option.bind_some, number_eq hskip, Option.bind_some]
  dsimp only
  rw [skip_eq _ hargs, Option.bind_some]

theorem handleWriteMemory_isSome_iff (hshort : line.length < maxPacketLength) (h : 1 ≤ line.length) :
    (handleWriteMemory m s line).isSome ↔
      DigitsSuffice line (skipAt line (chr ':') (memoryArgs line).2.2) (memoryArgs line).2.1 := by
  have hcolon : skipAt line (chr ':') (memoryArgs line).2.2 ≤ line.length := skipAt_le (by decide) (memoryArgs_le h)
  rw [handleWriteMemory_eq h]
  apply hextomem_isSome_iff hshort hcolon
  intro mem _
  obtain ⟨t, ht⟩ := Option.isSome_iff_exists.1 (isSome_write m s.gCpu (memoryArgs line).2.1 (memoryArgs line).1 0 (s.world, mem))
  rw [ht]
  apply isSome_putPacket
  split_ifs <;> decide

theorem handleThread_isSome_iff (h : 1 ≤ line.length) : (handleThread m s line).isSome ↔ line.length ≠ 1 := by
  by_cases hlen : line.length = 1
  · refine iff_of_false ?_ (not_not.2 hlen)
    have hnone : number line 2 = none := if_neg (by omega)
    unfold handleThread
    rw [hnone, peek_eq h]
    exact Bool.false_ne_true
  · refine iff_of_true ?_ hlen
    apply isSome_peek h
    apply isSome_number (show 2 ≤ line.length by omega)
    intro thread q _
    dsimp only
    split
    · exact isSome_putPacket (by decide)
    · split
      · exact isSome_putPacket (by decide)
      · split
        · exact isSome_putPacket (by decide)
        · split <;> exact isSome_putPacket (by decide)

theorem handleRcmd_isSome_iff (hshort : line.length < maxPacketLength) (h : 6 ≤ line.length) :
    (handleRcmd m s line).isSome ↔ line.length = 6 ∨ (line.length - 6) % 2 = 1 := by
  unfold handleRcmd
  dsimp only
  by_cases hodd : (line.length - 6) % 2 = 0
  · rw [if_neg (not_not.2 hodd)]
    have hrest : ((hextomem line (line.length - 6) 6 []).bind fun mem => (store (mem.take ((line.length - 6) / 2)) 0).bind
        fun mem => putPacket { s with world := m.monitor s.world mem } (ascii "OK")).isSome ↔
        DigitsSuffice line 6 (line.length - 6) := by
      apply hextomem_isSome_iff hshort h
      intro mem hmem
      have hroom : (mem.take ((line.length - 6) / 2)).length < maxPacketLength := by
        rw [List.length_take]
        omega
      rw [store, if_pos hroom]
      exact isSome_putPacket (by decide)
    refine hrest.trans ?_
    unfold DigitsSuffice
    omega
  · rw [if_pos hodd]
    exact iff_of_true (isSome_putPacket (by decide)) (.inr (by omega))

/-- A command for the monitor is empty, or it is refused because its digits are odd. -/
def RcmdSafe (line : List UInt8) : Prop :=
  ascii "Rcmd," <+: line.drop 1 → line.length = 6 ∨ (line.length - 6) % 2 = 1

/-- What a command must not do. -/
structure Safe (m : Target σ) (s : Stub σ) (line : List UInt8) : Prop where
  readMemory : line.head? = some (chr 'm') → ReadSafe m s (memoryArgs line).1 (memoryArgs line).2.1
  writeMemory : line.head? = some (chr 'M') →
    DigitsSuffice line (skipAt line (chr ':') (memoryArgs line).2.2) (memoryArgs line).2.1
  thread : line ≠ [chr 'H']
  rcmd : line.head? = some (chr 'q') ∨ line.head? = some (chr 'Q') → RcmdSafe line

theorem head?_of_starts {c : UInt8} {text p : List UInt8} (h : c :: text <+: p) : p.head? = some c := by
  obtain ⟨rest, rfl⟩ := h
  rfl

theorem rcmdSafe_of_head {c : UInt8} (h : (line.drop 1).head? = some c) (hc : c ≠ chr 'R') : RcmdSafe line := by
  intro hstarts
  have hhead := head?_of_starts hstarts
  rw [h] at hhead
  exact absurd (Option.some_inj.1 hhead) hc

theorem handleQuery_isSome_iff (hshort : line.length < maxPacketLength) :
    (handleQuery m s line).isSome ↔ RcmdSafe line := by
  have hlen : ∀ {c text}, c :: text <+: line.drop 1 → 1 + (c :: text).length ≤ line.length := fun hp =>
    (length_of_starts hp).resolve_right (List.cons_ne_nil _ _)
  unfold handleQuery
  dsimp only
  by_cases hbits : line.drop 1 = ascii "qemu.sstepbits"
  · rw [if_pos hbits]
    refine iff_of_true (isSome_putPacket_snprintf _) (rcmdSafe_of_head ?_ (show chr 'q' ≠ chr 'R' by decide))
    rw [hbits]
    rfl
  rw [if_neg hbits]
  by_cases hsstep : ascii "qemu.sstep" <+: line.drop 1
  · rw [if_pos hsstep]
    exact iff_of_true (isSome_handleSstep s (hlen hsstep)) (rcmdSafe_of_head (head?_of_starts hsstep) (by decide))
  rw [if_neg hsstep]
  by_cases hcurrent : line.drop 1 = ascii "C"
  · rw [if_pos hcurrent]
    refine iff_of_true (isSome_putPacket (by decide)) (rcmdSafe_of_head ?_ (show chr 'C' ≠ chr 'R' by decide))
    rw [hcurrent]
    rfl
  rw [if_neg hcurrent]
  by_cases hfirst : line.drop 1 = ascii "fThreadInfo"
  · rw [if_pos hfirst]
    refine iff_of_true (isSome_reportCpuinfo m _) (rcmdSafe_of_head ?_ (show chr 'f' ≠ chr 'R' by decide))
    rw [hfirst]
    rfl
  rw [if_neg hfirst]
  by_cases hnext : line.drop 1 = ascii "sThreadInfo"
  · rw [if_pos hnext]
    refine iff_of_true (isSome_reportCpuinfo m _) (rcmdSafe_of_head ?_ (show chr 's' ≠ chr 'R' by decide))
    rw [hnext]
    rfl
  rw [if_neg hnext]
  by_cases hextra : ascii "ThreadExtraInfo," <+: line.drop 1
  · rw [if_pos hextra]
    exact iff_of_true (isSome_handleThreadInfo m s (hlen hextra)) (rcmdSafe_of_head (head?_of_starts hextra) (by decide))
  rw [if_neg hextra]
  by_cases hrcmd : ascii "Rcmd," <+: line.drop 1
  · rw [if_pos hrcmd]
    rw [handleRcmd_isSome_iff hshort (hlen hrcmd)]
    exact ⟨fun hsafe _ => hsafe, fun hsafe => hsafe hrcmd⟩
  rw [if_neg hrcmd]
  refine iff_of_true ?_ fun hp => absurd hp hrcmd
  by_cases hsupported : ascii "Supported" <+: line.drop 1
  · rw [if_pos hsupported]
    exact isSome_putPacket_snprintf _
  rw [if_neg hsupported]
  cases m.featureXml with
  | none => exact isSome_putPacket (Nat.zero_le _)
  | some xml =>
    dsimp only
    split_ifs with hxfer
    · exact isSome_handleXfer s xml (hlen hxfer)
    · exact isSome_putPacket (Nat.zero_le _)

theorem safe_of_other {c : UInt8} {rest : List UInt8} (hc : c ∉ [chr 'm', chr 'M', chr 'H', chr 'q', chr 'Q']) :
    Safe m s (c :: rest) := by
  simp only [List.mem_cons, not_or, List.not_mem_nil, not_false_eq_true, and_true] at hc
  obtain ⟨hm, hM, hH, hq, hQ⟩ := hc
  refine ⟨fun h => absurd (Option.some_inj.1 h) hm, fun h => absurd (Option.some_inj.1 h) hM, fun h => ?_, ?_⟩
  · exact hH (List.cons_eq_cons.1 h).1
  · rintro (h | h)
    · exact absurd (Option.some_inj.1 h) hq
    · exact absurd (Option.some_inj.1 h) hQ

theorem isSome_bind_some {α β : Type} {o : Option α} (g : α → β) (h : o.isSome) : (o.bind fun a => some (g a)).isSome := by
  rw [Option.isSome_bind]
  cases o with
  | none => exact h
  | some a => rfl

/-- A command line is handled within its text and the arrays exactly when it keeps to the condition. -/
theorem gdbHandlePacket_isSome_iff (m : Target σ) (s : Stub σ) (line : Line) :
    (gdbHandlePacket m s line.text).isSome ↔ Safe m s line.text := by
  obtain ⟨text, -, hshort⟩ := line
  dsimp only
  cases text with
  | nil =>
    have hunknown : gdbHandlePacket m s [] = putPacket s [] := rfl
    rw [hunknown]
    refine iff_of_true (isSome_putPacket (Nat.zero_le _)) ⟨nofun, nofun, nofun, ?_⟩
    rintro (h | h) <;> cases h
  | cons c rest =>
    have hone : 1 ≤ (c :: rest).length := by
      rw [List.length_cons]
      omega
    have hpeek : peek (c :: rest) 0 = some c := if_pos (Nat.zero_le _)
    unfold gdbHandlePacket
    rw [hpeek]
    dsimp only [Option.bind_eq_bind, Option.bind_some]
    by_cases hquery : c = chr '?'
    · subst hquery
      rw [if_pos rfl]
      exact iff_of_true (isSome_bind_some _ (isSome_putPacket_snprintf _)) (safe_of_other (by decide))
    rw [if_neg hquery]
    by_cases hcont : c = chr 'c'
    · subst hcont
      rw [if_pos rfl]
      exact iff_of_true (isSome_bind_some _ (isSome_handlePc m s hone)) (safe_of_other (by decide))
    rw [if_neg hcont]
    by_cases hsignal : c = chr 'C'
    · subst hsignal
      rw [if_pos rfl]
      exact iff_of_true (isSome_number hone fun _ _ _ => rfl) (safe_of_other (by decide))
    rw [if_neg hsignal]
    by_cases hkill : c = chr 'k'
    · subst hkill
      rw [if_pos rfl]
      exact iff_of_true rfl (safe_of_other (by decide))
    rw [if_neg hkill]
    by_cases hdetach : c = chr 'D'
    · subst hdetach
      rw [if_pos rfl]
      exact iff_of_true (isSome_putPacket (by decide)) (safe_of_other (by decide))
    rw [if_neg hdetach]
    by_cases hstep : c = chr 's'
    · subst hstep
      rw [if_pos rfl]
      exact iff_of_true (isSome_bind_some _ (isSome_handlePc m s hone)) (safe_of_other (by decide))
    rw [if_neg hstep]
    by_cases hsyscall : c = chr 'F'
    · subst hsyscall
      rw [if_pos rfl]
      exact iff_of_true (isSome_handleSyscall m s hone) (safe_of_other (by decide))
    rw [if_neg hsyscall]
    by_cases hget : c = chr 'g'
    · subst hget
      rw [if_pos rfl]
      exact iff_of_true (isSome_readRegisters m s) (safe_of_other (by decide))
    rw [if_neg hget]
    by_cases hset : c = chr 'G'
    · subst hset
      rw [if_pos rfl]
      exact iff_of_true (isSome_handleWriteRegisters m s hshort hone) (safe_of_other (by decide))
    rw [if_neg hset]
    by_cases hread : c = chr 'm'
    · subst hread
      rw [if_pos rfl]
      rw [handleReadMemory_isSome_iff hone]
      exact ⟨fun hsafe => ⟨fun _ => hsafe, nofun, nofun, nofun⟩, fun hsafe => hsafe.readMemory rfl⟩
    rw [if_neg hread]
    by_cases hwrite : c = chr 'M'
    · subst hwrite
      rw [if_pos rfl]
      rw [handleWriteMemory_isSome_iff hshort hone]
      exact ⟨fun hsafe => ⟨nofun, fun _ => hsafe, nofun, nofun⟩, fun hsafe => hsafe.writeMemory rfl⟩
    rw [if_neg hwrite]
    by_cases hgetOne : c = chr 'p'
    · subst hgetOne
      rw [if_pos rfl]
      exact iff_of_true (isSome_handleReadRegister m s hone) (safe_of_other (by decide))
    rw [if_neg hgetOne]
    by_cases hsetOne : c = chr 'P'
    · subst hsetOne
      rw [if_pos rfl]
      exact iff_of_true (isSome_handleWriteRegister m s hshort hone) (safe_of_other (by decide))
    rw [if_neg hsetOne]
    by_cases hinsert : c = chr 'Z'
    · subst hinsert
      rw [if_pos rfl]
      exact iff_of_true (isSome_handleBreakpoint m s true hone) (safe_of_other (by decide))
    rw [if_neg hinsert]
    by_cases hremove : c = chr 'z'
    · subst hremove
      rw [if_pos rfl]
      exact iff_of_true (isSome_handleBreakpoint m s false hone) (safe_of_other (by decide))
    rw [if_neg hremove]
    by_cases hthread : c = chr 'H'
    · subst hthread
      rw [if_pos rfl]
      rw [handleThread_isSome_iff hone]
      constructor
      · intro hlen
        refine ⟨nofun, nofun, fun halone => ?_, nofun⟩
        rw [halone] at hlen
        exact hlen rfl
      · intro hsafe hlen
        have hrest : rest = [] := List.eq_nil_of_length_eq_zero (Nat.succ_injective hlen)
        exact hsafe.thread (hrest ▸ rfl)
    rw [if_neg hthread]
    by_cases halive : c = chr 'T'
    · subst halive
      rw [if_pos rfl]
      exact iff_of_true (isSome_handleAlive m s hone) (safe_of_other (by decide))
    rw [if_neg halive]
    by_cases hq : c = chr 'q' ∨ c = chr 'Q'
    · rw [if_pos hq, handleQuery_isSome_iff hshort]
      constructor
      · intro hsafe
        refine ⟨fun h => absurd (Option.some_inj.1 h) hread, fun h => absurd (Option.some_inj.1 h) hwrite,
          fun h => hthread (List.cons_eq_cons.1 h).1, fun _ => hsafe⟩
      · intro hsafe
        apply hsafe.rcmd
        rcases hq with rfl | rfl
        · exact .inl rfl
        · exact .inr rfl
    rw [if_neg hq]
    refine iff_of_true (isSome_putPacket (Nat.zero_le _)) ?_
    apply safe_of_other
    simp only [List.mem_cons, not_or, List.not_mem_nil, not_false_eq_true, and_true]
    exact ⟨hread, hwrite, hthread, not_or.1 hq⟩

/-! ### Examples -/

theorem one_lt_intMax : 1 < 2 ^ 31 := by decide

theorem numMipsRegs_le : 73 ≤ 127 := by decide

theorem length_zeroReg_le (_ : Unit) (_ : ℕ) (_ : ℤ) : ([0, 0, 0, 0] : List UInt8).length ≤ 16 := by decide

theorem identityPage_read (_ : Unit) (_ _ _ : ℕ) (page : BitVec 32) : some page.toNat = some page.toNat := rfl

/-- A machine with one CPU and 73 registers of four bytes, whose memory is mapped everywhere. -/
def plainTarget : Target Unit where
  smpCpus := 1
  halted _ _ := false
  numGRegs := 73
  readRegister _ _ _ := [0, 0, 0, 0]
  writeRegister _ _ _ _ := (4, ())
  physPage _ _ page := some page.toNat
  physRead _ _ _ := (fun _ => 0, ())
  physWrite _ _ _ := ()
  setPc _ _ _ := ()
  vmStart _ := ()
  singleStep _ _ _ := ()
  syscall _ _ _ _ := ()
  breakpointInsert _ _ _ _ := (0, ())
  breakpointRemove _ _ _ _ := (0, ())
  breakpointRemoveAll _ := ()
  monitor _ _ := ()
  featureXml := none
  smpCpus_lt := one_lt_intMax
  numGRegs_le := numMipsRegs_le
  readRegister_le := length_zeroReg_le
  physPage_read := identityPage_read

def plainStub : Stub Unit := ⟨0, 0, none, 7, false, false, [], ()⟩

/-- A thread command without a thread, a write with too few digits, and a monitor command are not handled
within the text. -/
theorem gdbHandlePacket_faults :
    gdbHandlePacket plainTarget plainStub (ascii "H") = none ∧
      gdbHandlePacket plainTarget plainStub (ascii "M0,9:00") = none ∧
      gdbHandlePacket plainTarget plainStub (ascii "qRcmd,7071") = none := by
  refine ⟨?_, ?_, ?_⟩ <;> decide

end Ar7Qemu.Gdb
