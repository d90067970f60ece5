import Ar7Qemu.Exec.CodeProtectSound
import Ar7Qemu.Lib.Run
import Mathlib.Data.Fintype.Card

/-! Host pointers to guest physical memory: RAM blocks, `cpu_physical_memory_map` with its
bounce buffer, and the part of `cpu_physical_memory_unmap` that gives the buffer back. Host
addresses are numbers, 0 for `NULL`, and the contents of memory are left out. -/

namespace Ar7Qemu.Exec.PhysMap

open CodeProtect (PhysOffset page_eq_self_iff toNat_offset offset_lt toNat_add_lt offset_add page_add_lt
  toNat_add_offset)
open Lib

variable {t : Target}

/-! ### RAM blocks -/

structure RAMBlock where
  host : ℕ
  offset : ℕ
  length : ℕ
  deriving DecidableEq

namespace RAMBlock

variable (b : RAMBlock)

def HasAddr (addr : ℕ) : Prop := b.offset ≤ addr ∧ addr < b.offset + b.length

def HasHost (host : ℕ) : Prop := b.host ≤ host ∧ host < b.host + b.length

instance (addr : ℕ) : Decidable (b.HasAddr addr) := inferInstanceAs (Decidable (_ ∧ _))

instance (host : ℕ) : Decidable (b.HasHost host) := inferInstanceAs (Decidable (_ ∧ _))

/-- The host address of a RAM address in the block. -/
def ptr (addr : ℕ) : ℕ := b.host + (addr - b.offset)

end RAMBlock

/-- The search of `qemu_get_ram_ptr` past its first entry. The entry that is found goes before
the one in front of it. -/
def getRamPtrAfter (addr : ℕ) (prev : RAMBlock) : List RAMBlock → Option (ℕ × List RAMBlock)
  | [] => none
  | b :: bs =>
    if b.HasAddr addr then some (b.ptr addr, b :: prev :: bs)
    else (getRamPtrAfter addr b bs).map fun r => (r.1, prev :: r.2)

/-- `qemu_get_ram_ptr`, with the list that it leaves. An address outside RAM ends the program. -/
def qemuGetRamPtr (addr : ℕ) : List RAMBlock → Option (ℕ × List RAMBlock)
  | [] => none
  | b :: bs => if b.HasAddr addr then some (b.ptr addr, b :: bs) else getRamPtrAfter addr b bs

def qemuRamAddrFromHost (host : ℕ) : List RAMBlock → Option ℕ
  | [] => none
  | b :: bs => if b.HasHost host then some (b.offset + (host - b.host)) else qemuRamAddrFromHost host bs

structure BounceBuffer (t : Target) where
  buffer : ℕ
  addr : Addr t
  len : ℕ

structure State (t : Target) where
  ramBlocks : List RAMBlock
  lastRamOffset : ℕ
  /-- `phys_offset` of a page, `IO_MEM_UNASSIGNED` where there is no descriptor. -/
  physOffset : Addr t → PhysOffset t
  bounce : BounceBuffer t

/-- `TARGET_PAGE_ALIGN`. -/
def pageAlign (t : Target) (size : ℕ) : ℕ := (size + t.pageSize - 1) / t.pageSize * t.pageSize

/-- Why a round of the loop of `cpu_physical_memory_map` has no pointer. -/
inductive Stop where
  | abort
  | leave

namespace State

variable (s : State t)

/-- `qemu_ram_alloc`, where `host` is what `qemu_vmalloc` returns. -/
def qemuRamAlloc (size host : ℕ) : State t :=
  let size := pageAlign t size
  { s with
    ramBlocks := ⟨host, s.lastRamOffset, size⟩ :: s.ramBlocks
    lastRamOffset := s.lastRamOffset + size }

/-- `ptr` of a round of `cpu_physical_memory_map`, where `buffer` is what `qemu_memalign` returns. -/
def mapPtr (buffer : ℕ) (addr : Addr t) (l done : ℕ) : Except Stop (ℕ × State t) :=
  match s.physOffset (page addr) with
  | .ram p =>
    match qemuGetRamPtr (p.addr + offset addr).toNat s.ramBlocks with
    | some (ptr, blocks) => .ok (ptr, { s with ramBlocks := blocks })
    | none => .error .abort
  | _ =>
    if done ≠ 0 ∨ s.bounce.buffer ≠ 0 then .error .leave
    else .ok (buffer, { s with bounce := ⟨buffer, addr, l⟩ })

/-- `l` of a round. -/
def chunk (addr : Addr t) (len : ℕ) : ℕ := min (t.pageSize - (offset addr).toNat) len

/-- The loop of `cpu_physical_memory_map`, with the returned pointer and `*plen`. -/
def mapLoop (buffer : ℕ) : ℕ → Addr t → ℕ → ℕ → ℕ → State t → Option (ℕ × ℕ × State t)
  | 0, _, _, ret, done, s => some (ret, done, s)
  | fuel + 1, addr, len, ret, done, s =>
    if len = 0 then some (ret, done, s)
    else
      let l := chunk addr len
      match s.mapPtr buffer addr l done with
      | .error .abort => none
      | .error .leave => some (ret, done, s)
      | .ok (ptr, s) =>
        if done = 0 then mapLoop buffer fuel (addr + BitVec.ofNat _ l) (len - l) ptr l s
        else if ret + done ≠ ptr then some (ret, done, s)
        else mapLoop buffer fuel (addr + BitVec.ofNat _ l) (len - l) ret (done + l) s

/-- `cpu_physical_memory_map`. Each round maps at least one byte. -/
def cpuPhysicalMemoryMap (addr : Addr t) (len buffer : ℕ) : Option (ℕ × ℕ × State t) :=
  mapLoop buffer len addr len 0 0 s

/-- `cpu_physical_memory_unmap`, without what it does to memory. -/
def cpuPhysicalMemoryUnmap (buffer : ℕ) (isWrite : Bool) : Option (State t) :=
  if buffer ≠ s.bounce.buffer then
    if isWrite then (qemuRamAddrFromHost buffer s.ramBlocks).map fun _ => s else some s
  else some { s with bounce := { s.bounce with buffer := 0 } }

def ramAddr (a : Addr t) : Option ℕ :=
  match s.physOffset (page a) with
  | .ram p => some (p.addr + offset a).toNat
  | _ => none

end State

/-- A host byte is the byte of RAM at an address. -/
def Backs (blocks : List RAMBlock) (addr host : ℕ) : Prop := ∃ b ∈ blocks, b.HasAddr addr ∧ host = b.ptr addr

/-- What `cpu_physical_memory_map` promises of the pointer `ret` and the length `plen` it
returns. -/
structure Window (s : State t) (addr : Addr t) (len ret plen : ℕ) (s' : State t) : Prop where
  null : ret = 0 → plen = 0 ∧ s.ramAddr addr = none ∧ s.bounce.buffer ≠ 0
  pos : ret ≠ 0 → 0 < plen ∧ plen ≤ len
  ram : ret ≠ 0 → s.ramAddr addr ≠ none →
    ∀ k < plen, ∃ r, s.ramAddr (addr + BitVec.ofNat _ k) = some r ∧ Backs s.ramBlocks r (ret + k)
  /-- The bounce buffer covers at most the first page. -/
  bounce : ret ≠ 0 → s.ramAddr addr = none →
    s.bounce.buffer = 0 ∧ ret = s'.bounce.buffer ∧ (offset addr).toNat + plen ≤ t.pageSize

/-- The blocks fill the RAM addresses below `last_ram_offset`, the host addresses of the blocks
and of the bounce buffer are apart, and the page table has no RAM page that was not allocated. -/
structure Wf (s : State t) : Prop where
  offset_dvd : ∀ b ∈ s.ramBlocks, t.pageSize ∣ b.offset
  length_dvd : ∀ b ∈ s.ramBlocks, t.pageSize ∣ b.length
  below : ∀ b ∈ s.ramBlocks, b.offset + b.length ≤ s.lastRamOffset
  covered : ∀ r < s.lastRamOffset, ∃ b ∈ s.ramBlocks, b.HasAddr r
  addrs : ∀ b ∈ s.ramBlocks, ∀ c ∈ s.ramBlocks, ∀ r, b.HasAddr r → c.HasAddr r → b = c
  hosts : ∀ b ∈ s.ramBlocks, ∀ c ∈ s.ramBlocks, ∀ h, b.HasHost h → c.HasHost h → b = c
  host_pos : ∀ b ∈ s.ramBlocks, 0 < b.host
  table : ∀ a p, s.physOffset a = .ram p → p.addr.toNat + t.pageSize ≤ s.lastRamOffset
  bounce : s.bounce.buffer ≠ 0 → ∀ b ∈ s.ramBlocks, ∀ i < t.pageSize, ¬ b.HasHost (s.bounce.buffer + i)

/-- An allocation of `size` bytes at a host address is apart from what is in use. -/
structure Fresh (s : State t) (host size : ℕ) : Prop where
  pos : 0 < host
  blocks : ∀ b ∈ s.ramBlocks, ∀ i < size, ¬ b.HasHost (host + i)
  bounce : s.bounce.buffer ≠ 0 → ∀ i < size, ∀ j < t.pageSize, host + i ≠ s.bounce.buffer + j

/-! ### Looking up RAM -/

section Lookup

variable {addr : ℕ} {blocks : List RAMBlock}

theorem exists_mem_tail {b : RAMBlock} (h : ∃ c ∈ b :: blocks, c.HasAddr addr) (hb : ¬ b.HasAddr addr) :
    ∃ c ∈ blocks, c.HasAddr addr := by
  obtain ⟨c, hc, haddr⟩ := h
  rcases List.mem_cons.1 hc with rfl | hc
  · exact absurd haddr hb
  · exact ⟨c, hc, haddr⟩

theorem getRamPtrAfter_spec : ∀ {blocks : List RAMBlock} (prev : RAMBlock), (∃ b ∈ blocks, b.HasAddr addr) →
    ∃ ptr blocks', getRamPtrAfter addr prev blocks = some (ptr, blocks') ∧ blocks'.Perm (prev :: blocks) ∧
      Backs blocks addr ptr
  | [], _, h => by
    obtain ⟨b, hb, -⟩ := h
    cases hb
  | b :: bs, prev, h => by
    rw [getRamPtrAfter]
    split
    · rename_i hb
      exact ⟨_, _, rfl, .swap prev b bs, b, List.mem_cons_self, hb, rfl⟩
    · rename_i hb
      obtain ⟨ptr, bs', heq, hperm, c, hc, hbacks⟩ := getRamPtrAfter_spec b (exists_mem_tail h hb)
      rw [heq]
      exact ⟨ptr, prev :: bs', rfl, hperm.cons prev, c, List.mem_cons_of_mem b hc, hbacks⟩

/-- `qemu_get_ram_ptr` finds the byte of RAM at an address, and only reorders the blocks. -/
theorem qemuGetRamPtr_spec (h : ∃ b ∈ blocks, b.HasAddr addr) :
    ∃ ptr blocks', qemuGetRamPtr addr blocks = some (ptr, blocks') ∧ blocks'.Perm blocks ∧ Backs blocks addr ptr := by
  cases blocks with
  | nil =>
    obtain ⟨b, hb, -⟩ := h
    cases hb
  | cons b bs =>
    rw [qemuGetRamPtr]
    split
    · rename_i hb
      exact ⟨_, _, rfl, .refl _, b, List.mem_cons_self, hb, rfl⟩
    · rename_i hb
      obtain ⟨ptr, bs', heq, hperm, c, hc, hbacks⟩ := getRamPtrAfter_spec b (exists_mem_tail h hb)
      exact ⟨ptr, bs', heq, hperm, c, List.mem_cons_of_mem b hc, hbacks⟩

theorem Backs.perm {blocks' : List RAMBlock} {host : ℕ} (h : Backs blocks addr host) (hperm : blocks.Perm blocks') :
    Backs blocks' addr host := by
  obtain ⟨b, hb, hbacks⟩ := h
  exact ⟨b, hperm.mem_iff.1 hb, hbacks⟩

/-- `qemu_ram_addr_from_host` goes back from a host byte to the RAM address. -/
theorem qemuRamAddrFromHost_spec : ∀ {blocks : List RAMBlock} {host : ℕ},
    (∀ b ∈ blocks, ∀ c ∈ blocks, ∀ h, b.HasHost h → c.HasHost h → b = c) → Backs blocks addr host →
    qemuRamAddrFromHost host blocks = some addr
  | [], _, _, hbacks => by
    obtain ⟨b, hb, -⟩ := hbacks
    cases hb
  | c :: cs, host, huniq, hbacks => by
    obtain ⟨b, hb, ⟨hlo, hhi⟩, hptr⟩ := hbacks
    rw [RAMBlock.ptr] at hptr
    have hhost : b.HasHost host := ⟨by omega, by omega⟩
    rw [qemuRamAddrFromHost]
    split
    · rename_i hc
      rw [← huniq b hb c List.mem_cons_self host hhost hc]
      congr 1
      omega
    · rename_i hc
      rcases List.mem_cons.1 hb with rfl | hb
      · exact absurd hhost hc
      · exact qemuRamAddrFromHost_spec
          (fun d hd e he => huniq d (List.mem_cons_of_mem c hd) e (List.mem_cons_of_mem c he))
          ⟨b, hb, ⟨hlo, hhi⟩, by rw [RAMBlock.ptr]; exact hptr⟩

end Lookup

/-! ### The loop -/

section Loop

variable {s : State t} {addr : Addr t}

def State.reorder (s : State t) (blocks : List RAMBlock) : State t := { s with ramBlocks := blocks }

@[simp] theorem ramAddr_reorder (blocks : List RAMBlock) (a : Addr t) : (s.reorder blocks).ramAddr a = s.ramAddr a := rfl

theorem ramAddr_of_ram {p : PhysPage t} (h : s.physOffset (page addr) = .ram p) :
    s.ramAddr addr = some (p.addr.toNat + (offset addr).toNat) := by
  rw [State.ramAddr, h, ← toNat_add_offset]

theorem Wf.reorder (h : Wf s) {blocks : List RAMBlock} (hperm : blocks.Perm s.ramBlocks) : Wf (s.reorder blocks) where
  offset_dvd b hb := h.offset_dvd b (hperm.mem_iff.1 hb)
  length_dvd b hb := h.length_dvd b (hperm.mem_iff.1 hb)
  below b hb := h.below b (hperm.mem_iff.1 hb)
  covered r hr := by
    obtain ⟨b, hb, haddr⟩ := h.covered r hr
    exact ⟨b, hperm.mem_iff.2 hb, haddr⟩
  addrs b hb c hc := h.addrs b (hperm.mem_iff.1 hb) c (hperm.mem_iff.1 hc)
  hosts b hb c hc := h.hosts b (hperm.mem_iff.1 hb) c (hperm.mem_iff.1 hc)
  host_pos b hb := h.host_pos b (hperm.mem_iff.1 hb)
  table := h.table
  bounce hne b hb := h.bounce hne b (hperm.mem_iff.1 hb)

/-- A round for a RAM page finds its host address. -/
theorem mapPtr_ram (h : Wf s) {r : ℕ} (hr : s.ramAddr addr = some r) (buffer l done : ℕ) :
    ∃ ptr blocks, s.mapPtr buffer addr l done = .ok (ptr, s.reorder blocks) ∧ blocks.Perm s.ramBlocks ∧
      Backs s.ramBlocks r ptr := by
  rw [State.ramAddr] at hr
  cases hp : s.physOffset (page addr) with
  | ram p =>
    rw [hp] at hr
    cases hr
    have hlt : (p.addr + offset addr).toNat < s.lastRamOffset := by
      rw [toNat_add_offset]
      exact (Nat.add_lt_add_left (offset_lt addr) _).trans_le (h.table _ p hp)
    obtain ⟨ptr, blocks, hget, hperm, hbacks⟩ := qemuGetRamPtr_spec (h.covered _ hlt)
    refine ⟨ptr, blocks, ?_, hperm, hbacks⟩
    rw [State.mapPtr, hp]
    simp only [hget]
    rfl
  | rom p | romd p | io =>
    rw [hp] at hr
    cases hr

theorem mapPtr_other (hr : s.ramAddr addr = none) (buffer l done : ℕ) :
    s.mapPtr buffer addr l done = if done ≠ 0 ∨ s.bounce.buffer ≠ 0 then .error .leave
      else .ok (buffer, { s with bounce := ⟨buffer, addr, l⟩ }) := by
  rw [State.ramAddr] at hr
  cases hp : s.physOffset (page addr) with
  | ram p =>
    rw [hp] at hr
    cases hr
  | rom p | romd p | io => rw [State.mapPtr, hp]

/-- A block has all of a page or nothing of it. -/
theorem Wf.backs_add (h : Wf s) {r ptr : ℕ} (hr : s.ramAddr addr = some r) (hbacks : Backs s.ramBlocks r ptr) {k : ℕ}
    (hk : (offset addr).toNat + k < t.pageSize) :
    s.ramAddr (addr + BitVec.ofNat _ k) = some (r + k) ∧ Backs s.ramBlocks (r + k) (ptr + k) := by
  have hS : 0 < t.pageSize := Nat.two_pow_pos _
  have hpage := page_add_lt hk
  cases hp : s.physOffset (page addr) with
  | ram p =>
    rw [ramAddr_of_ram hp] at hr
    cases hr
    refine ⟨?_, ?_⟩
    · rw [ramAddr_of_ram (hpage.symm ▸ hp), offset_add hk, Nat.add_assoc]
    · obtain ⟨b, hb, ⟨hlo, hhi⟩, rfl⟩ := hbacks
      obtain ⟨m, hm⟩ := page_eq_self_iff.1 p.aligned
      obtain ⟨i, hi⟩ := h.offset_dvd b hb
      obtain ⟨j, hj⟩ := h.length_dvd b hb
      refine ⟨b, hb, ⟨by omega, ?_⟩, ?_⟩
      · rw [hm, hi, hj, ← Nat.mul_add] at hhi ⊢
        have hquot : m < i + j := Nat.lt_of_mul_lt_mul_left (Nat.lt_of_le_of_lt (Nat.le_add_right _ _) hhi)
        have hend : t.pageSize * (m + 1) ≤ t.pageSize * (i + j) := Nat.mul_le_mul_left _ hquot
        rw [Nat.mul_succ] at hend
        omega
      · simp only [RAMBlock.ptr]
        omega
  | rom p | romd p | io =>
    rw [State.ramAddr, hp] at hr
    cases hr

theorem chunk_pos (addr : Addr t) {len : ℕ} (hlen : len ≠ 0) : 0 < State.chunk addr len := by
  have := offset_lt addr
  rw [State.chunk]
  omega

theorem offset_add_lt_of_chunk {len k : ℕ} (hk : k < State.chunk addr len) : (offset addr).toNat + k < t.pageSize := by
  have := offset_lt addr
  rw [State.chunk] at hk
  omega

/-- The rounds after the first only add RAM that follows in host memory. -/
theorem mapLoop_extend (buffer : ℕ) : ∀ (fuel : ℕ) (addr : Addr t) (len ret : ℕ) {done : ℕ} {s : State t}, Wf s → 0 < done →
    ∃ plen blocks, State.mapLoop buffer fuel addr len ret done s = some (ret, plen, s.reorder blocks) ∧
      blocks.Perm s.ramBlocks ∧ done ≤ plen ∧ plen ≤ done + len ∧
      ∀ k, done + k < plen → ∃ r, s.ramAddr (addr + BitVec.ofNat _ k) = some r ∧ Backs s.ramBlocks r (ret + (done + k))
  | 0, addr, len, ret, done, s, _, _ => ⟨done, s.ramBlocks, rfl, .refl _, le_rfl, by omega, fun k hk => by omega⟩
  | fuel + 1, addr, len, ret, done, s, h, hdone => by
    have hstay : ∀ blocks : List RAMBlock, blocks.Perm s.ramBlocks →
        ∃ plen blocks', some (ret, done, s.reorder blocks) = some (ret, plen, s.reorder blocks') ∧
          blocks'.Perm s.ramBlocks ∧ done ≤ plen ∧ plen ≤ done + len ∧
          ∀ k, done + k < plen →
            ∃ r, s.ramAddr (addr + BitVec.ofNat _ k) = some r ∧ Backs s.ramBlocks r (ret + (done + k)) :=
      fun blocks hperm => ⟨done, blocks, rfl, hperm, le_rfl, by omega, fun k hk => by omega⟩
    rw [State.mapLoop]
    by_cases hlen : len = 0
    · rw [if_pos hlen]
      exact hstay s.ramBlocks (.refl _)
    rw [if_neg hlen]
    dsimp only
    have hl := chunk_pos addr hlen
    cases hr : s.ramAddr addr with
    | none =>
      rw [mapPtr_other hr, if_pos (Or.inl (Nat.ne_of_gt hdone))]
      exact hstay s.ramBlocks (.refl _)
    | some r =>
      obtain ⟨ptr, blocks, hptr, hperm, hbacks⟩ := mapPtr_ram h hr buffer (State.chunk addr len) done
      rw [hptr]
      dsimp only
      rw [if_neg (Nat.ne_of_gt hdone)]
      split
      · exact hstay blocks hperm
      · rename_i heq
        have heq : ret + done = ptr := not_not.1 heq
        have hle : State.chunk addr len ≤ len := Nat.min_le_right _ _
        obtain ⟨plen, blocks', hloop, hperm', hlo, hhi, hwindow⟩ :=
          mapLoop_extend buffer fuel _ _ _ (h.reorder hperm) (Nat.lt_of_lt_of_le hdone (Nat.le_add_right done _))
        refine ⟨plen, blocks', hloop, hperm'.trans hperm, by omega, by omega, fun k hk => ?_⟩
        by_cases hin : k < State.chunk addr len
        · obtain ⟨haddr, hback⟩ := h.backs_add hr hbacks (offset_add_lt_of_chunk hin)
          exact ⟨r + k, haddr, by rw [← Nat.add_assoc, heq]; exact hback⟩
        · obtain ⟨r', haddr, hback⟩ := hwindow (k - State.chunk addr len) (by omega)
          refine ⟨r', ?_, ?_⟩
          · rw [← haddr, ramAddr_reorder, BitVec.add_assoc, ← BitVec.ofNat_add]
            congr 3
            omega
          · have hsum : done + State.chunk addr len + (k - State.chunk addr len) = done + k := by omega
            rw [← hsum]
            exact hback.perm hperm

/-- What `cpu_physical_memory_map` does for a RAM page. -/
theorem map_ram (h : Wf s) {r len : ℕ} (hr : s.ramAddr addr = some r) (hlen : 0 < len) (buffer : ℕ) :
    ∃ ret plen blocks, s.cpuPhysicalMemoryMap addr len buffer = some (ret, plen, s.reorder blocks) ∧
      blocks.Perm s.ramBlocks ∧ 0 < plen ∧ plen ≤ len ∧
      ∀ k < plen, ∃ r, s.ramAddr (addr + BitVec.ofNat _ k) = some r ∧ Backs s.ramBlocks r (ret + k) := by
  obtain ⟨len, rfl⟩ : ∃ n, len = n + 1 := ⟨len - 1, by omega⟩
  obtain ⟨ptr, blocks, hptr, hperm, hbacks⟩ := mapPtr_ram h hr buffer (State.chunk addr (len + 1)) 0
  have hl : 0 < State.chunk addr (len + 1) := chunk_pos addr (Nat.succ_ne_zero len)
  have hle : State.chunk addr (len + 1) ≤ len + 1 := Nat.min_le_right _ _
  obtain ⟨plen, blocks', hloop, hperm', hlo, hhi, hwindow⟩ := mapLoop_extend buffer len
    (addr + BitVec.ofNat _ (State.chunk addr (len + 1))) (len + 1 - State.chunk addr (len + 1)) ptr
    (h.reorder hperm) hl
  refine ⟨ptr, plen, blocks', ?_, hperm'.trans hperm, by omega, by omega, fun k hk => ?_⟩
  · rw [State.cpuPhysicalMemoryMap, State.mapLoop, if_neg (Nat.succ_ne_zero len)]
    dsimp only
    rw [hptr]
    exact hloop
  · by_cases hin : k < State.chunk addr (len + 1)
    · exact ⟨r + k, h.backs_add hr hbacks (offset_add_lt_of_chunk hin)⟩
    · obtain ⟨r', haddr, hback⟩ := hwindow (k - State.chunk addr (len + 1)) (by omega)
      have hsum : State.chunk addr (len + 1) + (k - State.chunk addr (len + 1)) = k := by omega
      rw [hsum] at hback
      refine ⟨r', ?_, hback.perm hperm⟩
      rw [← haddr, ramAddr_reorder, BitVec.add_assoc, ← BitVec.ofNat_add, hsum]

theorem mapped_ram (h : Wf s) {r len buffer ret plen : ℕ} {s' : State t} (hr : s.ramAddr addr = some r)
    (hmap : s.cpuPhysicalMemoryMap addr len buffer = some (ret, plen, s')) (hret : ret ≠ 0) :
    0 < plen ∧ ∀ k < plen, ∃ r, s.ramAddr (addr + BitVec.ofNat _ k) = some r ∧ Backs s.ramBlocks r (ret + k) := by
  rcases Nat.eq_zero_or_pos len with rfl | hlen
  · cases hmap
    exact absurd rfl hret
  · obtain ⟨ret', plen', blocks, hmap', -, hpos, -, hwindow⟩ := map_ram h hr hlen buffer
    cases hmap'.symm.trans hmap
    exact ⟨hpos, hwindow⟩

/-- A mapping of RAM is not longer than RAM. -/
theorem Wf.window_le (h : Wf s) {ret plen : ℕ}
    (hwindow : ∀ k < plen, ∃ r, s.ramAddr (addr + BitVec.ofNat _ k) = some r ∧ Backs s.ramBlocks r (ret + k)) :
    plen ≤ s.lastRamOffset := by
  choose r _ hbacks using hwindow
  have hlt : ∀ k (hk : k < plen), r k hk < s.lastRamOffset := fun k hk => by
    obtain ⟨b, hb, haddr, -⟩ := hbacks k hk
    exact haddr.2.trans_le (h.below b hb)
  have hinj : Function.Injective fun k : Fin plen => (⟨r k k.isLt, hlt k k.isLt⟩ : Fin s.lastRamOffset) := by
    intro i j hij
    have heq : r i i.isLt = r j j.isLt := congrArg Fin.val hij
    obtain ⟨b, hb, hbi, hptri⟩ := hbacks i i.isLt
    obtain ⟨c, hc, hcj, hptrj⟩ := hbacks j j.isLt
    have hbc : b = c := h.addrs b hb c hc _ hbi (heq ▸ hcj)
    rw [hbc, heq, ← hptrj] at hptri
    exact Fin.ext (Nat.add_left_cancel hptri)
  have hcard := Fintype.card_le_of_injective _ hinj
  rwa [Fintype.card_fin, Fintype.card_fin] at hcard

theorem map_taken (hr : s.ramAddr addr = none) (htaken : s.bounce.buffer ≠ 0) (len buffer : ℕ) :
    s.cpuPhysicalMemoryMap addr len buffer = some (0, 0, s) := by
  cases len with
  | zero => rfl
  | succ len =>
    rw [State.cpuPhysicalMemoryMap, State.mapLoop, if_neg (Nat.succ_ne_zero len)]
    dsimp only
    rw [mapPtr_other hr, if_pos (Or.inr htaken)]

/-- The state with the bounce buffer for the first page of a range. -/
def State.bounced (s : State t) (addr : Addr t) (len buffer : ℕ) : State t :=
  { s with bounce := ⟨buffer, addr, State.chunk addr len⟩ }

theorem map_bounced (hr : s.ramAddr addr = none) (hfree : s.bounce.buffer = 0) (len buffer : ℕ) :
    s.cpuPhysicalMemoryMap addr (len + 1) buffer =
      State.mapLoop buffer len (addr + BitVec.ofNat _ (State.chunk addr (len + 1))) (len + 1 - State.chunk addr (len + 1))
        buffer (State.chunk addr (len + 1)) (s.bounced addr (len + 1) buffer) := by
  rw [State.cpuPhysicalMemoryMap, State.mapLoop, if_neg (Nat.succ_ne_zero len)]
  dsimp only
  rw [mapPtr_other hr, if_neg (by simp [hfree])]
  rfl

theorem Wf.bounced (h : Wf s) {buffer : ℕ} (hfresh : Fresh s buffer t.pageSize) (len : ℕ) : Wf (s.bounced addr len buffer) where
  offset_dvd := h.offset_dvd
  length_dvd := h.length_dvd
  below := h.below
  covered := h.covered
  addrs := h.addrs
  hosts := h.hosts
  host_pos := h.host_pos
  table := h.table
  bounce _ := hfresh.blocks

/-- What `cpu_physical_memory_map` does for another page while the bounce buffer is free. -/
theorem map_free (h : Wf s) (hr : s.ramAddr addr = none) (hfree : s.bounce.buffer = 0) {len buffer : ℕ} (hlen : 0 < len)
    (hfresh : Fresh s buffer t.pageSize) :
    ∃ plen blocks, s.cpuPhysicalMemoryMap addr len buffer =
        some (buffer, plen, (s.bounced addr len buffer).reorder blocks) ∧
      blocks.Perm s.ramBlocks ∧ 0 < plen ∧ plen ≤ len := by
  obtain ⟨len, rfl⟩ : ∃ n, len = n + 1 := ⟨len - 1, by omega⟩
  have hl : 0 < State.chunk addr (len + 1) := chunk_pos addr (Nat.succ_ne_zero len)
  have hle : State.chunk addr (len + 1) ≤ len + 1 := Nat.min_le_right _ _
  obtain ⟨plen, blocks, hloop, hperm, hlo, hhi, -⟩ := mapLoop_extend buffer len
    (addr + BitVec.ofNat _ (State.chunk addr (len + 1))) (len + 1 - State.chunk addr (len + 1)) buffer
    (h.bounced hfresh (len + 1)) hl
  rw [map_bounced hr hfree]
  exact ⟨plen, blocks, hloop, hperm, by omega, by omega⟩

theorem mapped_other (h : Wf s) {len buffer ret plen : ℕ} {s' : State t} (hr : s.ramAddr addr = none)
    (hfresh : Fresh s buffer t.pageSize) (hmap : s.cpuPhysicalMemoryMap addr len buffer = some (ret, plen, s'))
    (hret : ret ≠ 0) : ret = s'.bounce.buffer ∧ s'.bounce.addr = addr ∧ s'.bounce.len = State.chunk addr len := by
  rcases Nat.eq_zero_or_pos len with rfl | hlen
  · cases hmap
    exact absurd rfl hret
  by_cases hfree : s.bounce.buffer = 0
  · obtain ⟨plen', blocks, hmap', -⟩ := map_free h hr hfree hlen hfresh
    cases hmap'.symm.trans hmap
    exact ⟨rfl, rfl, rfl⟩
  · cases (map_taken hr hfree len buffer).symm.trans hmap
    exact absurd rfl hret

theorem offset_add_chunk {len : ℕ} (hlen : State.chunk addr len ≠ len) :
    offset (addr + BitVec.ofNat _ (State.chunk addr len)) = 0#_ := by
  have hoff := offset_lt addr
  have hchunk : State.chunk addr len = t.pageSize - (offset addr).toNat := by
    rw [State.chunk] at hlen ⊢
    omega
  rw [← BitVec.toNat_inj, toNat_offset, BitVec.toNat_add, Nat.mod_mod_of_dvd _ (pageSize_dvd t), BitVec.toNat_ofNat,
    Nat.add_mod, Nat.mod_mod_of_dvd _ (pageSize_dvd t), ← Nat.add_mod, hchunk, toNat_offset]
  rw [toNat_offset] at hoff
  have hdiv := Nat.div_add_mod addr.toNat t.pageSize
  rw [show addr.toNat + (t.pageSize - addr.toNat % t.pageSize) = t.pageSize * (addr.toNat / t.pageSize + 1) by
    rw [Nat.mul_succ]; omega, Nat.mul_mod_right]
  rfl

/-- RAM does not follow the bounce buffer in host memory unless a block starts there. -/
theorem Wf.not_backs_after (h : Wf s) {len buffer r : ℕ} (hfresh : Fresh s buffer t.pageSize)
    (hgap : ∀ b ∈ s.ramBlocks, b.host ≠ buffer + t.pageSize) (hlen : State.chunk addr len ≠ len)
    (hr : s.ramAddr (addr + BitVec.ofNat _ (State.chunk addr len)) = some r) :
    ¬ Backs s.ramBlocks r (buffer + State.chunk addr len) := by
  rintro ⟨b, hb, ⟨hlo, hhi⟩, hptr⟩
  have hS : 0 < t.pageSize := Nat.two_pow_pos _
  have hhost : b.HasHost (b.ptr r) := by
    simp only [RAMBlock.HasHost, RAMBlock.ptr]
    omega
  by_cases hpart : State.chunk addr len < t.pageSize
  · exact hfresh.blocks b hb _ hpart (hptr ▸ hhost)
  -- the buffer is used in full, and the RAM page begins where it ends
  have hfull : State.chunk addr len = t.pageSize := by
    rw [State.chunk] at hpart ⊢
    omega
  have haligned : t.pageSize ∣ r := by
    cases hp : s.physOffset (page (addr + BitVec.ofNat _ (State.chunk addr len))) with
    | ram p =>
      rw [ramAddr_of_ram hp, offset_add_chunk hlen] at hr
      cases hr
      exact page_eq_self_iff.1 p.aligned
    | rom p | romd p | io =>
      rw [State.ramAddr, hp] at hr
      cases hr
  obtain ⟨m, hm⟩ := Nat.dvd_sub haligned (h.offset_dvd b hb)
  rw [hfull] at hptr
  rcases Nat.eq_zero_or_pos m with hzero | hpos
  · rw [hzero, Nat.mul_zero] at hm
    refine hgap b hb ?_
    rw [hptr, RAMBlock.ptr, hm, Nat.add_zero]
  · have hpage : t.pageSize ≤ r - b.offset := hm ▸ Nat.le_mul_of_pos_right _ hpos
    refine hfresh.blocks b hb 0 hS ?_
    simp only [RAMBlock.HasHost, RAMBlock.ptr] at hhost hptr ⊢
    omega

/-- A mapping of the bounce buffer does not go past it unless a block starts there. -/
theorem map_free_of_gap (h : Wf s) (hr : s.ramAddr addr = none) (hfree : s.bounce.buffer = 0) {len buffer : ℕ}
    (hlen : 0 < len) (hfresh : Fresh s buffer t.pageSize) (hgap : ∀ b ∈ s.ramBlocks, b.host ≠ buffer + t.pageSize) :
    ∃ blocks, s.cpuPhysicalMemoryMap addr len buffer =
        some (buffer, State.chunk addr len, (s.bounced addr len buffer).reorder blocks) := by
  obtain ⟨len, rfl⟩ : ∃ n, len = n + 1 := ⟨len - 1, by omega⟩
  rw [map_bounced hr hfree]
  cases len with
  | zero => exact ⟨s.ramBlocks, rfl⟩
  | succ len =>
    have hl : 0 < State.chunk addr (len + 1 + 1) := chunk_pos addr (Nat.succ_ne_zero _)
    rw [State.mapLoop]
    by_cases hall : State.chunk addr (len + 1 + 1) = len + 1 + 1
    · rw [if_pos (by omega)]
      exact ⟨s.ramBlocks, rfl⟩
    have hle : State.chunk addr (len + 1 + 1) ≤ len + 1 + 1 := Nat.min_le_right _ _
    rw [if_neg (by omega)]
    dsimp only
    cases hnext : (s.bounced addr (len + 1 + 1) buffer).ramAddr
        (addr + BitVec.ofNat _ (State.chunk addr (len + 1 + 1))) with
    | none =>
      rw [mapPtr_other hnext, if_pos (Or.inl (Nat.ne_of_gt hl))]
      exact ⟨s.ramBlocks, rfl⟩
    | some r =>
      obtain ⟨ptr, blocks, hptr, -, hbacks⟩ := mapPtr_ram (h.bounced hfresh (len + 1 + 1)) hnext buffer
        (State.chunk (addr + BitVec.ofNat _ (State.chunk addr (len + 1 + 1))) (len + 1 + 1 - State.chunk addr (len + 1 + 1)))
        (State.chunk addr (len + 1 + 1))
      rw [hptr]
      dsimp only
      rw [if_neg (Nat.ne_of_gt hl), if_pos]
      · exact ⟨blocks, rfl⟩
      · intro heq
        exact h.not_backs_after hfresh hgap hall hnext (heq ▸ hbacks)

/-- Every mapping of a length that is not 0 is a window. -/
theorem window_map (h : Wf s) {len buffer : ℕ} (hlen : 0 < len) (hfresh : Fresh s buffer t.pageSize)
    (hgap : ∀ b ∈ s.ramBlocks, b.host ≠ buffer + t.pageSize) :
    ∃ ret plen s', s.cpuPhysicalMemoryMap addr len buffer = some (ret, plen, s') ∧ Window s addr len ret plen s' := by
  cases hr : s.ramAddr addr with
  | some r =>
    obtain ⟨ret, plen, blocks, hmap, -, hpos, hle, hwindow⟩ := map_ram h hr hlen buffer
    obtain ⟨r', -, b, hb, -, hptr⟩ := hwindow 0 hpos
    have hret : ret ≠ 0 := by
      have hhost := h.host_pos b hb
      rw [RAMBlock.ptr] at hptr
      omega
    exact ⟨ret, plen, _, hmap, fun hzero => absurd hzero hret, fun _ => ⟨hpos, hle⟩, fun _ _ => hwindow, fun _ hnone => by
      rw [hr] at hnone
      cases hnone⟩
  | none =>
    by_cases hfree : s.bounce.buffer = 0
    · obtain ⟨blocks, hmap⟩ := map_free_of_gap h hr hfree hlen hfresh hgap
      refine ⟨buffer, _, _, hmap, fun hzero => absurd hzero (Nat.ne_of_gt hfresh.pos), fun _ => ?_, fun _ hram => absurd hr hram,
        fun _ _ => ⟨hfree, rfl, ?_⟩⟩
      · exact ⟨chunk_pos addr (Nat.ne_of_gt hlen), Nat.min_le_right _ _⟩
      · have hoff := offset_lt addr
        rw [State.chunk]
        omega
    · refine ⟨0, 0, s, map_taken hr hfree len buffer, fun _ => ⟨rfl, hr, hfree⟩, ?_, ?_, ?_⟩
      all_goals exact fun hne => absurd rfl hne

end Loop

/-! ### Runs -/

/-- A mapping that has not been given back. -/
structure Mapping where
  ret : ℕ
  plen : ℕ
  isBounce : Bool

structure Machine (t : Target) where
  state : State t
  mappings : List Mapping

inductive Op (t : Target) where
  | ramAlloc (size host : ℕ)
  | registerPage (a : PhysPage t) (pd : PhysOffset t)
  | map (addr : Addr t) (len buffer : ℕ)
  | unmap (buffer : ℕ) (isWrite : Bool)

def step (m : Machine t) : Op t → Option (Machine t)
  | .ramAlloc size host => some { m with state := m.state.qemuRamAlloc size host }
  | .registerPage a pd =>
    some { m with state := { m.state with physOffset := Function.update m.state.physOffset a.addr pd } }
  | .map addr len buffer =>
    (m.state.cpuPhysicalMemoryMap addr len buffer).map fun r =>
      ⟨r.2.2, if r.1 = 0 then m.mappings else ⟨r.1, r.2.1, (m.state.ramAddr addr).isNone⟩ :: m.mappings⟩
  | .unmap buffer isWrite =>
    (m.state.cpuPhysicalMemoryUnmap buffer isWrite).map fun s => ⟨s, m.mappings.eraseP fun x => x.ret = buffer⟩

/-- Allocations do not overlap, and only allocated RAM is registered. -/
def Ok (m : Machine t) : Op t → Prop
  | .ramAlloc size host => Fresh m.state host (pageAlign t size)
  | .registerPage _ pd => ∀ p, pd = .ram p → p.addr.toNat + t.pageSize ≤ m.state.lastRamOffset
  | .map _ _ buffer => Fresh m.state buffer t.pageSize
  | .unmap _ _ => True

def Machine.init : Machine t := ⟨⟨[], 0, fun _ => .io, ⟨0, 0, 0⟩⟩, []⟩

/-- What holds in every state. -/
structure Inv (m : Machine t) : Prop where
  wf : Wf m.state
  bounces : m.mappings.countP Mapping.isBounce = if m.state.bounce.buffer = 0 then 0 else 1
  bounce : ∀ x ∈ m.mappings, x.isBounce = true → x.ret = m.state.bounce.buffer
  ram : ∀ x ∈ m.mappings, x.isBounce = false → ∃ b ∈ m.state.ramBlocks, b.HasHost x.ret

section Runs

variable {m m' : Machine t} {s : State t}

theorem inv_init : Inv (Machine.init : Machine t) where
  wf := by constructor <;> simp [Machine.init]
  bounces := rfl
  bounce x hx := absurd hx List.not_mem_nil
  ram x hx := absurd hx List.not_mem_nil

theorem pageSize_dvd_pageAlign (t : Target) (size : ℕ) : t.pageSize ∣ pageAlign t size := Nat.dvd_mul_left _ _

theorem Wf.lastRamOffset_dvd (h : Wf s) (hpos : 0 < s.lastRamOffset) : t.pageSize ∣ s.lastRamOffset := by
  obtain ⟨b, hb, -, hhi⟩ := h.covered (s.lastRamOffset - 1) (by omega)
  have hbelow := h.below b hb
  have hend : s.lastRamOffset = b.offset + b.length := by omega
  rw [hend]
  exact Nat.dvd_add (h.offset_dvd b hb) (h.length_dvd b hb)

theorem Wf.qemuRamAlloc (h : Wf s) {size host : ℕ} (hfresh : Fresh s host (pageAlign t size)) :
    Wf (s.qemuRamAlloc size host) where
  offset_dvd b hb := by
    rcases List.mem_cons.1 hb with rfl | hb
    · rcases Nat.eq_zero_or_pos s.lastRamOffset with hzero | hpos
      · exact hzero ▸ Nat.dvd_zero _
      · exact h.lastRamOffset_dvd hpos
    · exact h.offset_dvd b hb
  length_dvd b hb := by
    rcases List.mem_cons.1 hb with rfl | hb
    · exact pageSize_dvd_pageAlign t size
    · exact h.length_dvd b hb
  below b hb := by
    rcases List.mem_cons.1 hb with rfl | hb
    · exact le_rfl
    · exact (h.below b hb).trans (Nat.le_add_right _ _)
  covered r hr := by
    by_cases hold : r < s.lastRamOffset
    · obtain ⟨b, hb, haddr⟩ := h.covered r hold
      exact ⟨b, List.mem_cons_of_mem _ hb, haddr⟩
    · exact ⟨_, List.mem_cons_self, Nat.le_of_not_lt hold, hr⟩
  addrs b hb c hc r hbr hcr := by
    rcases List.mem_cons.1 hb with rfl | hb
    · rcases List.mem_cons.1 hc with rfl | hc
      · rfl
      · exact absurd ((hcr.2.trans_le (h.below c hc)).trans_le hbr.1) (Nat.lt_irrefl r)
    · rcases List.mem_cons.1 hc with rfl | hc
      · exact absurd ((hbr.2.trans_le (h.below b hb)).trans_le hcr.1) (Nat.lt_irrefl r)
      · exact h.addrs b hb c hc r hbr hcr
  hosts b hb c hc x hbx hcx := by
    have hnew : ∀ d ∈ s.ramBlocks, d.HasHost x → host ≤ x → ¬ x < host + pageAlign t size := by
      intro d hd hdx hlo hhi
      refine hfresh.blocks d hd (x - host) (by omega) ?_
      rwa [Nat.add_sub_cancel' hlo]
    rcases List.mem_cons.1 hb with rfl | hb
    · rcases List.mem_cons.1 hc with rfl | hc
      · rfl
      · exact absurd hbx.2 (hnew c hc hcx hbx.1)
    · rcases List.mem_cons.1 hc with rfl | hc
      · exact absurd hcx.2 (hnew b hb hbx hcx.1)
      · exact h.hosts b hb c hc x hbx hcx
  host_pos b hb := by
    rcases List.mem_cons.1 hb with rfl | hb
    · exact hfresh.pos
    · exact h.host_pos b hb
  table a p hp := (h.table a p hp).trans (Nat.le_add_right _ _)
  bounce hne b hb i hi := by
    rcases List.mem_cons.1 hb with rfl | hb
    · rintro ⟨hlo, hhi⟩
      simp only at hlo hhi
      refine hfresh.bounce hne (s.bounce.buffer + i - host) ?_ i hi (Nat.add_sub_cancel' hlo)
      have : s.bounce.buffer + i < host + pageAlign t size := hhi
      omega
    · exact h.bounce hne b hb i hi

theorem Wf.registerPage (h : Wf s) (a : Addr t) {pd : PhysOffset t}
    (hpd : ∀ p, pd = .ram p → p.addr.toNat + t.pageSize ≤ s.lastRamOffset) :
    Wf { s with physOffset := Function.update s.physOffset a pd } where
  offset_dvd := h.offset_dvd
  length_dvd := h.length_dvd
  below := h.below
  covered := h.covered
  addrs := h.addrs
  hosts := h.hosts
  host_pos := h.host_pos
  table b p hp := by
    by_cases hb : b = a
    · subst hb
      exact hpd p ((Function.update_self b pd s.physOffset).symm.trans hp)
    · exact h.table b p ((Function.update_of_ne hb pd s.physOffset).symm.trans hp)
  bounce := h.bounce

theorem Wf.released (h : Wf s) : Wf { s with bounce := { s.bounce with buffer := 0 } } where
  offset_dvd := h.offset_dvd
  length_dvd := h.length_dvd
  below := h.below
  covered := h.covered
  addrs := h.addrs
  hosts := h.hosts
  host_pos := h.host_pos
  table := h.table
  bounce hne := absurd rfl hne

theorem Inv.ramAlloc (h : Inv m) {size host : ℕ} (hfresh : Fresh m.state host (pageAlign t size)) :
    Inv { m with state := m.state.qemuRamAlloc size host } where
  wf := h.wf.qemuRamAlloc hfresh
  bounces := h.bounces
  bounce := h.bounce
  ram x hx hbounce := by
    obtain ⟨b, hb, hhost⟩ := h.ram x hx hbounce
    exact ⟨b, List.mem_cons_of_mem _ hb, hhost⟩

theorem Inv.registerPage (h : Inv m) (a : Addr t) {pd : PhysOffset t}
    (hpd : ∀ p, pd = .ram p → p.addr.toNat + t.pageSize ≤ m.state.lastRamOffset) :
    Inv { m with state := { m.state with physOffset := Function.update m.state.physOffset a pd } } :=
  ⟨h.wf.registerPage a hpd, h.bounces, h.bounce, h.ram⟩

theorem Inv.mapRam (h : Inv m) {blocks : List RAMBlock} (hperm : blocks.Perm m.state.ramBlocks) {ret : ℕ} (plen : ℕ)
    {r : ℕ} (hbacks : Backs m.state.ramBlocks r ret) : Inv ⟨m.state.reorder blocks, ⟨ret, plen, false⟩ :: m.mappings⟩ where
  wf := h.wf.reorder hperm
  bounces := by
    rw [List.countP_cons_of_neg (by simp)]
    exact h.bounces
  bounce x hx hbounce := by
    rcases List.mem_cons.1 hx with rfl | hx
    · cases hbounce
    · exact h.bounce x hx hbounce
  ram x hx hbounce := by
    rcases List.mem_cons.1 hx with rfl | hx
    · obtain ⟨b, hb, haddr, rfl⟩ := hbacks
      refine ⟨b, hperm.mem_iff.2 hb, ?_⟩
      simp only [RAMBlock.HasHost, RAMBlock.HasAddr, RAMBlock.ptr] at haddr ⊢
      omega
    · obtain ⟨b, hb, hhost⟩ := h.ram x hx hbounce
      exact ⟨b, hperm.mem_iff.2 hb, hhost⟩

/-- A new mapping of the bounce buffer. -/
theorem Inv.mapBounce (h : Inv m) {blocks : List RAMBlock} (hperm : blocks.Perm m.state.ramBlocks) {buffer : ℕ}
    (hfresh : Fresh m.state buffer t.pageSize) (hfree : m.state.bounce.buffer = 0) (addr : Addr t) (len plen : ℕ) :
    Inv ⟨(m.state.bounced addr len buffer).reorder blocks, ⟨buffer, plen, true⟩ :: m.mappings⟩ where
  wf := (h.wf.bounced hfresh len).reorder hperm
  bounces := by
    have hnone := h.bounces
    rw [if_pos hfree] at hnone
    rw [List.countP_cons_of_pos rfl, hnone]
    exact (if_neg (Nat.ne_of_gt hfresh.pos)).symm
  bounce x hx hbounce := by
    rcases List.mem_cons.1 hx with rfl | hx
    · rfl
    · have hnone := h.bounces
      rw [if_pos hfree, List.countP_eq_zero] at hnone
      exact absurd hbounce (hnone x hx)
  ram x hx hbounce := by
    rcases List.mem_cons.1 hx with rfl | hx
    · cases hbounce
    · obtain ⟨b, hb, hhost⟩ := h.ram x hx hbounce
      exact ⟨b, hperm.mem_iff.2 hb, hhost⟩

theorem Inv.map (h : Inv m) {addr : Addr t} {len buffer : ℕ} (hfresh : Fresh m.state buffer t.pageSize)
    (hstep : step m (.map addr len buffer) = some m') : Inv m' := by
  obtain ⟨⟨ret, plen, s'⟩, hmap, rfl⟩ := Option.map_eq_some_iff.1 hstep
  rcases Nat.eq_zero_or_pos len with rfl | hlen
  · cases hmap
    exact h
  cases hr : m.state.ramAddr addr with
  | some r =>
    obtain ⟨ret', plen', blocks, hmap', hperm, hpos, -, hwindow⟩ := map_ram h.wf hr hlen buffer
    cases hmap'.symm.trans hmap
    obtain ⟨r', -, hbacks⟩ := hwindow 0 hpos
    have hret : ret ≠ 0 := by
      obtain ⟨b, hb, -, hptr⟩ := hbacks
      have hhost := h.wf.host_pos b hb
      rw [RAMBlock.ptr] at hptr
      omega
    simp only [if_neg hret]
    exact h.mapRam hperm plen hbacks
  | none =>
    by_cases hfree : m.state.bounce.buffer = 0
    · obtain ⟨plen', blocks, hmap', hperm, -⟩ := map_free h.wf hr hfree hlen hfresh
      cases hmap'.symm.trans hmap
      simp only [if_neg (Nat.ne_of_gt hfresh.pos)]
      exact h.mapBounce hperm hfresh hfree addr len plen
    · cases (map_taken hr hfree len buffer).symm.trans hmap
      exact h

/-- Giving back a mapping of RAM, or a pointer that no mapping has. -/
theorem Inv.erase (h : Inv m) {buffer : ℕ} (hne : buffer ≠ m.state.bounce.buffer) :
    Inv { m with mappings := m.mappings.eraseP fun x => x.ret = buffer } := by
  have hmem : ∀ x ∈ m.mappings.eraseP (fun x => x.ret = buffer), x ∈ m.mappings := fun x => List.mem_of_mem_eraseP
  refine ⟨h.wf, ?_, fun x hx => h.bounce x (hmem x hx), fun x hx => h.ram x (hmem x hx)⟩
  rw [← h.bounces]
  by_cases hex : ∃ x ∈ m.mappings, x.ret = buffer
  · obtain ⟨x, hx, hret⟩ := hex
    obtain ⟨y, l₁, l₂, -, hy, hsplit, herase⟩ := List.exists_of_eraseP hx (p := fun x => x.ret = buffer) (by simpa using hret)
    have hy' : y.isBounce = false := by
      rw [Bool.eq_false_iff]
      intro hbounce
      have hret' : y.ret = buffer := by simpa using hy
      exact hne (hret' ▸ h.bounce y (hsplit ▸ List.mem_append_right l₁ List.mem_cons_self) hbounce)
    show List.countP _ (List.eraseP _ m.mappings) = _
    rw [herase, hsplit, List.countP_append, List.countP_append, List.countP_cons_of_neg (by simp [hy'])]
  · show List.countP _ (List.eraseP _ m.mappings) = _
    rw [List.eraseP_of_forall_not]
    intro x hx hret
    exact hex ⟨x, hx, by simpa using hret⟩

/-- Giving back the bounce buffer. -/
theorem Inv.release (h : Inv m) : Inv ⟨{ m.state with bounce := { m.state.bounce with buffer := 0 } },
    m.mappings.eraseP fun x => x.ret = m.state.bounce.buffer⟩ := by
  have hmem : ∀ x ∈ m.mappings.eraseP (fun x => x.ret = m.state.bounce.buffer), x ∈ m.mappings :=
    fun x => List.mem_of_mem_eraseP
  have hnone : (m.mappings.eraseP fun x => x.ret = m.state.bounce.buffer).countP Mapping.isBounce = 0 := by
    by_cases hzero : m.mappings.countP Mapping.isBounce = 0
    · rw [List.countP_eq_zero] at hzero ⊢
      exact fun x hx => hzero x (hmem x hx)
    obtain ⟨x, hx, hbounce⟩ := List.countP_pos_iff.1 (Nat.pos_of_ne_zero hzero)
    obtain ⟨y, l₁, l₂, -, hy, hsplit, herase⟩ := List.exists_of_eraseP hx (p := fun x => x.ret = m.state.bounce.buffer)
      (by simpa using h.bounce x hx hbounce)
    have hne : m.state.bounce.buffer ≠ 0 := fun hfree => hzero (h.bounces.trans (if_pos hfree))
    have hy' : y.isBounce = true := by
      by_contra hram
      obtain ⟨b, hb, hhost⟩ := h.ram y (hsplit ▸ List.mem_append_right l₁ List.mem_cons_self) (by simpa using hram)
      have hret : y.ret = m.state.bounce.buffer := by simpa using hy
      exact h.wf.bounce hne b hb 0 (Nat.two_pow_pos _) (hret ▸ hhost)
    have hone := h.bounces
    rw [if_neg hne, hsplit, List.countP_append, List.countP_cons_of_pos hy'] at hone
    rw [herase, List.countP_append]
    omega
  refine ⟨h.wf.released, hnone, fun x hx hbounce => ?_, fun x hx => h.ram x (hmem x hx)⟩
  exact absurd hbounce (List.countP_eq_zero.1 hnone x hx)

theorem Inv.unmap (h : Inv m) {buffer : ℕ} {isWrite : Bool} (hstep : step m (.unmap buffer isWrite) = some m') : Inv m' := by
  obtain ⟨s, hunmap, rfl⟩ := Option.map_eq_some_iff.1 hstep
  rw [State.cpuPhysicalMemoryUnmap] at hunmap
  split at hunmap
  · rename_i hne
    have hs : s = m.state := by
      split at hunmap
      · obtain ⟨_, -, hs⟩ := Option.map_eq_some_iff.1 hunmap
        exact hs.symm
      · cases hunmap
        rfl
    subst hs
    exact h.erase hne
  · rename_i heq
    cases hunmap
    rw [not_not.1 heq]
    exact h.release

theorem inv_step (op : Op t) (h : Inv m) (hok : Ok m op) (hstep : step m op = some m') : Inv m' := by
  cases op with
  | ramAlloc size host =>
    cases hstep
    exact h.ramAlloc hok
  | registerPage a pd =>
    cases hstep
    exact h.registerPage a.addr hok
  | map addr len buffer => exact h.map hok hstep
  | unmap buffer isWrite => exact h.unmap hstep

end Runs

/-- In every state that a run gets to, at most one mapping is of the bounce buffer, and a mapping of a length
that is not 0 is a window, where no RAM block starts at the end of the bounce buffer. -/
theorem map_windows (ops : List (Op t)) (hok : MeetsM step Ok Machine.init ops) (n : ℕ) (m : Machine t)
    (hrun : (ops.take n).foldlM step Machine.init = some m) :
    m.mappings.countP Mapping.isBounce ≤ 1 ∧
      ∀ (addr : Addr t) (len buffer : ℕ), 0 < len → Fresh m.state buffer t.pageSize →
        (∀ b ∈ m.state.ramBlocks, b.host ≠ buffer + t.pageSize) →
        ∃ ret plen s', m.state.cpuPhysicalMemoryMap addr len buffer = some (ret, plen, s') ∧
          Window m.state addr len ret plen s' := by
  have hinv : Inv m := foldlM_take_invariant (fun _ op _ h hok hstep => inv_step op h hok hstep) ops _ inv_init hok n m hrun
  refine ⟨?_, fun addr len buffer hlen hfresh hgap => window_map hinv.wf hlen hfresh hgap⟩
  rw [hinv.bounces]
  split
  · exact Nat.zero_le 1
  · exact le_rfl

def onePage : List (Op target32) := [.ramAlloc 4096 0x100000, .registerPage ⟨0, page_zero⟩ (.ram ⟨0, page_zero⟩)]

theorem onePage_ok : MeetsM step Ok Machine.init onePage := by
  refine ⟨⟨by decide, fun b hb => absurd hb List.not_mem_nil, fun hne => absurd rfl hne⟩, fun s' hs' => ?_⟩
  cases hs'
  refine ⟨fun p hp => ?_, fun s'' _ => trivial⟩
  cases hp
  decide

/-- The state after `onePage`. -/
def onePageState : State target32 :=
  ⟨[⟨0x100000, 0, 4096⟩], 4096, Function.update (fun _ => .io) 0 (.ram ⟨0, page_zero⟩), ⟨0, 0, 0⟩⟩

theorem onePage_run : onePage.foldlM step Machine.init = some ⟨onePageState, []⟩ := rfl

theorem map_windows_onePage : ∃ ret plen s',
    onePageState.cpuPhysicalMemoryMap 0x10 0x2000 0x200000 = some (ret, plen, s') ∧
      Window onePageState 0x10 0x2000 ret plen s' := by
  refine (map_windows onePage onePage_ok 2 _ onePage_run).2 _ _ _ (by decide) ⟨by decide, ?_, fun hne => absurd rfl hne⟩ ?_
  · intro b hb i _ hhost
    rw [onePageState, List.mem_singleton] at hb
    subst hb
    have hlt := hhost.2
    simp only at hlt
    omega
  · intro b hb
    rw [onePageState, List.mem_singleton] at hb
    subst hb
    decide

/-- A length of 0 maps nothing, also where the first page is RAM and the bounce buffer is free. And
a mapping of the bounce buffer goes on into a RAM block that starts at the end of the buffer. -/
theorem empty_map_null : MeetsM step Ok Machine.init onePage ∧
    onePage.foldlM step Machine.init = some ⟨onePageState, []⟩ ∧
    onePageState.cpuPhysicalMemoryMap 0 0 0x200000 = some (0, 0, onePageState) ∧
    ¬ Window onePageState 0 0 0 0 onePageState ∧
    Fresh onePageState 0xff000 target32.pageSize ∧
    ∃ s', onePageState.cpuPhysicalMemoryMap 0xfffff000 0x1001 0xff000 = some (0xff000, 0x1001, s') ∧
      ¬ Window onePageState 0xfffff000 0x1001 0xff000 0x1001 s' := by
  refine ⟨onePage_ok, onePage_run, rfl, fun h => absurd (h.null rfl).2.2 (by decide), ⟨by decide, ?_,
    fun hne => absurd rfl hne⟩, _, rfl, fun h => absurd (h.bounce (by decide) rfl).2.2 (by decide)⟩
  intro b hb i hi hhost
  rw [onePageState, List.mem_singleton] at hb
  subst hb
  have hlo : 0x100000 ≤ 0xff000 + i := hhost.1
  have hlt : i < 4096 := hi
  omega

end Ar7Qemu.Exec.PhysMap
