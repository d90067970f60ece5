import Ar7Qemu.Exec.PhysMap
import Ar7Qemu.Lib.Chain

/-! The list of RAM blocks in memory: `qemu_get_ram_ptr` rewires it at every lookup through a
pointer to the pointer that leads to the entry before the one it finds. -/

namespace Ar7Qemu.Exec.RamBlocks

open Lib
open PhysMap (RAMBlock Backs Wf Fresh pageAlign)

variable {t : Target}

/-- The entries by their number, in the order of their allocation. -/
structure Heap where
  blocks : ℕ → RAMBlock
  next : ℕ → Option ℕ
  ramBlocks : Option ℕ
  lastRamOffset : ℕ
  count : ℕ

/-- A `RAMBlock **`. -/
inductive Place where
  | ramBlocks
  | next (n : ℕ)

namespace Heap

variable (h : Heap)

/-- `*p`. -/
def get : Place → Option ℕ
  | .ramBlocks => h.ramBlocks
  | .next n => h.next n

/-- `*p = b`. -/
def set (p : Place) (b : Option ℕ) : Heap :=
  match p with
  | .ramBlocks => { h with ramBlocks := b }
  | .next n => { h with next := Function.update h.next n b }

/-- `qemu_ram_alloc`, where `host` is what `qemu_vmalloc` returns. -/
def qemuRamAlloc (t : Target) (size host : ℕ) : Heap :=
  let size := pageAlign t size
  { blocks := Function.update h.blocks h.count ⟨host, h.lastRamOffset, size⟩
    next := Function.update h.next h.count h.ramBlocks
    ramBlocks := some h.count
    lastRamOffset := h.lastRamOffset + size
    count := h.count + 1 }

/-- The search of `qemu_get_ram_ptr` and `qemu_ram_addr_from_host`, with `prev`, `prevp` and `block` at its end. -/
def search (hit : RAMBlock → Bool) : ℕ → Option ℕ → Place → Option ℕ → Option (Option ℕ × Place × ℕ)
  | 0, _, _, _ => none
  | _ + 1, _, _, none => none
  | fuel + 1, prev, prevp, some b =>
    if hit (h.blocks b) then some (prev, prevp, b)
    else search hit fuel (some b) ((prev.map Place.next).getD prevp) (h.next b)

/-- The end of `qemu_get_ram_ptr`, which moves the entry. -/
def move (prev : Option ℕ) (prevp : Place) (block : ℕ) : Heap :=
  match prev with
  | none => h
  | some prev =>
    let h := h.set (.next prev) (h.next block)
    let h := h.set (.next block) (h.get prevp)
    h.set prevp (some block)

/-- `qemu_get_ram_ptr`. An address outside RAM ends the program. -/
def qemuGetRamPtr (addr : ℕ) : Option (ℕ × Heap) :=
  (h.search (fun b => decide (b.HasAddr addr)) (h.count + 1) none .ramBlocks h.ramBlocks).map fun (prev, prevp, block) =>
    ((h.blocks block).ptr addr, h.move prev prevp block)

def qemuRamAddrFromHost (host : ℕ) : Option ℕ :=
  (h.search (fun b => decide (b.HasHost host)) (h.count + 1) none .ramBlocks h.ramBlocks).map fun (_, _, block) =>
    (h.blocks block).offset + (host - (h.blocks block).host)

end Heap

inductive Op where
  | ramAlloc (size host : ℕ)
  | getRamPtr (addr : ℕ)
  | ramAddrFromHost (host : ℕ)

def step (t : Target) (h : Heap) : Op → Option Heap
  | .ramAlloc size host => some (h.qemuRamAlloc t size host)
  | .getRamPtr addr => (h.qemuGetRamPtr addr).map Prod.snd
  | .ramAddrFromHost host => (h.qemuRamAddrFromHost host).map fun _ => h

/-- A new allocation is apart from the RAM that there is. -/
def Ok (t : Target) (h : Heap) : Op → Prop
  | .ramAlloc size host =>
    0 < host ∧ ∀ n < h.count, ∀ i < pageAlign t size, ¬ (h.blocks n).HasHost (host + i)
  | _ => True

def Heap.init : Heap := ⟨fun _ => ⟨0, 0, 0⟩, fun _ => none, none, 0, 0⟩

/-- The blocks that a run allocates, with RAM addresses from `offset` on. -/
def allocated (t : Target) : ℕ → List Op → List RAMBlock
  | _, [] => []
  | offset, .ramAlloc size host :: ops =>
    ⟨host, offset, pageAlign t size⟩ :: allocated t (offset + pageAlign t size) ops
  | offset, _ :: ops => allocated t offset ops

/-! ### The list in memory -/

section Lists

variable {h h' : Heap} {l : List ℕ}

/-- The entries of a state are those of a list without repetition. -/
structure Holds (h : Heap) (l : List ℕ) : Prop where
  seg : Seg h.next h.ramBlocks l none
  perm : l.Perm (List.range h.count)

theorem Holds.nodup (hl : Holds h l) : l.Nodup := hl.perm.nodup_iff.2 List.nodup_range

theorem Holds.lt (hl : Holds h l) {n : ℕ} (hn : n ∈ l) : n < h.count := List.mem_range.1 (hl.perm.mem_iff.1 hn)

theorem Holds.length (hl : Holds h l) : l.length = h.count := by rw [hl.perm.length_eq, List.length_range]

/-- The search stops at the first entry that is hit, with the pointer that leads to the entry before it. -/
theorem search_seg {hit : RAMBlock → Bool} {a b : ℕ} {l₂ : List ℕ} (hb : hit (h.blocks b) = true) :
    ∀ {l₀ : List ℕ} {fuel : ℕ} (prev : Option ℕ) {p : Option ℕ} (prevp : Place), Seg h.next p (l₀ ++ a :: b :: l₂) none →
      (∀ c ∈ l₀ ++ [a], hit (h.blocks c) = false) → l₀.length + 1 < fuel →
      h.search hit fuel prev prevp p =
        some (some a, (l₀.getLast?.map Place.next).getD ((prev.map Place.next).getD prevp), b)
  | [], fuel + 2, prev, p, prevp, ⟨hp, ha, _⟩, hl, _ => by
    rw [hp, Heap.search, if_neg (by simp [hl a]), ha, Heap.search, if_pos hb]
    rfl
  | c :: l₀, fuel + 1, prev, p, prevp, ⟨hp, hseg⟩, hl, hlen => by
    have ih := search_seg hb (some c) ((prev.map Place.next).getD prevp) hseg
      (fun d hd => hl d (List.mem_cons_of_mem c hd)) (Nat.lt_of_succ_lt_succ hlen)
    rw [hp, Heap.search, if_neg (by simp [hl c]), ih, List.getLast?_cons]
    cases l₀.getLast? with
    | none => rfl
    | some d => rfl

theorem move_first {a b : ℕ} (ha : h.ramBlocks = some a) : h.move (some a) .ramBlocks b =
    { h with next := Function.update (Function.update h.next a (h.next b)) b (some a), ramBlocks := some b } := by
  simp [Heap.move, Heap.set, Heap.get, ha]

theorem move_next {a b c : ℕ} (hc : h.next c = some a) (hne : c ≠ a) : h.move (some a) (.next c) b =
    { h with next := Function.update (Function.update (Function.update h.next a (h.next b)) b (some a)) c (some b) } := by
  simp [Heap.move, Heap.set, Heap.get, Function.update_of_ne hne, hc]

/-- The entries when `qemu_get_ram_ptr` has moved one of them. -/
theorem Holds.getRamPtr (hl : Holds h l) {addr : ℕ} (hex : ∃ n ∈ l, (h.blocks n).HasAddr addr) :
    ∃ n ∈ l, (h.blocks n).HasAddr addr ∧ ∃ h' l', h.qemuGetRamPtr addr = some ((h.blocks n).ptr addr, h') ∧ Holds h' l' ∧
      h'.blocks = h.blocks ∧ h'.count = h.count ∧ h'.lastRamOffset = h.lastRamOffset := by
  obtain ⟨n₀, hn₀, haddr₀⟩ := hex
  obtain ⟨b, l₁, l₂, hl₁, hb, hL, -⟩ :=
    List.exists_of_eraseP hn₀ (p := fun n => decide ((h.blocks n).HasAddr addr)) (by simpa using haddr₀)
  have hlen := hl.length
  have hseg := hl.seg
  have hnodup := hl.nodup
  have hbmem : b ∈ l := by
    rw [hL]
    simp
  refine ⟨b, hbmem, by simpa using hb, ?_⟩
  rcases List.eq_nil_or_concat l₁ with rfl | ⟨l₀, a, rfl⟩
  · -- the entry is the first one already
    rw [hL] at hseg
    refine ⟨h, l, ?_, hl, rfl, rfl, rfl⟩
    rw [Heap.qemuGetRamPtr, hseg.1, Heap.search, if_pos hb]
    rfl
  · rw [List.concat_eq_append] at hL hl₁
    rw [List.append_assoc, List.singleton_append] at hL
    have hperm : (l₀ ++ b :: a :: l₂).Perm l := by
      rw [hL]
      exact (List.Perm.swap a b l₂).append_left l₀
    rw [hL] at hseg hnodup hlen
    have hsearch : h.search (fun b => decide (b.HasAddr addr)) (h.count + 1) none .ramBlocks h.ramBlocks =
        some (some a, (l₀.getLast?.map Place.next).getD .ramBlocks, b) :=
      search_seg hb none .ramBlocks hseg (fun c hc => by simpa using hl₁ c hc) (by simp at hlen; omega)
    rw [Heap.qemuGetRamPtr, hsearch]
    rcases List.eq_nil_or_concat l₀ with rfl | ⟨l₃, c, rfl⟩
    · refine ⟨h.move (some a) .ramBlocks b, b :: a :: l₂, rfl, ?_⟩
      rw [move_first hseg.1]
      exact ⟨⟨hseg.swap_head hnodup, hperm.trans hl.perm⟩, rfl, rfl, rfl⟩
    · rw [List.concat_eq_append] at hseg hnodup hperm ⊢
      refine ⟨h.move (some a) (.next c) b, l₃ ++ [c] ++ b :: a :: l₂, by simp, ?_⟩
      rw [List.append_assoc, List.singleton_append] at hseg hnodup hperm ⊢
      obtain ⟨q, -, -, hc, -⟩ := seg_append.1 hseg
      have hne : c ≠ a := by
        rintro rfl
        exact (List.nodup_cons.1 (List.nodup_append.1 hnodup).2.1).1 List.mem_cons_self
      rw [move_next hc hne]
      exact ⟨⟨hseg.swap hnodup, hperm.trans hl.perm⟩, rfl, rfl, rfl⟩

theorem search_mem {hit : RAMBlock → Bool} {prev' : Option ℕ} {prevp' : Place} {b : ℕ} :
    ∀ {l : List ℕ} {fuel : ℕ} {prev p : Option ℕ} {prevp : Place}, Seg h.next p l none →
      h.search hit fuel prev prevp p = some (prev', prevp', b) → b ∈ l ∧ hit (h.blocks b) = true
  | _, 0, _, _, _, _, hsearch => by cases hsearch
  | [], fuel + 1, prev, p, prevp, hseg, hsearch => by
    rw [show p = none from hseg] at hsearch
    cases hsearch
  | a :: l, fuel + 1, prev, p, prevp, ⟨hp, hseg⟩, hsearch => by
    rw [hp, Heap.search] at hsearch
    split at hsearch
    · rename_i ha
      cases hsearch
      exact ⟨List.mem_cons_self, ha⟩
    · obtain ⟨hb, hhit⟩ := search_mem hseg hsearch
      exact ⟨List.mem_cons_of_mem a hb, hhit⟩

/-- The search finds an entry that is hit, if there is one. -/
theorem search_found (hit : RAMBlock → Bool) : ∀ {l : List ℕ} {fuel : ℕ} (prev : Option ℕ) {p : Option ℕ} (prevp : Place),
    Seg h.next p l none → (∃ n ∈ l, hit (h.blocks n) = true) → l.length < fuel →
    ∃ prev' prevp' b, h.search hit fuel prev prevp p = some (prev', prevp', b)
  | [], _, _, _, _, _, hex, _ => by
    obtain ⟨n, hn, -⟩ := hex
    cases hn
  | a :: l, fuel + 1, prev, p, prevp, ⟨hp, hseg⟩, hex, hlen => by
    rw [hp, Heap.search]
    split
    · exact ⟨prev, prevp, a, rfl⟩
    · rename_i ha
      have hrest : ∃ n ∈ l, hit (h.blocks n) = true := by
        obtain ⟨n, hn, hhit⟩ := hex
        rcases List.mem_cons.1 hn with rfl | hn
        · exact absurd hhit ha
        · exact ⟨n, hn, hhit⟩
      exact search_found hit (some a) _ hseg hrest (Nat.lt_of_succ_lt_succ hlen)

end Lists

/-! ### Runs -/

section Runs

variable {h h' : Heap} {l : List ℕ}

/-- The blocks of a list of entries, as the list of the memory map. -/
def Heap.toState (h : Heap) (l : List ℕ) : PhysMap.State t := ⟨l.map h.blocks, h.lastRamOffset, fun _ => .io, ⟨0, 0, 0⟩⟩

/-- What holds in every state. -/
structure Inv (t : Target) (h : Heap) (l : List ℕ) : Prop where
  holds : Holds h l
  wf : Wf (h.toState l : PhysMap.State t)

theorem inv_init (t : Target) : Inv t Heap.init [] where
  holds := ⟨rfl, .refl _⟩
  wf := by constructor <;> simp [Heap.toState, Heap.init]

theorem Inv.ramAlloc (hinv : Inv t h l) {size host : ℕ} (hok : Ok t h (.ramAlloc size host)) :
    Inv t (h.qemuRamAlloc t size host) (h.count :: l) ∧
      ((h.count :: l).map (h.qemuRamAlloc t size host).blocks) = ⟨host, h.lastRamOffset, pageAlign t size⟩ :: l.map h.blocks := by
  have hnot : h.count ∉ l := fun hmem => Nat.lt_irrefl _ (hinv.holds.lt hmem)
  have hblocks : (h.count :: l).map (h.qemuRamAlloc t size host).blocks =
      ⟨host, h.lastRamOffset, pageAlign t size⟩ :: l.map h.blocks := by
    simp only [List.map_cons, Heap.qemuRamAlloc, Function.update_self, List.cons.injEq, true_and]
    refine List.map_congr_left fun n hn => Function.update_of_ne ?_ _ _
    rintro rfl
    exact hnot hn
  refine ⟨⟨⟨⟨rfl, ?_⟩, ?_⟩, ?_⟩, hblocks⟩
  · simp only [Heap.qemuRamAlloc, Function.update_self]
    exact hinv.holds.seg.update hnot _
  · show (h.count :: l).Perm (List.range (h.count + 1))
    rw [List.range_succ]
    exact (hinv.holds.perm.cons h.count).trans (List.perm_append_singleton h.count _).symm
  · have hfresh : Fresh (h.toState l : PhysMap.State t) host (pageAlign t size) := by
      refine ⟨hok.1, fun b hb i hi => ?_, fun hne => absurd rfl hne⟩
      obtain ⟨n, hn, rfl⟩ := List.mem_map.1 hb
      exact hok.2 n (hinv.holds.lt hn) i hi
    have hwf := hinv.wf.qemuRamAlloc hfresh
    rw [Heap.toState, hblocks]
    exact hwf

theorem Inv.getRamPtr (hinv : Inv t h l) {addr : ℕ} (hex : ∃ n ∈ l, (h.blocks n).HasAddr addr) :
    ∃ n ∈ l, (h.blocks n).HasAddr addr ∧ ∃ h' l', h.qemuGetRamPtr addr = some ((h.blocks n).ptr addr, h') ∧ Inv t h' l' ∧
      (l'.map h'.blocks).Perm (l.map h.blocks) ∧ h'.lastRamOffset = h.lastRamOffset := by
  obtain ⟨n, hn, haddr, h', l', hget, hholds, hblocks, hcount, hlast⟩ := hinv.holds.getRamPtr hex
  have hperm : (l'.map h'.blocks).Perm (l.map h.blocks) := by
    rw [hblocks]
    refine List.Perm.map _ (hholds.perm.trans ?_)
    rw [hcount]
    exact hinv.holds.perm.symm
  refine ⟨n, hn, haddr, h', l', hget, ⟨hholds, ?_⟩, hperm, hlast⟩
  have hwf := hinv.wf.reorder hperm
  rw [Heap.toState, hlast]
  exact hwf

theorem Inv.ramAddrFromHost (hinv : Inv t h l) {addr host : ℕ} (hbacks : Backs (l.map h.blocks) addr host) :
    h.qemuRamAddrFromHost host = some addr := by
  obtain ⟨b, hb, ⟨hlo, hhi⟩, hptr⟩ := hbacks
  rw [RAMBlock.ptr] at hptr
  have hhost : b.HasHost host := ⟨by omega, by omega⟩
  obtain ⟨n, hn, rfl⟩ := List.mem_map.1 hb
  have hfuel : l.length < h.count + 1 := by
    rw [hinv.holds.length]
    exact Nat.lt_succ_self _
  obtain ⟨prev, prevp, m, hsearch⟩ := search_found (fun b => decide (b.HasHost host)) none .ramBlocks
    hinv.holds.seg ⟨n, hn, by simpa using hhost⟩ hfuel
  obtain ⟨hm, hhit⟩ := search_mem hinv.holds.seg hsearch
  have hsame : h.blocks m = h.blocks n :=
    hinv.wf.hosts _ (List.mem_map_of_mem hm) _ hb host (by simpa using hhit) hhost
  rw [Heap.qemuRamAddrFromHost, hsearch, Option.map_some]
  show some ((h.blocks m).offset + (host - (h.blocks m).host)) = some addr
  rw [hsame]
  congr 1
  omega

/-- A run keeps the blocks in the list and adds those that it allocates. -/
theorem run_spec (t : Target) (ops : List Op) : ∀ {h : Heap} {l : List ℕ}, Inv t h l → MeetsM (step t) (Ok t) h ops →
    ∀ {h'}, ops.foldlM (step t) h = some h' →
    ∃ l', Inv t h' l' ∧ (l'.map h'.blocks).Perm (l.map h.blocks ++ allocated t h.lastRamOffset ops) := by
  induction ops with
  | nil =>
    intro h l hinv _ h' hrun
    cases hrun
    refine ⟨l, hinv, ?_⟩
    rw [allocated, List.append_nil]
  | cons op ops ih =>
    intro h l hinv hok h' hrun
    rw [List.foldlM_cons] at hrun
    obtain ⟨h₁, hstep, hrest⟩ := Option.bind_eq_some_iff.1 hrun
    have hok' := hok.2 h₁ hstep
    cases op with
    | ramAlloc size host =>
      cases hstep
      obtain ⟨hinv', hblocks⟩ := hinv.ramAlloc hok.1
      obtain ⟨l', hl', hperm⟩ := ih hinv' hok' hrest
      refine ⟨l', hl', hperm.trans ?_⟩
      rw [hblocks, allocated]
      exact List.perm_middle.symm
    | getRamPtr addr =>
      obtain ⟨⟨ptr, h₂⟩, hget, rfl⟩ := Option.map_eq_some_iff.1 hstep
      have hex : ∃ n ∈ l, (h.blocks n).HasAddr addr := by
        obtain ⟨⟨prev, prevp, n⟩, hsearch, -⟩ := Option.map_eq_some_iff.1 hget
        obtain ⟨hn, hhit⟩ := search_mem hinv.holds.seg hsearch
        exact ⟨n, hn, by simpa using hhit⟩
      obtain ⟨n, -, -, h₃, l₃, hget', hinv', hperm', hlast⟩ := hinv.getRamPtr hex
      cases hget'.symm.trans hget
      obtain ⟨l', hl', hperm⟩ := ih hinv' hok' hrest
      rw [hlast] at hperm
      exact ⟨l', hl', hperm.trans (hperm'.append_right _)⟩
    | ramAddrFromHost host =>
      obtain ⟨_, -, rfl⟩ := Option.map_eq_some_iff.1 hstep
      exact ih hinv hok' hrest

end Runs

/-- After every run the list has the blocks that were allocated, each of them once, and a lookup in it gives the host
address in the block of a RAM address, from which `qemu_ram_addr_from_host` goes back, before and after the blocks are moved. -/
theorem ramBlocks_lookup (ops : List Op) (hok : MeetsM (step t) (Ok t) Heap.init ops) (h : Heap)
    (hrun : ops.foldlM (step t) Heap.init = some h) :
    (∃ l, Seg h.next h.ramBlocks l none ∧ l.Nodup ∧ (l.map h.blocks).Perm (allocated t 0 ops)) ∧
      ∀ b ∈ allocated t 0 ops, ∀ addr, b.HasAddr addr →
        (∀ c ∈ allocated t 0 ops, c.HasAddr addr → c = b) ∧
        ∃ h', h.qemuGetRamPtr addr = some (b.host + (addr - b.offset), h') ∧
          h.qemuRamAddrFromHost (b.host + (addr - b.offset)) = some addr ∧
          h'.qemuRamAddrFromHost (b.host + (addr - b.offset)) = some addr := by
  obtain ⟨l, hinv, hperm⟩ := run_spec t ops (inv_init t) hok hrun
  have hperm : (l.map h.blocks).Perm (allocated t 0 ops) := hperm
  refine ⟨⟨l, hinv.holds.seg, hinv.holds.nodup, hperm⟩, fun b hb addr haddr => ?_⟩
  have huniq : ∀ c ∈ allocated t 0 ops, c.HasAddr addr → c = b := fun c hc hcaddr =>
    hinv.wf.addrs c (hperm.mem_iff.2 hc) b (hperm.mem_iff.2 hb) addr hcaddr haddr
  have hbacks : Backs (l.map h.blocks) addr (b.host + (addr - b.offset)) := ⟨b, hperm.mem_iff.2 hb, haddr, rfl⟩
  obtain ⟨n₀, hn₀, hb₀⟩ := List.mem_map.1 (hperm.mem_iff.2 hb)
  obtain ⟨n, hn, hnaddr, h', l', hget, hinv', hperm', -⟩ := hinv.getRamPtr ⟨n₀, hn₀, by rwa [hb₀]⟩
  have hsame : h.blocks n = b := huniq _ (hperm.mem_iff.1 (List.mem_map_of_mem hn)) hnaddr
  rw [hsame] at hget
  exact ⟨huniq, h', hget, hinv.ramAddrFromHost hbacks, hinv'.ramAddrFromHost (hbacks.perm hperm'.symm)⟩

def threeBlocks : List Op := [.ramAlloc 4096 0x100000, .ramAlloc 4096 0x300000, .ramAlloc 4096 0x200000, .getRamPtr 0x10]

theorem ramBlocks_lookup_threeBlocks : ∃ h h', threeBlocks.foldlM (step target32) Heap.init = some h ∧
    h.qemuGetRamPtr 0x1004 = some (0x300004, h') ∧ h'.qemuRamAddrFromHost 0x300004 = some 0x1004 := by
  have hok : MeetsM (step target32) (Ok target32) Heap.init threeBlocks := by
    refine ⟨⟨by decide, fun n hn => absurd hn (Nat.not_lt_zero n)⟩, fun h₁ hs₁ => ?_⟩
    cases hs₁
    refine ⟨⟨by decide, fun n hn i _ hhost => ?_⟩, fun h₂ hs₂ => ?_⟩
    · obtain rfl : n = 0 := Nat.lt_one_iff.1 hn
      have hhi : 0x300000 + i < 0x100000 + 4096 := hhost.2
      omega
    cases hs₂
    refine ⟨⟨by decide, fun n hn i hi hhost => ?_⟩, fun h₃ hs₃ => ⟨trivial, fun _ _ => trivial⟩⟩
    have hn : n < 2 := hn
    have hi : i < 4096 := hi
    have hcases : n = 0 ∨ n = 1 := by omega
    rcases hcases with rfl | rfl
    · have hhi : 0x200000 + i < 0x100000 + 4096 := hhost.2
      omega
    · have hlo : 0x300000 ≤ 0x200000 + i := hhost.1
      omega
  obtain ⟨-, hlookup⟩ := ramBlocks_lookup threeBlocks hok _ rfl
  obtain ⟨-, h', hget, -, hback⟩ := hlookup ⟨0x300000, 0x1000, 4096⟩ (by decide) 0x1004 (by decide)
  exact ⟨_, h', rfl, hget, hback⟩

end Ar7Qemu.Exec.RamBlocks
