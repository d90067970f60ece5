import Ar7Qemu.Exec.Tb
import Ar7Qemu.Lib.Run

/-! Fast lookup of translation blocks. `tb_jmp_cache` is keyed by the virtual program
counter and is checked without any physical address; page flushes and invalidations keep
its entries true. -/

namespace Ar7Qemu.Exec.JmpCache

variable {t : Target} {Cpu : Type*}

structure State (t : Target) (Cpu : Type*) where
  tbs : ℕ → TranslationBlock t
  nbTbs : ℕ
  /-- `code_gen_ptr`, from `code_gen_buffer` on. -/
  codeGenPtr : ℕ
  /-- The chains of `tb_phys_hash`. -/
  tbPhysHash : ℕ → List ℕ
  tbJmpCache : Cpu → ℕ → Option ℕ
  /-- The pages that each MMU mode of a CPU can execute from. -/
  mapping : Cpu → ℕ → Addr t → Option (PhysPage t)

/-- What does not change. -/
structure Machine where
  /-- `code_gen_max_blocks`. -/
  maxBlocks : ℕ
  /-- `code_gen_buffer_max_size`. -/
  bufferMaxSize : ℕ
  /-- `cpu_mmu_index`, from the flags that a block depends on. -/
  mmuIndex : BitVec 32 → ℕ

/-- What the translator makes of the guest code. -/
inductive Translation (t : Target) where
  /-- The code cannot be read. -/
  | fault
  | done (size codeSize : ℕ) (pos : 1 ≤ size) (le : size ≤ t.pageSize)

/-- What `tb_find_slow` finds in a chain. -/
inductive Lookup where
  | found (n : ℕ)
  | notFound
  /-- An exception leaves the function. -/
  | fault
  deriving DecidableEq

namespace State

variable (m : Machine) (σ : State t Cpu)

def getPhysAddrCode (cpu : Cpu) (mode : ℕ) (addr : Addr t) : Option (Addr t) :=
  (σ.mapping cpu mode (page addr)).map fun p => p.addr + offset addr

def tbFlush : State t Cpu :=
  { σ with nbTbs := 0, codeGenPtr := 0, tbPhysHash := fun _ => [], tbJmpCache := fun _ _ => none }

/-- The part of `tb_alloc` that cannot fail, with the fields that `tb_gen_code` sets next. -/
def tbTake (pc csBase : Addr t) (flags : BitVec 32) (cflags : ℕ) : State t Cpu :=
  { σ with
    tbs := Function.update σ.tbs σ.nbTbs
      { σ.tbs σ.nbTbs with pc := pc, csBase := csBase, flags := flags, cflags := cflags, tcPtr := σ.codeGenPtr }
    nbTbs := σ.nbTbs + 1 }

/-- `tb_alloc` as `tb_gen_code` calls it, with a flush when there is no room. -/
def tbAlloc (pc csBase : Addr t) (flags : BitVec 32) (cflags : ℕ) : State t Cpu :=
  if m.maxBlocks ≤ σ.nbTbs ∨ m.bufferMaxSize ≤ σ.codeGenPtr then σ.tbFlush.tbTake pc csBase flags cflags
  else σ.tbTake pc csBase flags cflags

def tbLinkPhys (n : ℕ) (physPc physPage2 : Addr t) : State t Cpu :=
  { σ with
    tbs := Function.update σ.tbs n { σ.tbs n with pageAddr0 := page physPc, pageAddr1 := physPage2 }
    tbPhysHash := Function.update σ.tbPhysHash (tbPhysHashFunc physPc) (n :: σ.tbPhysHash (tbPhysHashFunc physPc)) }

/-- The end of `tb_gen_code`, after `cpu_gen_code` has filled block `n`. -/
def tbGenEnd (cpu : Cpu) (mode n : ℕ) (physPc : Addr t) (size codeSize : ℕ) : State t Cpu × Option ℕ :=
  let tb := { σ.tbs n with size := size }
  let σ := { σ with tbs := Function.update σ.tbs n tb, codeGenPtr := (σ.codeGenPtr + codeSize + 15) / 16 * 16 }
  -- check next page if needed
  if page tb.pc = tb.lastPage then (σ.tbLinkPhys n physPc noPage, some n)
  else
    match σ.getPhysAddrCode cpu mode tb.lastPage with
    | none => (σ, none)
    | some physPage2 => (σ.tbLinkPhys n physPc physPage2, some n)

/-- `tb_gen_code`: the block, or an exception. -/
def tbGenCode (cpu : Cpu) (mode : ℕ) (pc csBase : Addr t) (flags : BitVec 32) (cflags : ℕ)
    (translation : Translation t) : State t Cpu × Option ℕ :=
  match σ.getPhysAddrCode cpu mode pc with
  | none => (σ, none)
  | some physPc =>
    let σ := σ.tbAlloc m pc csBase flags cflags
    match translation with
    | .fault => (σ, none)
    | .done size codeSize _ _ => σ.tbGenEnd cpu mode (σ.nbTbs - 1) physPc size codeSize

/-- The loop of `tb_find_slow`. -/
def findLoop (cpu : Cpu) (mode : ℕ) (pc csBase : Addr t) (flags : BitVec 32) (physPage1 : Addr t) :
    List ℕ → Lookup
  | [] => .notFound
  | n :: ns =>
    let tb := σ.tbs n
    if tb.pc = pc ∧ tb.pageAddr0 = physPage1 ∧ tb.csBase = csBase ∧ tb.flags = flags then
      -- check next page if needed
      if tb.pageAddr1 ≠ noPage then
        match σ.getPhysAddrCode cpu mode (nextPage pc) with
        | none => .fault
        | some physPage2 =>
          if tb.pageAddr1 = physPage2 then .found n else findLoop cpu mode pc csBase flags physPage1 ns
      else .found n
    else findLoop cpu mode pc csBase flags physPage1 ns

variable [DecidableEq Cpu]

/-- Add a block to the virtual pc hash table. -/
def cacheTb (cpu : Cpu) (pc : Addr t) (n : ℕ) : State t Cpu :=
  { σ with
    tbJmpCache := Function.update σ.tbJmpCache cpu
      (Function.update (σ.tbJmpCache cpu) (tbJmpCacheHashFunc pc) (some n)) }

def tbFindSlow (cpu : Cpu) (pc csBase : Addr t) (flags : BitVec 32) (translation : Translation t) :
    State t Cpu × Option ℕ :=
  let mode := m.mmuIndex flags
  match σ.getPhysAddrCode cpu mode pc with
  | none => (σ, none)
  | some physPc =>
    match σ.findLoop cpu mode pc csBase flags (page physPc) (σ.tbPhysHash (tbPhysHashFunc physPc)) with
    | .fault => (σ, none)
    | .found n => (σ.cacheTb cpu pc n, some n)
    | .notFound =>
      match σ.tbGenCode m cpu mode pc csBase flags 0 translation with
      | (σ, none) => (σ, none)
      | (σ, some n) => (σ.cacheTb cpu pc n, some n)

omit [DecidableEq Cpu] in
/-- The block that `tb_find_fast` takes from the cache. -/
def tbJmpCacheHit (cpu : Cpu) (pc csBase : Addr t) (flags : BitVec 32) : Option ℕ :=
  (σ.tbJmpCache cpu (tbJmpCacheHashFunc pc)).filter fun n =>
    (σ.tbs n).pc = pc ∧ (σ.tbs n).csBase = csBase ∧ (σ.tbs n).flags = flags

def tbFindFast (cpu : Cpu) (pc csBase : Addr t) (flags : BitVec 32) (translation : Translation t) :
    State t Cpu × Option ℕ :=
  match σ.tbJmpCacheHit cpu pc csBase flags with
  | some n => (σ, some n)
  | none => σ.tbFindSlow m cpu pc csBase flags translation

omit [DecidableEq Cpu] in
/-- `tb_phys_invalidate`, as far as lookups are concerned. The search in the chain runs off
its end when the block is not there. -/
def tbPhysInvalidate (n : ℕ) : Option (State t Cpu) :=
  let tb := σ.tbs n
  let h := tbPhysHashFunc tb.physPc
  if n ∈ σ.tbPhysHash h then
    some { σ with
      tbPhysHash := Function.update σ.tbPhysHash h ((σ.tbPhysHash h).erase n)
      tbJmpCache := fun cpu i =>
        if i = tbJmpCacheHashFunc tb.pc ∧ σ.tbJmpCache cpu i = some n then none else σ.tbJmpCache cpu i }
  else none

omit [DecidableEq Cpu] in
def tbFree (n : ℕ) : State t Cpu :=
  if 0 < σ.nbTbs ∧ n = σ.nbTbs - 1 then { σ with codeGenPtr := (σ.tbs n).tcPtr, nbTbs := σ.nbTbs - 1 } else σ

def clearJmpCache (cpu : Cpu) (start len : ℕ) : State t Cpu :=
  { σ with
    tbJmpCache := Function.update σ.tbJmpCache cpu fun i =>
      if start ≤ i ∧ i < start + len then none else σ.tbJmpCache cpu i }

def tlbFlushJmpCache (cpu : Cpu) (addr : Addr t) : State t Cpu :=
  (σ.clearJmpCache cpu (tbJmpCacheHashPage (addr - BitVec.ofNat _ t.pageSize)) tbJmpPageSize).clearJmpCache cpu
    (tbJmpCacheHashPage addr) tbJmpPageSize

/-- `tlb_flush_page`, together with a change of the mapping of the page. -/
def tlbFlushPage (cpu : Cpu) (addr : Addr t) (pages : ℕ → Option (PhysPage t)) : State t Cpu :=
  { σ.tlbFlushJmpCache cpu (page addr) with
    mapping := Function.update σ.mapping cpu fun mode =>
      Function.update (σ.mapping cpu mode) (page addr) (pages mode) }

/-- `tlb_flush`, together with a change of the whole mapping. -/
def tlbFlush (cpu : Cpu) (mapping : ℕ → Addr t → Option (PhysPage t)) : State t Cpu :=
  { σ.clearJmpCache cpu 0 (2 ^ tbJmpCacheBits) with mapping := Function.update σ.mapping cpu mapping }

end State

/-- What can happen. -/
inductive Op (t : Target) (Cpu : Type*) where
  | findFast (cpu : Cpu) (pc csBase : Addr t) (flags : BitVec 32) (translation : Translation t)
  | findSlow (cpu : Cpu) (pc csBase : Addr t) (flags : BitVec 32) (translation : Translation t)
  /-- A block that is used only once, or that ends a block which modifies itself. -/
  | genCode (cpu : Cpu) (mode : ℕ) (pc csBase : Addr t) (flags : BitVec 32) (cflags : ℕ)
      (translation : Translation t)
  | physInvalidate (n : ℕ)
  /-- `cpu_exec_nocache` frees its block. -/
  | physInvalidateFree (n : ℕ)
  | flushPage (cpu : Cpu) (addr : Addr t) (pages : ℕ → Option (PhysPage t))
  | flush (cpu : Cpu) (mapping : ℕ → Addr t → Option (PhysPage t))
  | tbFlush

def step [DecidableEq Cpu] (m : Machine) (σ : State t Cpu) : Op t Cpu → Option (State t Cpu)
  | .findFast cpu pc csBase flags translation => some (σ.tbFindFast m cpu pc csBase flags translation).1
  | .findSlow cpu pc csBase flags translation => some (σ.tbFindSlow m cpu pc csBase flags translation).1
  | .genCode cpu mode pc csBase flags cflags translation =>
    some (σ.tbGenCode m cpu mode pc csBase flags cflags translation).1
  | .physInvalidate n => σ.tbPhysInvalidate n
  | .physInvalidateFree n => (σ.tbPhysInvalidate n).map fun σ => σ.tbFree n
  | .flushPage cpu addr pages => some (σ.tlbFlushPage cpu addr pages)
  | .flush cpu mapping => some (σ.tlbFlush cpu mapping)
  | .tbFlush => some σ.tbFlush

def State.init (mapping : Cpu → ℕ → Addr t → Option (PhysPage t)) : State t Cpu :=
  ⟨fun _ => ⟨0, 0, 0, 0, 0, 0, 0, 0⟩, 0, 0, fun _ => [], fun _ _ => none, mapping⟩

/-! ### Coherence -/

variable {m : Machine} {σ σ' : State t Cpu} {cpu : Cpu} {n : ℕ}

/-- The physical pages of a block are those that its virtual pages are mapped to. -/
structure Mapped (mapping : ℕ → Addr t → Option (PhysPage t)) (mode : ℕ) (tb : TranslationBlock t) : Prop where
  first : ∃ p, mapping mode (page tb.pc) = some p ∧ p.addr = tb.pageAddr0
  second : tb.pageAddr1 ≠ noPage → ∃ p, mapping mode (nextPage tb.pc) = some p ∧ p.addr = tb.pageAddr1

/-- A block is in the chain of its physical address. -/
def State.Live (σ : State t Cpu) (n : ℕ) : Prop := n ∈ σ.tbPhysHash (tbPhysHashFunc (σ.tbs n).physPc)

/-- The invariant of the chains and of the caches. -/
structure Coherent (m : Machine) (σ : State t Cpu) : Prop where
  bound : ∀ h, ∀ n ∈ σ.tbPhysHash h, n < σ.nbTbs
  place : ∀ h, ∀ n ∈ σ.tbPhysHash h, h = tbPhysHashFunc (σ.tbs n).physPc
  nodup : ∀ h, (σ.tbPhysHash h).Nodup
  /-- A block has a second page when its code goes on there. -/
  spans : ∀ n, σ.Live n → ((σ.tbs n).pageAddr1 = noPage ↔ (σ.tbs n).lastPage = page (σ.tbs n).pc)
  cached : ∀ cpu i n, σ.tbJmpCache cpu i = some n →
    i = tbJmpCacheHashFunc (σ.tbs n).pc ∧ σ.Live n ∧ Mapped (σ.mapping cpu) (m.mmuIndex (σ.tbs n).flags) (σ.tbs n)

theorem Coherent.lt (h : Coherent m σ) (hn : σ.Live n) : n < σ.nbTbs := h.bound _ n hn

theorem Coherent.live (h : Coherent m σ) {i : ℕ} (hn : n ∈ σ.tbPhysHash i) : σ.Live n := by
  rw [State.Live, ← h.place i n hn]
  exact hn

theorem coherent_init (m : Machine) (mapping : Cpu → ℕ → Addr t → Option (PhysPage t)) :
    Coherent m (State.init mapping) where
  bound := by simp [State.init]
  place := by simp [State.init]
  nodup := by simp [State.init]
  spans := by simp [State.init, State.Live]
  cached := by simp [State.init]

theorem coherent_tbFlush (m : Machine) (σ : State t Cpu) : Coherent m σ.tbFlush where
  bound := by simp [State.tbFlush]
  place := by simp [State.tbFlush]
  nodup := by simp [State.tbFlush]
  spans := by simp [State.tbFlush, State.Live]
  cached := by simp [State.tbFlush]

/-- Blocks that are not live may change. -/
theorem Coherent.of_tbs (h : Coherent m σ) (htbs : ∀ n, σ.Live n → σ'.tbs n = σ.tbs n)
    (hnb : σ.nbTbs ≤ σ'.nbTbs) (hchain : σ'.tbPhysHash = σ.tbPhysHash) (hcache : σ'.tbJmpCache = σ.tbJmpCache)
    (hmap : σ'.mapping = σ.mapping) : Coherent m σ' := by
  have htbs' : ∀ i, ∀ n ∈ σ.tbPhysHash i, σ'.tbs n = σ.tbs n := fun i n hn => htbs n (h.live hn)
  refine ⟨fun i n hn => ?_, fun i n hn => ?_, fun i => ?_, fun n hn => ?_, fun cpu i n hn => ?_⟩
  · rw [hchain] at hn
    exact (h.bound i n hn).trans_le hnb
  · rw [hchain] at hn
    rw [htbs' i n hn]
    exact h.place i n hn
  · rw [hchain]
    exact h.nodup i
  · rw [State.Live, hchain] at hn
    rw [htbs' _ n hn]
    exact h.spans n (h.live hn)
  · rw [hcache] at hn
    obtain ⟨hi, hl, hm⟩ := h.cached cpu i n hn
    rw [State.Live, hchain, hmap, htbs n hl]
    exact ⟨hi, hl, hm⟩

/-- Entries of the caches may go, and mappings that no entry needs may change. -/
theorem Coherent.of_cache (h : Coherent m σ) (htbs : σ'.tbs = σ.tbs) (hnb : σ'.nbTbs = σ.nbTbs)
    (hchain : σ'.tbPhysHash = σ.tbPhysHash)
    (hcache : ∀ cpu i n, σ'.tbJmpCache cpu i = some n → σ.tbJmpCache cpu i = some n ∧
      (i = tbJmpCacheHashFunc (σ.tbs n).pc → ∀ mode, Mapped (σ.mapping cpu) mode (σ.tbs n) →
        Mapped (σ'.mapping cpu) mode (σ.tbs n))) : Coherent m σ' := by
  refine ⟨?_, ?_, ?_, ?_, fun cpu i n hn => ?_⟩
  · rw [hchain, hnb]
    exact h.bound
  · rw [hchain, htbs]
    exact h.place
  · rw [hchain]
    exact h.nodup
  · intro n hn
    rw [State.Live, hchain, htbs] at hn
    rw [htbs]
    exact h.spans n hn
  · obtain ⟨hold, hmap⟩ := hcache cpu i n hn
    obtain ⟨hi, hl, hm⟩ := h.cached cpu i n hold
    rw [State.Live, hchain, htbs]
    exact ⟨hi, hl, hmap hi _ hm⟩

theorem Coherent.tbLinkPhys (h : Coherent m σ) (hfresh : ∀ i, n ∉ σ.tbPhysHash i) (hn : n < σ.nbTbs)
    {physPc physPage2 : Addr t} (hpc : page physPc + offset (σ.tbs n).pc = physPc)
    (hspan : physPage2 = noPage ↔ (σ.tbs n).lastPage = page (σ.tbs n).pc) :
    Coherent m (σ.tbLinkPhys n physPc physPage2) := by
  have hne : ∀ i, ∀ k ∈ σ.tbPhysHash i, k ≠ n := fun i k hk hkn => hfresh i (hkn ▸ hk)
  have htbs : ∀ k, k ≠ n → (σ.tbLinkPhys n physPc physPage2).tbs k = σ.tbs k := fun k hk =>
    Function.update_of_ne hk _ _
  have hself : (σ.tbLinkPhys n physPc physPage2).tbs n =
      { σ.tbs n with pageAddr0 := page physPc, pageAddr1 := physPage2 } := Function.update_self _ _ _
  have hphys : ((σ.tbLinkPhys n physPc physPage2).tbs n).physPc = physPc := by
    rw [hself]
    exact hpc
  have hmem : ∀ i k, k ∈ (σ.tbLinkPhys n physPc physPage2).tbPhysHash i ↔
      (k = n ∧ i = tbPhysHashFunc physPc) ∨ k ∈ σ.tbPhysHash i := by
    intro i k
    by_cases hi : i = tbPhysHashFunc physPc
    · subst hi
      simp [State.tbLinkPhys]
    · simp [State.tbLinkPhys, hi]
  refine ⟨fun i k hk => ?_, fun i k hk => ?_, fun i => ?_, fun k hk => ?_, fun cpu i k hk => ?_⟩
  · rcases (hmem i k).1 hk with ⟨rfl, -⟩ | hk
    · exact hn
    · exact h.bound i k hk
  · rcases (hmem i k).1 hk with ⟨rfl, rfl⟩ | hk
    · rw [hphys]
    · rw [htbs k (hne i k hk)]
      exact h.place i k hk
  · by_cases hi : i = tbPhysHashFunc physPc
    · subst hi
      simpa [State.tbLinkPhys] using ⟨hfresh _, h.nodup _⟩
    · simpa [State.tbLinkPhys, hi] using h.nodup i
  · rcases (hmem _ k).1 hk with ⟨rfl, -⟩ | hk
    · rw [hself]
      exact hspan
    · have hkn := hne _ k hk
      rw [htbs k hkn] at hk ⊢
      exact h.spans k hk
  · obtain ⟨hi, hl, hm⟩ := h.cached cpu i k hk
    have hkn := hne _ k hl
    rw [State.Live, htbs k hkn]
    exact ⟨hi, (hmem _ k).2 (.inr hl), hm⟩

/-- After an invalidation, which leaves no trace of the block. -/
theorem Coherent.tbPhysInvalidate (h : Coherent m σ) (hinv : σ.tbPhysInvalidate n = some σ') :
    Coherent m σ' ∧ σ'.nbTbs = σ.nbTbs ∧ ∀ i, n ∉ σ'.tbPhysHash i := by
  rw [State.tbPhysInvalidate] at hinv
  split at hinv
  · rename_i hlive
    cases hinv
    set g := tbPhysHashFunc (σ.tbs n).physPc
    have hmem : ∀ i k, k ∈ Function.update σ.tbPhysHash g ((σ.tbPhysHash g).erase n) i ↔
        k ≠ n ∧ k ∈ σ.tbPhysHash i := by
      intro i k
      by_cases hi : i = g
      · subst hi
        rw [Function.update_self, (h.nodup _).mem_erase_iff]
      · rw [Function.update_of_ne hi]
        refine ⟨fun hk => ⟨?_, hk⟩, And.right⟩
        rintro rfl
        exact hi (h.place i k hk)
    refine ⟨⟨fun i k hk => ?_, fun i k hk => ?_, fun i => ?_, fun k hk => ?_, fun cpu i k hk => ?_⟩, rfl,
      fun i hn => ((hmem i n).1 hn).1 rfl⟩
    · exact h.bound i k ((hmem i k).1 hk).2
    · exact h.place i k ((hmem i k).1 hk).2
    · by_cases hi : i = g
      · subst hi
        simpa using (h.nodup g).erase n
      · simpa [hi] using h.nodup i
    · exact h.spans k ((hmem _ k).1 hk).2
    · dsimp only at hk
      split at hk
      · exact absurd hk (by simp)
      · rename_i hkeep
        obtain ⟨hi, hl, hm⟩ := h.cached cpu i k hk
        refine ⟨hi, (hmem _ k).2 ⟨?_, hl⟩, hm⟩
        rintro rfl
        exact hkeep ⟨hi, hk⟩
  · exact absurd hinv (by simp)

theorem Coherent.tbFree (h : Coherent m σ) (hn : ∀ i, n ∉ σ.tbPhysHash i) : Coherent m (σ.tbFree n) := by
  rw [State.tbFree]
  split
  · rename_i hlast
    refine ⟨fun i k hk => ?_, h.place, h.nodup, h.spans, h.cached⟩
    have hlt := h.bound i k hk
    have hne : k ≠ n := fun hkn => hn i (hkn ▸ hk)
    show k < σ.nbTbs - 1
    omega
  · exact h

/-! ### Lookups -/

theorem hash_mem_page (a : Addr t) : tbJmpCacheHashPage (page a) ≤ tbJmpCacheHashFunc a ∧
    tbJmpCacheHashFunc a < tbJmpCacheHashPage (page a) + tbJmpPageSize := by
  obtain ⟨low, hlow, heq⟩ := tbJmpCacheHashFunc_eq a
  rw [tbJmpCacheHashPage_page]
  omega

theorem getPhysAddrCode_some {mode : ℕ} {addr a : Addr t} (h : σ.getPhysAddrCode cpu mode addr = some a) :
    ∃ p, σ.mapping cpu mode (page addr) = some p ∧ a = p.addr + offset addr ∧ page a = p.addr := by
  rw [State.getPhysAddrCode, Option.map_eq_some_iff] at h
  obtain ⟨p, hp, rfl⟩ := h
  exact ⟨p, hp, rfl, page_add_offset p.aligned addr⟩

theorem getPhysAddrCode_page {mode : ℕ} {addr a : Addr t} (haddr : page addr = addr)
    (h : σ.getPhysAddrCode cpu mode addr = some a) :
    ∃ p, σ.mapping cpu mode addr = some p ∧ a = p.addr := by
  obtain ⟨p, hp, ha, -⟩ := getPhysAddrCode_some h
  rw [haddr] at hp
  refine ⟨p, hp, ?_⟩
  rw [ha, ← haddr, offset_page, BitVec.add_zero]

/-- What `tb_find_slow` returns from a chain is in it, and is what was looked for. -/
theorem findLoop_found {mode : ℕ} {pc csBase physPage1 : Addr t} {flags : BitVec 32} :
    ∀ {ns : List ℕ}, σ.findLoop cpu mode pc csBase flags physPage1 ns = .found n →
      n ∈ ns ∧ (σ.tbs n).pc = pc ∧ (σ.tbs n).pageAddr0 = physPage1 ∧ (σ.tbs n).csBase = csBase ∧
        (σ.tbs n).flags = flags ∧
        ((σ.tbs n).pageAddr1 ≠ noPage →
          σ.getPhysAddrCode cpu mode (nextPage pc) = some (σ.tbs n).pageAddr1)
  | [], h => by simp [State.findLoop] at h
  | k :: ns, h => by
    have hrest : σ.findLoop cpu mode pc csBase flags physPage1 ns = .found n → _ := fun h' =>
      (findLoop_found h').imp_left (List.mem_cons_of_mem k)
    rw [State.findLoop] at h
    split at h
    · rename_i hmatch
      obtain ⟨hpc, hpage, hcs, hflags⟩ := hmatch
      split at h
      · split at h
        · exact absurd h (by simp)
        · rename_i physPage2 hphys
          split at h
          · rename_i hsecond
            cases h
            exact ⟨List.mem_cons_self, hpc, hpage, hcs, hflags, fun _ => hsecond ▸ hphys⟩
          · exact hrest h
      · rename_i hone
        cases h
        exact ⟨List.mem_cons_self, hpc, hpage, hcs, hflags, fun htwo => absurd htwo hone⟩
    · exact hrest h

/-- A block that may be used: it is live, it is what was looked for, and its pages are
mapped. -/
structure Usable (σ : State t Cpu) (cpu : Cpu) (mode : ℕ) (pc csBase : Addr t) (flags : BitVec 32) (n : ℕ) : Prop where
  live : σ.Live n
  pc : (σ.tbs n).pc = pc
  csBase : (σ.tbs n).csBase = csBase
  flags : (σ.tbs n).flags = flags
  mapped : Mapped (σ.mapping cpu) mode (σ.tbs n)

theorem Coherent.tbTake (h : Coherent m σ) (pc csBase : Addr t) (flags : BitVec 32) (cflags : ℕ) :
    Coherent m (σ.tbTake pc csBase flags cflags) := by
  refine h.of_tbs (fun n hn => ?_) (Nat.le_succ _) rfl rfl rfl
  exact Function.update_of_ne (h.lt hn).ne _ _

theorem Coherent.tbAlloc (h : Coherent m σ) (pc csBase : Addr t) (flags : BitVec 32) (cflags : ℕ) :
    ∃ n, (σ.tbAlloc m pc csBase flags cflags).nbTbs = n + 1 ∧ Coherent m (σ.tbAlloc m pc csBase flags cflags) ∧
      (∀ i, n ∉ (σ.tbAlloc m pc csBase flags cflags).tbPhysHash i) ∧
      ((σ.tbAlloc m pc csBase flags cflags).tbs n).pc = pc ∧
      ((σ.tbAlloc m pc csBase flags cflags).tbs n).csBase = csBase ∧
      ((σ.tbAlloc m pc csBase flags cflags).tbs n).flags = flags ∧
      (σ.tbAlloc m pc csBase flags cflags).mapping = σ.mapping := by
  rw [State.tbAlloc]
  split
  · refine ⟨0, rfl, (coherent_tbFlush m σ).tbTake _ _ _ _, fun i hn => ?_, rfl, rfl, rfl, rfl⟩
    exact absurd hn (by simp [State.tbTake, State.tbFlush])
  · refine ⟨σ.nbTbs, rfl, h.tbTake _ _ _ _, fun i hn => ?_, ?_, ?_, ?_, rfl⟩
    · exact absurd (h.bound i _ hn) (lt_irrefl _)
    all_goals simp [State.tbTake]

theorem usable_tbLinkPhys {mode : ℕ} {physPc physPage2 : Addr t}
    (hpc : page physPc + offset (σ.tbs n).pc = physPc)
    (hfirst : ∃ p, σ.mapping cpu mode (page (σ.tbs n).pc) = some p ∧ p.addr = page physPc)
    (hsecond : physPage2 ≠ noPage → ∃ p, σ.mapping cpu mode (nextPage (σ.tbs n).pc) = some p ∧ p.addr = physPage2) :
    Usable (σ.tbLinkPhys n physPc physPage2) cpu mode (σ.tbs n).pc (σ.tbs n).csBase (σ.tbs n).flags n := by
  have hself : (σ.tbLinkPhys n physPc physPage2).tbs n =
      { σ.tbs n with pageAddr0 := page physPc, pageAddr1 := physPage2 } := Function.update_self _ _ _
  refine ⟨?_, by rw [hself], by rw [hself], by rw [hself], ?_⟩
  · have hphys : ((σ.tbLinkPhys n physPc physPage2).tbs n).physPc = physPc := by
      rw [hself]
      exact hpc
    rw [State.Live, hphys]
    simp [State.tbLinkPhys]
  · rw [hself]
    exact ⟨hfirst, hsecond⟩

theorem Coherent.tbGenEnd (h : Coherent m σ) (hn : n < σ.nbTbs) (hfresh : ∀ i, n ∉ σ.tbPhysHash i) {mode : ℕ}
    {physPc : Addr t} (hphys : σ.getPhysAddrCode cpu mode (σ.tbs n).pc = some physPc) {size : ℕ}
    (hpos : 1 ≤ size) (hsize : size ≤ t.pageSize) (codeSize : ℕ) :
    Coherent m (σ.tbGenEnd cpu mode n physPc size codeSize).1 ∧
      ∀ k, (σ.tbGenEnd cpu mode n physPc size codeSize).2 = some k →
        Usable (σ.tbGenEnd cpu mode n physPc size codeSize).1 cpu mode (σ.tbs n).pc (σ.tbs n).csBase
          (σ.tbs n).flags k := by
  obtain ⟨p, hp, hpc, hpage⟩ := getPhysAddrCode_some hphys
  set tb : TranslationBlock t := { σ.tbs n with size := size } with htb
  set σ₁ : State t Cpu := { σ with
    tbs := Function.update σ.tbs n tb, codeGenPtr := (σ.codeGenPtr + codeSize + 15) / 16 * 16 } with hσ₁
  have hself : σ₁.tbs n = tb := Function.update_self _ _ _
  have hcoh : Coherent m σ₁ :=
    h.of_tbs (fun k hk => Function.update_of_ne (fun hkn => hfresh _ (hkn ▸ hk)) _ _) le_rfl rfl rfl rfl
  have hend := page_end (σ.tbs n).pc (show size - 1 < t.pageSize by omega)
  have hlast : tb.lastPage = page ((σ.tbs n).pc + BitVec.ofNat _ (size - 1)) := rfl
  have hlink : page physPc + offset (σ₁.tbs n).pc = physPc := by
    rw [hself, hpage]
    exact hpc.symm
  have hdef : σ.tbGenEnd cpu mode n physPc size codeSize =
      if page tb.pc = tb.lastPage then (σ₁.tbLinkPhys n physPc noPage, some n)
      else match σ₁.getPhysAddrCode cpu mode tb.lastPage with
        | none => (σ₁, none)
        | some physPage2 => (σ₁.tbLinkPhys n physPc physPage2, some n) := rfl
  have hfields : (σ₁.tbs n).pc = (σ.tbs n).pc ∧ (σ₁.tbs n).csBase = (σ.tbs n).csBase ∧
      (σ₁.tbs n).flags = (σ.tbs n).flags := by
    rw [hself]
    exact ⟨rfl, rfl, rfl⟩
  have husable : ∀ physPage2, (physPage2 ≠ noPage → ∃ q, σ.mapping cpu mode (nextPage (σ.tbs n).pc) = some q ∧
      q.addr = physPage2) → Usable (σ₁.tbLinkPhys n physPc physPage2) cpu mode (σ.tbs n).pc (σ.tbs n).csBase
        (σ.tbs n).flags n := by
    intro physPage2 hsecond
    rw [← hfields.1, ← hfields.2.1, ← hfields.2.2]
    refine usable_tbLinkPhys hlink ?_ ?_
    · rw [hself, hpage]
      exact ⟨p, hp, rfl⟩
    · rw [hself]
      exact hsecond
  rw [hdef]
  by_cases hone : page tb.pc = tb.lastPage
  · rw [if_pos hone]
    refine ⟨hcoh.tbLinkPhys hfresh hn hlink ?_, fun k hk => ?_⟩
    · rw [hself]
      exact ⟨fun _ => hone.symm, fun _ => rfl⟩
    · cases hk
      exact husable noPage fun hne => absurd rfl hne
  · rw [if_neg hone]
    cases hphys2 : σ₁.getPhysAddrCode cpu mode tb.lastPage with
    | none => exact ⟨hcoh, fun k hk => absurd hk (by simp)⟩
    | some physPage2 =>
      have hnext : tb.lastPage = nextPage (σ.tbs n).pc := hend.resolve_left fun heq => hone heq.symm
      obtain ⟨q, hq, rfl⟩ := getPhysAddrCode_page (by rw [hlast, page_page]) hphys2
      refine ⟨hcoh.tbLinkPhys hfresh hn hlink ?_, fun k hk => ?_⟩
      · rw [hself]
        exact ⟨fun hno => absurd hno (page_ne_noPage q.aligned), fun heq => absurd heq.symm hone⟩
      · cases hk
        exact husable q.addr fun _ => ⟨q, hnext ▸ hq, rfl⟩

/-- What `tb_gen_code` returns can be used. -/
theorem Coherent.tbGenCode (h : Coherent m σ) (cpu : Cpu) (mode : ℕ) (pc csBase : Addr t) (flags : BitVec 32)
    (cflags : ℕ) (translation : Translation t) :
    Coherent m (σ.tbGenCode m cpu mode pc csBase flags cflags translation).1 ∧
      ∀ k, (σ.tbGenCode m cpu mode pc csBase flags cflags translation).2 = some k →
        Usable (σ.tbGenCode m cpu mode pc csBase flags cflags translation).1 cpu mode pc csBase flags k := by
  rw [State.tbGenCode]
  cases hphys : σ.getPhysAddrCode cpu mode pc with
  | none => exact ⟨h, fun k hk => absurd hk (by simp)⟩
  | some physPc =>
    obtain ⟨n, hnb, hcoh, hfresh, hpc, hcs, hflags, hmap⟩ := h.tbAlloc pc csBase flags cflags
    cases translation with
    | fault => exact ⟨hcoh, fun k hk => absurd hk (by simp)⟩
    | done size codeSize hpos hsize =>
      have hphys' : (σ.tbAlloc m pc csBase flags cflags).getPhysAddrCode cpu mode
          ((σ.tbAlloc m pc csBase flags cflags).tbs n).pc = some physPc := by
        rw [hpc, State.getPhysAddrCode, hmap]
        exact hphys
      have hgen := hcoh.tbGenEnd (by omega) hfresh hphys' hpos hsize codeSize
      rw [hpc, hcs, hflags] at hgen
      simpa only [hnb, Nat.add_sub_cancel] using hgen

theorem usable_of_found (h : Coherent m σ) {mode : ℕ} {pc csBase physPc : Addr t} {flags : BitVec 32}
    (hphys : σ.getPhysAddrCode cpu mode pc = some physPc)
    (hfound : σ.findLoop cpu mode pc csBase flags (page physPc) (σ.tbPhysHash (tbPhysHashFunc physPc)) = .found n) :
    Usable σ cpu mode pc csBase flags n := by
  obtain ⟨hmem, hpc, hfirst, hcs, hflags, hsecond⟩ := findLoop_found hfound
  obtain ⟨p, hp, -, hpage⟩ := getPhysAddrCode_some hphys
  refine ⟨h.live hmem, hpc, hcs, hflags, ?_, fun htwo => ?_⟩
  · rw [hpc, hfirst, hpage]
    exact ⟨p, hp, rfl⟩
  · obtain ⟨q, hq, heq⟩ := getPhysAddrCode_page (page_nextPage pc) (hsecond htwo)
    rw [hpc]
    exact ⟨q, hq, heq.symm⟩

/-! ### Operations -/

section Cpu

variable [DecidableEq Cpu]

theorem Coherent.cacheTb (h : Coherent m σ) (hlive : σ.Live n)
    (hmap : Mapped (σ.mapping cpu) (m.mmuIndex (σ.tbs n).flags) (σ.tbs n)) :
    Coherent m (σ.cacheTb cpu (σ.tbs n).pc n) := by
  refine ⟨h.bound, h.place, h.nodup, h.spans, fun cpu' i k hk => ?_⟩
  by_cases hcpu : cpu' = cpu
  · subst hcpu
    by_cases hi : i = tbJmpCacheHashFunc (σ.tbs n).pc
    · subst hi
      obtain rfl : n = k := by simpa [State.cacheTb] using hk
      exact ⟨rfl, hlive, hmap⟩
    · exact h.cached cpu' i k (by simpa [State.cacheTb, hi] using hk)
  · exact h.cached cpu' i k (by simpa [State.cacheTb, hcpu] using hk)

theorem clearJmpCache_of_ne {cpu' : Cpu} (hcpu : cpu' ≠ cpu) (start len : ℕ) :
    (σ.clearJmpCache cpu start len).tbJmpCache cpu' = σ.tbJmpCache cpu' := Function.update_of_ne hcpu _ _

theorem clearJmpCache_some {start len i : ℕ} (hk : (σ.clearJmpCache cpu start len).tbJmpCache cpu i = some n) :
    σ.tbJmpCache cpu i = some n ∧ ¬ (start ≤ i ∧ i < start + len) := by
  simp only [State.clearJmpCache, Function.update_self] at hk
  split at hk
  · exact absurd hk (by simp)
  · rename_i hrange
    exact ⟨hk, hrange⟩

theorem tlbFlushJmpCache_some {addr : Addr t} {i : ℕ}
    (hk : (σ.tlbFlushJmpCache cpu (page addr)).tbJmpCache cpu i = some n) :
    σ.tbJmpCache cpu i = some n ∧ (i = tbJmpCacheHashFunc (σ.tbs n).pc →
      page (σ.tbs n).pc ≠ page addr ∧ nextPage (σ.tbs n).pc ≠ page addr) := by
  obtain ⟨hk, hpage⟩ := clearJmpCache_some hk
  obtain ⟨hk, hprev⟩ := clearJmpCache_some hk
  refine ⟨hk, fun hi => ?_⟩
  have hslot := hash_mem_page (σ.tbs n).pc
  rw [← hi] at hslot
  refine ⟨fun heq => hpage (heq ▸ hslot), fun heq => hprev ?_⟩
  have hback : page addr - BitVec.ofNat _ t.pageSize = page (σ.tbs n).pc := by
    rw [← heq, nextPage, BitVec.add_sub_cancel]
  rw [hback]
  exact hslot

theorem Coherent.tlbFlushPage (h : Coherent m σ) (addr : Addr t) (pages : ℕ → Option (PhysPage t)) :
    Coherent m (σ.tlbFlushPage cpu addr pages) := by
  refine h.of_cache rfl rfl rfl fun cpu' i n hk => ?_
  by_cases hcpu : cpu' = cpu
  · subst hcpu
    have hleft : (σ.tlbFlushJmpCache cpu' (page addr)).tbJmpCache cpu' i = some n := hk
    obtain ⟨hk, hpages⟩ := tlbFlushJmpCache_some hleft
    refine ⟨hk, fun hi mode hm => ?_⟩
    obtain ⟨hfirst, hsecond⟩ := hpages hi
    have hmap : (σ.tlbFlushPage cpu' addr pages).mapping cpu' mode =
        Function.update (σ.mapping cpu' mode) (page addr) (pages mode) := by
      simp [State.tlbFlushPage]
    constructor
    · rw [hmap, Function.update_of_ne hfirst]
      exact hm.first
    · rw [hmap, Function.update_of_ne hsecond]
      exact hm.second
  · have hcache : (σ.tlbFlushPage cpu addr pages).tbJmpCache cpu' = σ.tbJmpCache cpu' := by
      simp only [State.tlbFlushPage, State.tlbFlushJmpCache, clearJmpCache_of_ne hcpu]
    have hmap : (σ.tlbFlushPage cpu addr pages).mapping cpu' = σ.mapping cpu' := by
      simp [State.tlbFlushPage, hcpu]
    rw [hcache] at hk
    rw [hmap]
    exact ⟨hk, fun _ _ hm => hm⟩

theorem Coherent.tlbFlush (h : Coherent m σ) (mapping : ℕ → Addr t → Option (PhysPage t)) :
    Coherent m (σ.tlbFlush cpu mapping) := by
  refine h.of_cache rfl rfl rfl fun cpu' i n hk => ?_
  by_cases hcpu : cpu' = cpu
  · subst hcpu
    have hleft : (σ.clearJmpCache cpu' 0 (2 ^ tbJmpCacheBits)).tbJmpCache cpu' i = some n := hk
    obtain ⟨hk, hrange⟩ := clearJmpCache_some hleft
    have hi := (h.cached cpu' i n hk).1
    have hslot := hash_mem_page (σ.tbs n).pc
    have hlt := tbJmpCacheHashPage_lt (page (σ.tbs n).pc)
    refine absurd ⟨Nat.zero_le _, ?_⟩ hrange
    rw [Nat.zero_add, hi]
    exact hslot.2.trans_le hlt
  · have hmap : (σ.tlbFlush cpu mapping).mapping cpu' = σ.mapping cpu' := by
      simp [State.tlbFlush, hcpu]
    rw [State.tlbFlush, clearJmpCache_of_ne hcpu] at hk
    rw [hmap]
    exact ⟨hk, fun _ _ hm => hm⟩

theorem Coherent.cacheUsable (h : Coherent m σ) {pc csBase : Addr t} {flags : BitVec 32}
    (hn : Usable σ cpu (m.mmuIndex flags) pc csBase flags n) : Coherent m (σ.cacheTb cpu pc n) := by
  rw [← hn.pc]
  refine h.cacheTb hn.live ?_
  rw [hn.flags]
  exact hn.mapped

theorem Coherent.tbFindSlow (h : Coherent m σ) (cpu : Cpu) (pc csBase : Addr t) (flags : BitVec 32)
    (translation : Translation t) : Coherent m (σ.tbFindSlow m cpu pc csBase flags translation).1 := by
  rw [State.tbFindSlow]
  split
  · exact h
  · rename_i physPc hphys
    split
    · exact h
    · rename_i n hfound
      exact h.cacheUsable (usable_of_found h hphys hfound)
    · have hgen := h.tbGenCode cpu (m.mmuIndex flags) pc csBase flags 0 translation
      split
      · rename_i σ' heq
        rw [heq] at hgen
        exact hgen.1
      · rename_i σ' n heq
        rw [heq] at hgen
        exact hgen.1.cacheUsable (hgen.2 n rfl)

/-- Every operation keeps the caches coherent. -/
theorem coherent_step (h : Coherent m σ) (op : Op t Cpu) (hstep : step m σ op = some σ') : Coherent m σ' := by
  cases op with
  | findFast cpu pc csBase flags translation =>
    cases hstep
    rw [State.tbFindFast]
    split
    · exact h
    · exact h.tbFindSlow cpu pc csBase flags translation
  | findSlow cpu pc csBase flags translation =>
    cases hstep
    exact h.tbFindSlow cpu pc csBase flags translation
  | genCode cpu mode pc csBase flags cflags translation =>
    cases hstep
    exact (h.tbGenCode cpu mode pc csBase flags cflags translation).1
  | physInvalidate n => exact (h.tbPhysInvalidate hstep).1
  | physInvalidateFree n =>
    obtain ⟨σ₁, hinv, rfl⟩ := Option.map_eq_some_iff.1 hstep
    obtain ⟨hcoh, -, hgone⟩ := h.tbPhysInvalidate hinv
    exact hcoh.tbFree hgone
  | flushPage cpu addr pages =>
    cases hstep
    exact h.tlbFlushPage addr pages
  | flush cpu mapping =>
    cases hstep
    exact h.tlbFlush mapping
  | tbFlush =>
    cases hstep
    exact coherent_tbFlush m σ

theorem coherent_run (mapping : Cpu → ℕ → Addr t → Option (PhysPage t)) (ops : List (Op t Cpu))
    (hrun : ops.foldlM (step m) (State.init mapping) = some σ) : Coherent m σ :=
  Lib.foldlM_invariant (P := Coherent m) (fun _ op _ h hstep => coherent_step h op hstep) ops _ σ
    (coherent_init m mapping) hrun

end Cpu

/-! ### Agreement of the two lookups -/

/-- `tb_find_slow` accepts a block when it comes to it. -/
def State.Accepts (σ : State t Cpu) (cpu : Cpu) (mode : ℕ) (pc csBase : Addr t) (flags : BitVec 32) (n : ℕ) : Prop :=
  ∃ physPc, σ.getPhysAddrCode cpu mode pc = some physPc ∧ n ∈ σ.tbPhysHash (tbPhysHashFunc physPc) ∧
    ∀ ns, σ.findLoop cpu mode pc csBase flags (page physPc) (n :: ns) = .found n

theorem Usable.accepts {mode : ℕ} {pc csBase : Addr t} {flags : BitVec 32}
    (h : Usable σ cpu mode pc csBase flags n) : σ.Accepts cpu mode pc csBase flags n := by
  obtain ⟨p, hp, haddr⟩ := h.mapped.first
  rw [h.pc] at hp
  have hlive := h.live
  rw [State.Live, TranslationBlock.physPc, ← haddr, h.pc] at hlive
  refine ⟨p.addr + offset pc, by rw [State.getPhysAddrCode, hp, Option.map_some], hlive, fun ns => ?_⟩
  rw [State.findLoop, if_pos ⟨h.pc, by rw [page_add_offset p.aligned, haddr], h.csBase, h.flags⟩]
  by_cases htwo : (σ.tbs n).pageAddr1 = noPage
  · rw [if_neg (not_not.2 htwo)]
  · obtain ⟨q, hq, hsecond⟩ := h.mapped.second htwo
    rw [h.pc] at hq
    have hphys : σ.getPhysAddrCode cpu mode (nextPage pc) = some (σ.tbs n).pageAddr1 := by
      rw [State.getPhysAddrCode, page_nextPage, hq, Option.map_some, offset_nextPage, BitVec.add_zero, hsecond]
    rw [if_pos htwo, hphys]
    exact if_pos rfl

/-- Fast lookup agrees with the physical lookup: in every state of a history, a block that is
returned from the jump cache is live and is what was looked for, its physical pages are those
that are mapped now, and the physical lookup accepts it. -/
theorem tbFindFast_agrees [DecidableEq Cpu] (m : Machine) (mapping : Cpu → ℕ → Addr t → Option (PhysPage t))
    (ops : List (Op t Cpu)) (σ : State t Cpu) (hrun : ops.foldlM (step m) (State.init mapping) = some σ)
    (cpu : Cpu) (pc csBase : Addr t) (flags : BitVec 32) (n : ℕ)
    (hhit : σ.tbJmpCacheHit cpu pc csBase flags = some n) :
    σ.Live n ∧ (σ.tbs n).pc = pc ∧ (σ.tbs n).csBase = csBase ∧ (σ.tbs n).flags = flags ∧
      (∃ p, σ.mapping cpu (m.mmuIndex flags) (page pc) = some p ∧ p.addr = (σ.tbs n).pageAddr0) ∧
      ((σ.tbs n).lastPage ≠ page pc →
        ∃ p, σ.mapping cpu (m.mmuIndex flags) (nextPage pc) = some p ∧ p.addr = (σ.tbs n).pageAddr1) ∧
      σ.Accepts cpu (m.mmuIndex flags) pc csBase flags n := by
  have hcoh := coherent_run mapping ops hrun
  rw [State.tbJmpCacheHit, Option.filter_eq_some_iff, decide_eq_true_eq] at hhit
  obtain ⟨hcached, rfl, rfl, rfl⟩ := hhit
  obtain ⟨-, hlive, hmapped⟩ := hcoh.cached cpu _ n hcached
  have husable : Usable σ cpu (m.mmuIndex (σ.tbs n).flags) (σ.tbs n).pc (σ.tbs n).csBase (σ.tbs n).flags n :=
    ⟨hlive, rfl, rfl, rfl, hmapped⟩
  exact ⟨hlive, rfl, rfl, rfl, hmapped.first, fun hspan => hmapped.second fun hno => hspan ((hcoh.spans n hlive).1 hno),
    husable.accepts⟩

/-- Every page is mapped to itself. -/
def identityMap : Unit → ℕ → Addr target32 → Option (PhysPage target32) := fun _ _ a => some ⟨page a, page_page a⟩

/-- A block on two pages is looked up again. -/
theorem tbFindFast_agrees_twoPages :
    ∃ σ, [Op.findFast () (0xffc : Addr target32) 0 0 (.done 8 100 (by decide) (by decide))].foldlM
        (step ⟨16, 4096, fun _ => 0⟩) (State.init identityMap) = some σ ∧
      σ.tbJmpCacheHit () 0xffc 0 0 = some 0 ∧ (σ.tbs 0).pageAddr1 = 0x1000 ∧ σ.Accepts () 0 0xffc 0 0 0 :=
  ⟨_, rfl, rfl, rfl,
    (tbFindFast_agrees ⟨16, 4096, fun _ => 0⟩ identityMap
      [Op.findFast () (0xffc : Addr target32) 0 0 (.done 8 100 (by decide) (by decide))] _ rfl () 0xffc 0 0 0
      rfl).2.2.2.2.2.2⟩

end Ar7Qemu.Exec.JmpCache
