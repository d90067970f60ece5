import Ar7Qemu.Exec.PhysMap
import Ar7Qemu.Exec.TbListsSound
import Ar7Qemu.Lib.WordBytes

/-! `cpu_physical_memory_unmap` after a write by DMA: the dirty flags and the translated code of
the RAM that was written, and the copy of the bounce buffer to the page that it stands for. The
loop over RAM goes on by whole pages from an address that need not be the start of one. -/

namespace Ar7Qemu.Exec.PhysUnmap

open Lib.WordBytes
open CodeProtect (codeDirtyFlag codeRange page_eq_self_iff toNat_offset offset_lt offset_add toNat_add_lt page_add_lt
  page_add_offset_self)
open PhysMap (Wf Fresh Backs RAMBlock qemuGetRamPtr qemuRamAddrFromHost)
open TbLists (Integrity Single Cleared Overlaps pageAddr tbRange)

variable {t : Target} {Cpu Mode : Type}

/-! ### Writes to I/O pages -/

/-- The handlers of a page that is memory though not RAM: what is written to it can be read back,
by the byte. -/
structure IoMem (t : Target) (Dev : Type) where
  bigEndian : Bool
  /-- `region_offset` of the page. -/
  regionOffset : PhysPage t
  /-- `io_mem_write`, for accesses of 1, 2 and 4 bytes. -/
  write : (n : ℕ) → Addr t → BitVec (8 * n) → Dev → Dev
  memory : Dev → Memory t.longBits
  memory_write : ∀ n a v d, memory (write n a v d) = (memory d).store bigEndian n a v

namespace IoMem

variable {Dev : Type} (io : IoMem t Dev)

/-- The width of a round of `cpu_physical_memory_rw`. -/
def width (addr1 : Addr t) (l : ℕ) : ℕ :=
  if 4 ≤ l ∧ addr1.toNat % 4 = 0 then 4 else if 2 ≤ l ∧ addr1.toNat % 2 = 0 then 2 else 1

/-- The rounds of `cpu_physical_memory_rw` that write to the rest of a page. -/
def writeLoop : ℕ → Addr t → (ℕ → BitVec 8) → ℕ → Dev → Dev
  | 0, _, _, _, d => d
  | fuel + 1, addr1, buf, len, d =>
    if len = 0 then d
    else
      let n := width addr1 len
      -- `ldl_p`, `lduw_p` or `ldub_p`
      let val := ofBytes n fun i => buf (place io.bigEndian n i)
      writeLoop fuel (addr1 + BitVec.ofNat _ n) (fun i => buf (n + i)) (len - n) (io.write n addr1 val d)

def devAddr (addr : Addr t) : Addr t := offset addr + io.regionOffset.addr

end IoMem

/-! ### Unmapping -/

/-- The loop of `cpu_physical_memory_unmap`. Its body is that of a physical write. -/
def unmapLoop : ℕ → Addr t → ℕ → CodeProtect.State t Cpu Mode → Option (CodeProtect.State t Cpu Mode)
  | 0, _, _, σ => some σ
  | fuel + 1, addr1, accessLen, σ =>
    if accessLen = 0 then some σ
    else
      let l := min t.pageSize accessLen
      (σ.physRamWrite addr1 l).bind (unmapLoop fuel (addr1 + BitVec.ofNat _ l) (accessLen - l))

structure Machine (t : Target) (Cpu Mode Dev : Type) where
  map : PhysMap.State t
  code : CodeProtect.State t Cpu Mode
  /-- The contents of host memory. -/
  host : ℕ → BitVec 8
  /-- What is behind the page of the bounce buffer. -/
  dev : Dev

variable {Dev : Type}

namespace Machine

/-- `cpu_physical_memory_write` from the bounce buffer, to at most the rest of a page. -/
def bounceWrite (io : IoMem t Dev) (m : Machine t Cpu Mode Dev) (accessLen : ℕ) : Option (Machine t Cpu Mode Dev) :=
  if accessLen = 0 then some m
  else
    let bounce := m.map.bounce
    match m.map.physOffset (page bounce.addr) with
    | .ram p =>
      let addr1 := p.addr + offset bounce.addr
      (qemuGetRamPtr addr1.toNat m.map.ramBlocks).bind fun (ptr, blocks) =>
        let host := fun x => if ptr ≤ x ∧ x < ptr + accessLen then m.host (bounce.buffer + (x - ptr)) else m.host x
        (m.code.physRamWrite addr1 accessLen).map fun code =>
          { m with host := host, code := code, map := { m.map with ramBlocks := blocks } }
    | _ =>
      let buf := fun i => m.host (bounce.buffer + i)
      some { m with dev := io.writeLoop accessLen (io.devAddr bounce.addr) buf accessLen m.dev }

/-- The bounce buffer is free. -/
def release (m : Machine t Cpu Mode Dev) : Machine t Cpu Mode Dev :=
  { m with map := { m.map with bounce := { m.map.bounce with buffer := 0 } } }

def cpuPhysicalMemoryUnmap (io : IoMem t Dev) (m : Machine t Cpu Mode Dev) (buffer : ℕ) (isWrite : Bool)
    (accessLen : ℕ) : Option (Machine t Cpu Mode Dev) :=
  if buffer ≠ m.map.bounce.buffer then
    if isWrite then
      (qemuRamAddrFromHost buffer m.map.ramBlocks).bind fun addr1 =>
        (unmapLoop accessLen (BitVec.ofNat _ addr1) accessLen m.code).map fun code => { m with code := code }
    else some m
  else (if isWrite then m.bounceWrite io accessLen else some m).map release

end Machine

/-! ### What was written -/

/-- A byte of RAM is code of a part of a block. -/
def Covers (tb : TranslationBlock t) (k x : ℕ) : Prop :=
  ∃ p, pageAddr tb k = some p ∧ p.toNat + (codeRange tb k).1 ≤ x ∧ x < p.toNat + (codeRange tb k).2

/-- The page of a byte of RAM has its flags set, and the byte is in no live block. -/
structure Marked (σ : CodeProtect.State t Cpu Mode) (x : ℕ) : Prop where
  dirty : σ.physRamDirty (page (BitVec.ofNat _ x)) ||| codeDirtyFlag = 0xff
  code : ∀ n k, σ.lists.live n = true → ¬ Covers (σ.lists.tbs n) k x

/-- What holds in every state: the lists are well formed, pages with code are protected, and
code is below the end of the address space. -/
structure Good (σ : CodeProtect.State t Cpu Mode) : Prop where
  lists : ∃ l, Integrity σ.lists l
  inv : CodeProtect.Inv σ
  aligned : ∀ n, σ.lists.live n = true → (σ.lists.tbs n).pageAddr1 ≠ noPage →
    page (σ.lists.tbs n).pageAddr1 = (σ.lists.tbs n).pageAddr1
  fits : ∀ n, σ.lists.live n = true →
    (σ.lists.tbs n).pageAddr0.toNat + (offset (σ.lists.tbs n).pc).toNat + (σ.lists.tbs n).size < 2 ^ t.longBits

/-- No live block has its two parts on one page and both of them in a range. -/
def NoAlias (σ : CodeProtect.State t Cpu Mode) (start len : ℕ) : Prop :=
  ∀ n, σ.lists.live n = true → (σ.lists.tbs n).pageAddr0 = (σ.lists.tbs n).pageAddr1 →
    ¬ (Overlaps (σ.lists.tbs n) 0 start (start + len) ∧ Overlaps (σ.lists.tbs n) 1 start (start + len))

/-! ### A write to one page -/

section PageWrite

variable {σ σ' : CodeProtect.State t Cpu Mode}

/-- The same blocks or fewer, and the same flags or more. -/
structure Later (σ σ' : CodeProtect.State t Cpu Mode) : Prop where
  tbs : σ'.lists.tbs = σ.lists.tbs
  live : ∀ n, σ'.lists.live n = true → σ.lists.live n = true
  dirty : ∀ p, σ.physRamDirty p ||| codeDirtyFlag = 0xff → σ'.physRamDirty p ||| codeDirtyFlag = 0xff

theorem Later.refl (σ : CodeProtect.State t Cpu Mode) : Later σ σ := ⟨rfl, fun _ h => h, fun _ h => h⟩

theorem Later.trans {σ'' : CodeProtect.State t Cpu Mode} (h : Later σ σ') (h' : Later σ' σ'') : Later σ σ'' where
  tbs := h'.tbs.trans h.tbs
  live n hn := h.live n (h'.live n hn)
  dirty p hp := h'.dirty p (h.dirty p hp)

theorem Marked.later {x : ℕ} (h : Marked σ x) (hlater : Later σ σ') : Marked σ' x where
  dirty := hlater.dirty _ h.dirty
  code n k hn := by
    rw [hlater.tbs]
    exact h.code n k (hlater.live n hn)

theorem NoAlias.later {start len : ℕ} (h : NoAlias σ start len) (hlater : Later σ σ') : NoAlias σ' start len := fun n hn => by
  rw [hlater.tbs]
  exact h n (hlater.live n hn)

theorem Overlaps.mono {tb : TranslationBlock t} {k a b c d : ℕ} (h : Overlaps tb k a b) (hac : c ≤ a) (hbd : b ≤ d) :
    Overlaps tb k c d := by
  simp only [Overlaps] at h ⊢
  omega

theorem NoAlias.sub {a n b m : ℕ} (h : NoAlias σ a n) (hlo : a ≤ b) (hhi : b + m ≤ a + n) : NoAlias σ b m := by
  intro i hi heq hboth
  exact h i hi heq ⟨Overlaps.mono hboth.1 hlo hhi, Overlaps.mono hboth.2 hlo hhi⟩

theorem NoAlias.single {start len : ℕ} (h : NoAlias σ start len) (p : Addr t) :
    Single σ.lists start (start + len) p := fun n hn h0 h1 => h n hn (h0.trans h1.symm)

theorem dirty_tbPhysInvalidate {n : ℕ} (h : σ.tbPhysInvalidate n = some σ') : σ'.physRamDirty = σ.physRamDirty := by
  obtain ⟨lists, -, rfl⟩ := Option.map_eq_some_iff.1 h
  simp only [CodeProtect.State.invalidatePageBitmapSet]
  split <;> split <;> rfl

theorem dirty_rangeLoop {start stop : ℕ} : ∀ {fuel : ℕ} {cur : Option (ℕ × ℕ)} {σ σ' : CodeProtect.State t Cpu Mode},
    CodeProtect.State.rangeLoop start stop fuel cur σ = some σ' → σ'.physRamDirty = σ.physRamDirty
  | fuel + 1, none, σ, σ', h => by
    cases h
    rfl
  | fuel + 1, some (n, k), σ, σ', h => by
    rw [CodeProtect.State.rangeLoop] at h
    split at h
    · obtain ⟨σ₁, h₁, h₂⟩ := Option.bind_eq_some_iff.1 h
      exact (dirty_rangeLoop h₂).trans (dirty_tbPhysInvalidate h₁)
    · exact dirty_rangeLoop h

theorem countWrite_false (σ : CodeProtect.State t Cpu Mode) (p : Addr t) :
    ∃ σ', σ.countWrite p false = some σ' ∧ σ'.lists = σ.lists ∧ σ'.physRamDirty = σ.physRamDirty := by
  rw [CodeProtect.State.countWrite]
  split
  · refine ⟨_, if_neg ?_, rfl, rfl⟩
    simp
  · exact ⟨σ, rfl, rfl, rfl⟩

theorem codeRemoved_false (σ : CodeProtect.State t Cpu Mode) (p : Addr t) :
    (σ.codeRemoved p false).lists = σ.lists ∧ (σ.codeRemoved p false).physRamDirty = σ.physRamDirty := by
  rw [CodeProtect.State.codeRemoved]
  split <;> exact ⟨rfl, rfl⟩

theorem Good.later (h : Good σ) (hlists : ∃ l, Integrity σ'.lists l) (hshrinks : CodeProtect.Shrinks σ σ')
    (hlater : Later σ σ') : Good σ' where
  lists := hlists
  inv := h.inv.shrinks hshrinks
  aligned n hn := by
    rw [hlater.tbs]
    exact h.aligned n (hlater.live n hn)
  fits n hn := by
    rw [hlater.tbs]
    exact h.fits n (hlater.live n hn)

theorem mem_pages {l : TbLists.Lists t} (h : Integrity σ.lists l) {n k : ℕ} {p : Addr t} (hn : σ.lists.live n = true)
    (hp : pageAddr (σ.lists.tbs n) k = some p) : (n, k) ∈ l.pages p := by
  rw [h.pages.mem, TbLists.State.pageKey, if_pos hn]
  exact hp

theorem Good.not_live (h : Good σ) {p : Addr t} (hfirst : σ.lists.firstTb p = none) {n k : ℕ}
    (hp : pageAddr (σ.lists.tbs n) k = some p) : σ.lists.live n ≠ true := by
  intro hn
  obtain ⟨l, hl⟩ := h.lists
  have hmem := mem_pages hl hn hp
  have hseg := hl.pages.seg p
  rw [hfirst] at hseg
  cases hxs : l.pages p with
  | nil =>
    rw [hxs] at hmem
    cases hmem
  | cons a xs =>
    rw [hxs] at hseg
    cases hseg.1

/-- `tb_invalidate_phys_page_range` leaves no block of the page of its start that is in the range. -/
theorem Good.range (h : Good σ) {start stop : ℕ} (hsingle : Single σ.lists start stop (page (BitVec.ofNat _ start))) :
    ∃ σ', σ.tbInvalidatePhysPageRange start stop false = some σ' ∧ Good σ' ∧ Later σ σ' ∧
      σ'.physRamDirty = σ.physRamDirty ∧
      ∀ n k, σ'.lists.live n = true → pageAddr (σ.lists.tbs n) k = some (page (BitVec.ofNat _ start)) →
        ¬ Overlaps (σ.lists.tbs n) k start stop := by
  by_cases hdesc : σ.hasDesc (page (BitVec.ofNat _ start)) = true
  · obtain ⟨l, hl⟩ := h.lists
    obtain ⟨τ, lτ, hrange, hτ, hclear⟩ := hl.tbInvalidatePhysPageRange hsingle
    obtain ⟨σ₁, hcount, hlists₁, hdirty₁⟩ := countWrite_false σ (page (BitVec.ofNat _ start))
    have hloop : (CodeProtect.State.rangeLoop start stop σ.lists.fuel
        (σ.lists.firstTb (page (BitVec.ofNat _ start))) σ₁).map CodeProtect.State.lists = some τ := by
      rw [CodeProtect.rangeLoop_lists, hlists₁]
      exact hrange
    obtain ⟨σ₂, hσ₂, hτ₂⟩ := Option.map_eq_some_iff.1 hloop
    obtain ⟨hlists₃, hdirty₃⟩ := codeRemoved_false σ₂ (page (BitVec.ofNat _ start))
    have hresult : σ.tbInvalidatePhysPageRange start stop false =
        some (σ₂.codeRemoved (page (BitVec.ofNat _ start)) false) := by
      rw [CodeProtect.State.tbInvalidatePhysPageRange, if_pos hdesc, hcount, Option.bind_some, hlists₁, hσ₂, Option.map_some]
    have hdirty : (σ₂.codeRemoved (page (BitVec.ofNat _ start)) false).physRamDirty = σ.physRamDirty :=
      hdirty₃.trans ((dirty_rangeLoop hσ₂).trans hdirty₁)
    have hlater : Later σ (σ₂.codeRemoved (page (BitVec.ofNat _ start)) false) := by
      refine ⟨?_, fun n hn => ?_, fun p hp => ?_⟩
      · rw [hlists₃, hτ₂, hclear.tbs]
      · rw [hlists₃, hτ₂] at hn
        exact hclear.live n hn
      · rw [hdirty]
        exact hp
    refine ⟨_, hresult, h.later ⟨lτ, ?_⟩ (CodeProtect.shrinks_range hresult) hlater, hlater, hdirty, fun n k hn hp hover => ?_⟩
    · rw [hlists₃, hτ₂]
      exact hτ
    · have hdead := hclear.gone (n, k) (mem_pages hl (hlater.live n hn) hp) hover
      rw [hlists₃, hτ₂] at hn
      exact absurd (hdead.symm.trans hn) (by decide)
  · have hnone : σ.lists.firstTb (page (BitVec.ofNat _ start)) = none := by
      by_contra hne
      exact hdesc (h.inv.desc _ hne)
    refine ⟨σ, if_neg hdesc, h, .refl σ, rfl, fun n k hn hp => ?_⟩
    exact absurd hn (h.not_live hnone hp)

theorem dirty_or_code (flags : BitVec 8) : flags ||| ~~~ codeDirtyFlag ||| codeDirtyFlag = 0xff := by
  revert flags
  decide

theorem later_setDirtyFlags (σ : CodeProtect.State t Cpu Mode) (p : Addr t) : Later σ (σ.setDirtyFlags p) := by
  refine ⟨rfl, fun _ h => h, fun q hq => ?_⟩
  show Function.update σ.physRamDirty p (σ.physRamDirty p ||| ~~~ codeDirtyFlag) q ||| codeDirtyFlag = 0xff
  by_cases hpq : q = p
  · subst hpq
    rw [Function.update_self]
    exact dirty_or_code _
  · rw [Function.update_of_ne hpq]
    exact hq

/-- A physical write to RAM sets the flags of its page, and leaves no block there that is in its range. -/
theorem Good.physRamWrite (h : Good σ) (a : Addr t) (len : ℕ) (halias : NoAlias σ a.toNat len) :
    ∃ σ', σ.physRamWrite a len = some σ' ∧ Good σ' ∧ Later σ σ' ∧ σ'.physRamDirty (page a) ||| codeDirtyFlag = 0xff ∧
      ∀ n k, σ'.lists.live n = true → pageAddr (σ.lists.tbs n) k = some (page a) →
        ¬ Overlaps (σ.lists.tbs n) k a.toNat (a.toNat + len) := by
  have hpage : BitVec.ofNat t.longBits a.toNat = a := by rw [BitVec.ofNat_toNat, BitVec.setWidth_eq]
  rw [CodeProtect.State.physRamWrite]
  by_cases hdirty : σ.physRamDirty (page a) ≠ 0xff
  · obtain ⟨σ₁, hrange, hgood, hlater, -, hgone⟩ := h.range (halias.single _)
    rw [hpage] at hgone
    have hset := later_setDirtyFlags σ₁ (page a)
    refine ⟨σ₁.setDirtyFlags (page a), ?_, ?_, hlater.trans hset, ?_, hgone⟩
    · rw [if_pos hdirty, hrange, Option.map_some]
    · exact hgood.later hgood.lists (CodeProtect.shrinks_setDirtyFlags σ₁ (page a)) hset
    · show Function.update σ₁.physRamDirty (page a) (σ₁.physRamDirty (page a) ||| ~~~ codeDirtyFlag) (page a) ||| _ = _
      rw [Function.update_self]
      exact dirty_or_code _
  · rw [if_neg hdirty]
    have hall : σ.physRamDirty (page a) = 0xff := not_not.1 hdirty
    refine ⟨σ, rfl, h, .refl σ, ?_, fun n k hn hp => ?_⟩
    · rw [hall]
      decide
    · exact absurd hn (h.not_live (h.inv.toProtected.firstTb_dirty hall) hp)

end PageWrite

/-! ### The loop -/

section Loop

variable {σ σ' : CodeProtect.State t Cpu Mode}

theorem ofNat_eq_add {p : Addr t} {x : ℕ} (hx : p.toNat ≤ x) : BitVec.ofNat _ x = p + BitVec.ofNat _ (x - p.toNat) := by
  conv_lhs => rw [← Nat.add_sub_cancel' hx, BitVec.ofNat_add, BitVec.ofNat_toNat, BitVec.setWidth_eq]

theorem page_ofNat {p : Addr t} (hp : page p = p) {x : ℕ} (hlo : p.toNat ≤ x) (hhi : x < p.toNat + t.pageSize) :
    page (BitVec.ofNat _ x) = p := by
  have hzero : offset p = 0#_ := by rw [← hp, offset_page]
  rw [ofNat_eq_add hlo, page_add_lt, hp]
  rw [hzero, BitVec.toNat_zero]
  omega

theorem offset_add_pages (a : Addr t) (i : ℕ) : offset (a + BitVec.ofNat _ (i * t.pageSize)) = offset a := by
  rw [← BitVec.toNat_inj, toNat_offset, toNat_offset, BitVec.toNat_add, Nat.mod_mod_of_dvd _ (pageSize_dvd t),
    BitVec.toNat_ofNat, Nat.add_mod, Nat.mod_mod_of_dvd _ (pageSize_dvd t), Nat.mul_mod_left, Nat.add_zero, Nat.mod_mod]

/-- A block with a byte of code is in the list of its page, and in every range with the byte. -/
theorem Good.covers (h : Good σ) {n k x : ℕ} (hn : σ.lists.live n = true) (hcov : Covers (σ.lists.tbs n) k x) :
    pageAddr (σ.lists.tbs n) k = some (page (BitVec.ofNat _ x)) ∧
      ∀ start stop, start ≤ x → x < stop → Overlaps (σ.lists.tbs n) k start stop := by
  obtain ⟨p, hp, hlo, hhi⟩ := hcov
  match k, hp with
  | 0, hp =>
    cases hp
    obtain ⟨l, hl⟩ := h.lists
    have halign := hl.aligned n hn
    have hfits := h.fits n hn
    have hstart : ((σ.lists.tbs n).pageAddr0 + offset (σ.lists.tbs n).pc).toNat =
        (σ.lists.tbs n).pageAddr0.toNat + (offset (σ.lists.tbs n).pc).toNat :=
      CodeProtect.toNat_add_offset ⟨_, halign⟩ _
    simp only [codeRange, if_true] at hlo hhi
    refine ⟨?_, fun start stop hs hx => ?_⟩
    · rw [page_ofNat halign (by omega) (by omega)]
      rfl
    · simp only [Overlaps, tbRange, if_true, BitVec.toNat_add _ (BitVec.ofNat _ (σ.lists.tbs n).size), hstart,
        BitVec.toNat_ofNat, Nat.add_mod_mod, Nat.mod_eq_of_lt hfits]
      omega
  | 1, hp =>
    rw [pageAddr] at hp
    split at hp
    · cases hp
    · rename_i hne
      cases hp
      have halign := h.aligned n hn hne
      have hoff := offset_lt ((σ.lists.tbs n).pc + BitVec.ofNat _ (σ.lists.tbs n).size)
      have hend := CodeProtect.toNat_add_offset ⟨_, halign⟩ ((σ.lists.tbs n).pc + BitVec.ofNat _ (σ.lists.tbs n).size)
      simp only [codeRange, if_neg Nat.one_ne_zero] at hlo hhi
      refine ⟨?_, fun start stop hs hx => ?_⟩
      · rw [page_ofNat halign (by omega) (by omega), pageAddr, if_neg hne]
      · simp only [Overlaps, tbRange, if_neg Nat.one_ne_zero]
        simp only at hend
        omega

theorem Good.marked (h : Good σ) {a : Addr t} {len : ℕ} (hin : (offset a).toNat + len ≤ t.pageSize)
    (halias : NoAlias σ a.toNat len) :
    ∃ σ', σ.physRamWrite a len = some σ' ∧ Good σ' ∧ Later σ σ' ∧
      ∀ x, a.toNat ≤ x → x < a.toNat + len → Marked σ' x := by
  obtain ⟨σ', hwrite, hgood, hlater, hdirty, hgone⟩ := h.physRamWrite a len halias
  refine ⟨σ', hwrite, hgood, hlater, fun x hlo hhi => ?_⟩
  have hpage : page (BitVec.ofNat _ x) = page a := by
    rw [ofNat_eq_add hlo]
    exact page_add_lt (by omega)
  refine ⟨by rw [hpage]; exact hdirty, fun n k hn hcov => ?_⟩
  obtain ⟨hp, hover⟩ := hgood.covers hn hcov
  rw [hpage, hlater.tbs] at hp
  rw [hlater.tbs] at hover
  exact hgone n k hn hp (hover _ _ hlo hhi)

theorem unmapLoop_marks (fuel : ℕ) : ∀ (a : Addr t) (len : ℕ) {σ : CodeProtect.State t Cpu Mode}, Good σ →
    NoAlias σ a.toNat len → a.toNat + len ≤ 2 ^ t.longBits → len ≤ fuel →
    offset a = 0#_ ∨ (offset a).toNat + len ≤ t.pageSize →
    ∃ σ', unmapLoop fuel a len σ = some σ' ∧ Later σ σ' ∧ ∀ x, a.toNat ≤ x → x < a.toNat + len → Marked σ' x := by
  induction fuel with
  | zero =>
    intro a len σ _ _ _ hfuel _
    exact ⟨σ, rfl, .refl σ, fun x hlo hhi => by omega⟩
  | succ fuel ih =>
    intro a len σ h halias hend hfuel hcond
    rw [unmapLoop]
    by_cases hlen : len = 0
    · rw [if_pos hlen]
      exact ⟨σ, rfl, .refl σ, fun x hlo hhi => by omega⟩
    rw [if_neg hlen]
    have hS : 0 < t.pageSize := Nat.two_pow_pos _
    have hin : (offset a).toNat + min t.pageSize len ≤ t.pageSize := by
      rcases hcond with hzero | hin
      · rw [hzero, BitVec.toNat_zero]
        omega
      · omega
    obtain ⟨σ₁, hwrite, hgood, hlater, hmark⟩ := h.marked hin (halias.sub le_rfl (by omega))
    dsimp only
    rw [hwrite, Option.bind_some]
    by_cases hrest : len ≤ t.pageSize
    · have hall : min t.pageSize len = len := Nat.min_eq_right hrest
      refine ⟨σ₁, ?_, hlater, by rwa [hall] at hmark⟩
      rw [hall, Nat.sub_self]
      cases fuel with
      | zero => rfl
      | succ fuel => rw [unmapLoop, if_pos rfl]
    · -- the range goes on after the page, so it begins with one
      have hall : min t.pageSize len = t.pageSize := Nat.min_eq_left (Nat.le_of_not_le hrest)
      have hzero : offset a = 0#_ := by
        rcases hcond with hzero | hin
        · exact hzero
        · omega
      have hnext : (a + BitVec.ofNat _ t.pageSize).toNat = a.toNat + t.pageSize := by
        rw [BitVec.toNat_add, BitVec.toNat_ofNat, Nat.add_mod_mod, Nat.mod_eq_of_lt (by omega)]
      rw [hall] at hmark ⊢
      obtain ⟨σ₂, hloop, hlater₂, hmark₂⟩ := ih (a + BitVec.ofNat _ t.pageSize) (len - t.pageSize) hgood
        ((halias.later hlater).sub (by omega) (by omega)) (by omega) (by omega)
        (.inl (by rw [← Nat.one_mul t.pageSize, offset_add_pages, hzero]))
      refine ⟨σ₂, hloop, hlater.trans hlater₂, fun x hlo hhi => ?_⟩
      by_cases hx : x < a.toNat + t.pageSize
      · exact (hmark x hlo hx).later hlater₂
      · exact hmark₂ x (by omega) (by omega)

end Loop

/-! ### Code that the loop misses -/

section Missed

/-- A block of one byte at RAM address `x`, in an otherwise new state. -/
def oneByte (x : Addr t) : CodeProtect.State t Cpu Mode :=
  ((CodeProtect.State.init fun _ => .io).mapLists (·.tbAlloc 1 x 1 false)).tbLinkPhys 0 x noPage

variable {x : Addr t} {σ σ' : CodeProtect.State t Cpu Mode}

theorem oneByte_lists (x : Addr t) :
    (oneByte x : CodeProtect.State t Cpu Mode).lists =
      ((TbLists.State.init : TbLists.State t).tbAlloc 1 x 1 false).tbLinkPhys 0 x noPage :=
  CodeProtect.tbLinkPhys_lists _ _ _ _

theorem oneByte_live (x : Addr t) {n : ℕ} :
    (oneByte x : CodeProtect.State t Cpu Mode).lists.live n = true ↔ n = 0 := by
  rw [oneByte_lists, (TbLists.tbLinkPhys_fields _ _ _ _).1]
  by_cases hn : n = 0
  · simp [hn]
  · rw [Function.update_of_ne hn]
    simp [hn, TbLists.State.tbAlloc, TbLists.State.init]

theorem oneByte_tb (Cpu Mode : Type) (x : Addr t) : ((oneByte x : CodeProtect.State t Cpu Mode).lists.tbs 0).pc = x ∧
    ((oneByte x : CodeProtect.State t Cpu Mode).lists.tbs 0).size = 1 ∧
    ((oneByte x : CodeProtect.State t Cpu Mode).lists.tbs 0).pageAddr0 = page x ∧
    ((oneByte x : CodeProtect.State t Cpu Mode).lists.tbs 0).pageAddr1 = noPage := by
  rw [oneByte_lists, TbLists.tbLinkPhys_tbs]
  simp [TbLists.State.tbAlloc, TbLists.State.init]

theorem oneByte_pages (Cpu Mode : Type) (x : Addr t) : (oneByte x : CodeProtect.State t Cpu Mode).lists.firstTb (page x) = some (0, 0) ∧
    (oneByte x : CodeProtect.State t Cpu Mode).lists.pageNext (0, 0) = none ∧
    ∀ q ≠ page x, (oneByte x : CodeProtect.State t Cpu Mode).lists.firstTb q = none := by
  rw [oneByte_lists]
  refine ⟨?_, ?_, fun q hq => ?_⟩
  · simp [TbLists.State.tbAlloc, TbLists.State.init, TbLists.State.tbLinkPhys, TbLists.State.tbAllocPage]
  · simp [TbLists.State.tbAlloc, TbLists.State.init, TbLists.State.tbLinkPhys, TbLists.State.tbAllocPage]
  · simp [TbLists.State.tbAlloc, TbLists.State.init, TbLists.State.tbLinkPhys, TbLists.State.tbAllocPage,
      Function.update_of_ne hq]

theorem toNat_page_add_offset (x : Addr t) : (page x).toNat + (offset x).toNat = x.toNat := by
  rw [toNat_page, toNat_offset, Nat.mul_comm]
  exact Nat.div_add_mod _ _

theorem good_oneByte (hx : x.toNat + 1 < 2 ^ t.longBits) : Good (oneByte x : CodeProtect.State t Cpu Mode) := by
  obtain ⟨hpc, hsize, haddr0, haddr1⟩ := oneByte_tb Cpu Mode x
  refine ⟨?_, ?_, fun n hn hne => ?_, fun n hn => ?_⟩
  · rw [oneByte_lists]
    have halloc := TbLists.integrity_init.tbAlloc (t := t) 1 x 1 false
    refine halloc.tbLinkPhys ?_ ?_ ?_
    · simp [TbLists.State.tbAlloc, TbLists.State.init]
    · simp [TbLists.State.tbAlloc, TbLists.State.init]
    · simp only [TbLists.State.tbAlloc, TbLists.State.init]
      simpa using CodeProtect.page_add_offset_self x
  · refine CodeProtect.Inv.tbLinkPhys ?_ 0 fun hne => absurd rfl hne
    exact (CodeProtect.inv_init _).mapLists rfl
  · rw [(oneByte_live x).1 hn] at hne
    exact absurd haddr1 hne
  · rw [(oneByte_live x).1 hn, hpc, hsize, haddr0, toNat_page_add_offset]
    exact hx

theorem noAlias_oneByte (start len : ℕ) : NoAlias (oneByte x : CodeProtect.State t Cpu Mode) start len := by
  intro n hn heq
  obtain ⟨-, -, haddr0, haddr1⟩ := oneByte_tb Cpu Mode x
  rw [(oneByte_live x).1 hn, haddr0, haddr1] at heq
  exact absurd heq (page_ne_noPage (page_page x))

/-- The block is still there, and the other pages are dirty. -/
structure Survives (x : Addr t) (σ : CodeProtect.State t Cpu Mode) : Prop where
  lists : σ.lists = (oneByte x : CodeProtect.State t Cpu Mode).lists
  dirty : ∀ a, page a ≠ page x → σ.physRamDirty (page a) = 0xff

theorem survives_oneByte (Cpu Mode : Type) (x : Addr t) : Survives x (oneByte x : CodeProtect.State t Cpu Mode) := by
  refine ⟨rfl, fun a ha => ?_⟩
  have hdirty : (oneByte x : CodeProtect.State t Cpu Mode).physRamDirty (page a) =
      if (page x).toNat / t.pageSize * t.pageSize ≤ (page a).toNat ∧
          (page a).toNat < ((page x).toNat + t.pageSize + t.pageSize - 1) / t.pageSize * t.pageSize then
        0xff &&& ~~~ codeDirtyFlag else 0xff := by
    simp [oneByte, CodeProtect.State.tbLinkPhys, CodeProtect.State.tbAllocPage, CodeProtect.State.mapLists,
      CodeProtect.State.tlbProtectCode, CodeProtect.State.cpuPhysicalMemoryResetDirty, CodeProtect.State.init,
      CodeProtect.State.pageFindAlloc, CodeProtect.State.invalidatePageBitmap, TbLists.State.init, TbLists.State.tbAlloc]
  rw [hdirty]
  refine if_neg fun hrange => ha ?_
  rw [CodeProtect.mem_pageRange (page_page x)] at hrange
  have hsame := page_ofNat (page_page x) hrange.1 hrange.2
  rwa [BitVec.ofNat_toNat, BitVec.setWidth_eq, page_page] at hsame

theorem overlaps_oneByte (hx : x.toNat + 1 < 2 ^ t.longBits) {start stop : ℕ} :
    Overlaps ((oneByte x : CodeProtect.State t Cpu Mode).lists.tbs 0) 0 start stop ↔ start ≤ x.toNat ∧ x.toNat < stop := by
  obtain ⟨hpc, hsize, haddr0, -⟩ := oneByte_tb Cpu Mode x
  simp only [Overlaps, tbRange, if_true, hpc, hsize, haddr0, CodeProtect.page_add_offset_self]
  rw [BitVec.toNat_add, BitVec.toNat_ofNat, Nat.add_mod_mod, Nat.mod_eq_of_lt hx]
  omega

/-- A range without the byte invalidates nothing. -/
theorem Survives.range (h : Survives x σ) (hx : x.toNat + 1 < 2 ^ t.longBits) {a : Addr t} {len : ℕ} (ha : page a = page x)
    (hmiss : ¬ (a.toNat ≤ x.toNat ∧ x.toNat < a.toNat + len)) :
    ∃ σ', σ.tbInvalidatePhysPageRange a.toNat (a.toNat + len) false = some σ' ∧ Survives x σ' := by
  have hpage : BitVec.ofNat t.longBits a.toNat = a := by rw [BitVec.ofNat_toNat, BitVec.setWidth_eq]
  obtain ⟨hfirst, hnext, -⟩ := oneByte_pages Cpu Mode x
  rw [CodeProtect.State.tbInvalidatePhysPageRange, hpage, ha]
  by_cases hdesc : σ.hasDesc (page x) = true
  · obtain ⟨σ₁, hcount, hlists₁, hdirty₁⟩ := countWrite_false σ (page x)
    have hlists : σ₁.lists = (oneByte x : CodeProtect.State t Cpu Mode).lists := hlists₁.trans h.lists
    have hloop : CodeProtect.State.rangeLoop a.toNat (a.toNat + len) σ₁.lists.fuel (σ₁.lists.firstTb (page x)) σ₁ = some σ₁ := by
      rw [TbLists.State.fuel, hlists, hfirst, CodeProtect.State.rangeLoop, hlists,
        if_neg (mt (overlaps_oneByte hx).1 hmiss), hnext, CodeProtect.State.rangeLoop]
    obtain ⟨hlists₂, hdirty₂⟩ := codeRemoved_false σ₁ (page x)
    refine ⟨σ₁.codeRemoved (page x) false, ?_, hlists₂.trans hlists, fun b hb => ?_⟩
    · rw [if_pos hdesc, hcount, Option.bind_some, hloop, Option.map_some]
    · rw [hdirty₂, hdirty₁]
      exact h.dirty b hb
  · exact ⟨σ, if_neg hdesc, h⟩

theorem Survives.physRamWrite (h : Survives x σ) (hx : x.toNat + 1 < 2 ^ t.longBits) {a : Addr t} {len : ℕ}
    (hmiss : page a = page x → ¬ (a.toNat ≤ x.toNat ∧ x.toNat < a.toNat + len)) :
    ∃ σ', σ.physRamWrite a len = some σ' ∧ Survives x σ' := by
  rw [CodeProtect.State.physRamWrite]
  by_cases hdirty : σ.physRamDirty (page a) ≠ 0xff
  · have ha : page a = page x := by
      by_contra hne
      exact hdirty (h.dirty a hne)
    obtain ⟨σ₁, hrange, h₁⟩ := h.range hx ha (hmiss ha)
    refine ⟨σ₁.setDirtyFlags (page a), ?_, h₁.lists, fun b hb => ?_⟩
    · rw [if_pos hdirty, hrange, Option.map_some]
    · show Function.update σ₁.physRamDirty (page a) _ (page b) = 0xff
      rw [Function.update_of_ne (by rwa [ha])]
      exact h₁.dirty b hb
  · exact ⟨σ, if_neg hdirty, h⟩

/-- No round of the loop has a byte in the page that it works on. -/
def Missed (a : Addr t) (len x : ℕ) : Prop :=
  ∀ i, i * t.pageSize < len → page (a + BitVec.ofNat _ (i * t.pageSize)) = page (BitVec.ofNat _ x) →
    ¬ ((a + BitVec.ofNat _ (i * t.pageSize)).toNat ≤ x ∧
      x < (a + BitVec.ofNat _ (i * t.pageSize)).toNat + min t.pageSize (len - i * t.pageSize))

theorem unmapLoop_survives (hx : x.toNat + 1 < 2 ^ t.longBits) (fuel : ℕ) : ∀ (a : Addr t) (len : ℕ)
    {σ : CodeProtect.State t Cpu Mode}, Survives x σ → Missed a len x.toNat →
    ∃ σ', unmapLoop fuel a len σ = some σ' ∧ Survives x σ' := by
  have hself : BitVec.ofNat t.longBits x.toNat = x := by rw [BitVec.ofNat_toNat, BitVec.setWidth_eq]
  induction fuel with
  | zero => exact fun a len σ h _ => ⟨σ, rfl, h⟩
  | succ fuel ih =>
    intro a len σ h hmiss
    rw [unmapLoop]
    by_cases hlen : len = 0
    · rw [if_pos hlen]
      exact ⟨σ, rfl, h⟩
    rw [if_neg hlen]
    have hfirst := hmiss 0 (by omega)
    rw [Nat.zero_mul, BitVec.add_zero, hself, Nat.sub_zero] at hfirst
    obtain ⟨σ₁, hwrite, h₁⟩ := h.physRamWrite hx hfirst
    dsimp only
    rw [hwrite, Option.bind_some]
    refine ih _ _ h₁ fun i hi => ?_
    have hpos : 0 < len - min t.pageSize len := Nat.lt_of_le_of_lt (Nat.zero_le _) hi
    have hall : min t.pageSize len = t.pageSize := by omega
    have hnext := hmiss (i + 1)
    rw [Nat.succ_mul, Nat.add_comm (i * t.pageSize), BitVec.ofNat_add, ← BitVec.add_assoc, ← Nat.sub_sub] at hnext
    rw [hall] at hi ⊢
    exact hnext (by omega)

/-- The code at a byte that the loop misses stays. -/
theorem not_marked_of_missed (Cpu Mode : Type) {a : Addr t} {len y : ℕ} (hy : y + 1 < 2 ^ t.longBits) (hmiss : Missed a len y) :
    ∃ σ', unmapLoop len a len (oneByte (BitVec.ofNat _ y) : CodeProtect.State t Cpu Mode) = some σ' ∧ ¬ Marked σ' y := by
  have hself : (BitVec.ofNat t.longBits y).toNat = y := by rw [BitVec.toNat_ofNat, Nat.mod_eq_of_lt (by omega)]
  obtain ⟨σ', hloop, h⟩ := unmapLoop_survives (by rwa [hself]) len a len (survives_oneByte Cpu Mode (BitVec.ofNat _ y))
    (by rwa [hself])
  refine ⟨σ', hloop, fun hmarked => ?_⟩
  obtain ⟨hpc, hsize, haddr0, -⟩ := oneByte_tb Cpu Mode (BitVec.ofNat t.longBits y)
  have hlive : σ'.lists.live 0 = true := by
    rw [h.lists]
    exact (oneByte_live _).2 rfl
  refine hmarked.code 0 0 hlive ⟨page (BitVec.ofNat _ y), ?_, ?_⟩
  · rw [h.lists, pageAddr, haddr0]
  · have hsum := toNat_page_add_offset (BitVec.ofNat t.longBits y)
    have hoff := offset_lt (BitVec.ofNat t.longBits y)
    rw [h.lists]
    simp only [codeRange, if_true, hpc, hsize]
    omega

end Missed

/-! ### The bounce buffer -/

section Bounce

variable {Dev : Type} {io : IoMem t Dev}

theorem width_cases (a : Addr t) {len : ℕ} (hlen : len ≠ 0) : 0 < IoMem.width a len ∧ IoMem.width a len ≤ len := by
  rw [IoMem.width]
  split_ifs <;> omega

theorem toNat_sub_add (x a : Addr t) {n : ℕ} (hn : n < 2 ^ t.longBits) :
    (x - (a + BitVec.ofNat _ n)).toNat =
      if n ≤ (x - a).toNat then (x - a).toNat - n else (x - a).toNat + 2 ^ t.longBits - n := by
  have hofNat : (BitVec.ofNat t.longBits n).toNat = n := by rw [BitVec.toNat_ofNat, Nat.mod_eq_of_lt hn]
  rw [← BitVec.sub_sub]
  split
  · rename_i hle
    rw [BitVec.toNat_sub_of_le (by rwa [BitVec.le_def, hofNat]), hofNat]
  · rename_i hlt
    rw [BitVec.toNat_sub_of_lt (by rw [BitVec.lt_def, hofNat]; omega), hofNat]
    omega

/-- The rounds copy the buffer. -/
theorem memory_writeLoop (io : IoMem t Dev) (fuel : ℕ) : ∀ (a : Addr t) (buf : ℕ → BitVec 8) (len : ℕ) (d : Dev), len ≤ fuel →
    len < 2 ^ t.longBits → ∀ x, io.memory (io.writeLoop fuel a buf len d) x =
      if (x - a).toNat < len then buf (x - a).toNat else io.memory d x := by
  induction fuel with
  | zero =>
    intro a buf len d hfuel _ x
    rw [if_neg (by omega), IoMem.writeLoop]
  | succ fuel ih =>
    intro a buf len d hfuel hlen x
    rw [IoMem.writeLoop]
    by_cases hzero : len = 0
    · rw [if_pos hzero, if_neg (by omega)]
    rw [if_neg hzero]
    obtain ⟨hpos, hle⟩ := width_cases a hzero
    dsimp only
    rw [ih _ _ _ _ (by omega) (by omega) x, io.memory_write, store_ofBytes, toNat_sub_add x a (by omega)]
    have hx := (x - a).isLt
    split_ifs <;> first | rfl | omega | (congr 1; omega)

theorem bounceWrite_other (io : IoMem t Dev) {m : Machine t Cpu Mode Dev} (hram : m.map.ramAddr m.map.bounce.addr = none) {n : ℕ}
    (hn : n ≠ 0) : m.bounceWrite io n = some { m with
      dev := io.writeLoop n (io.devAddr m.map.bounce.addr) (fun i => m.host (m.map.bounce.buffer + i)) n m.dev } := by
  simp only [Machine.bounceWrite, if_neg hn]
  cases hp : m.map.physOffset (page m.map.bounce.addr) with
  | ram p =>
    rw [PhysMap.State.ramAddr, hp] at hram
    cases hram
  | rom p | romd p | io => rfl

theorem unmap_bounce (io : IoMem t Dev) (m : Machine t Cpu Mode Dev) (hram : m.map.ramAddr m.map.bounce.addr = none) {n : ℕ}
    (hn : n < 2 ^ t.longBits) :
    ∃ m', m.cpuPhysicalMemoryUnmap io m.map.bounce.buffer true n = some m' ∧ m'.map.bounce.buffer = 0 ∧
      ∀ x, io.memory m'.dev x =
        if (x - io.devAddr m.map.bounce.addr).toNat < n then
          m.host (m.map.bounce.buffer + (x - io.devAddr m.map.bounce.addr).toNat)
        else io.memory m.dev x := by
  rw [Machine.cpuPhysicalMemoryUnmap, if_neg (not_not.2 rfl), if_pos rfl]
  by_cases hzero : n = 0
  · subst hzero
    exact ⟨m.release, rfl, rfl, fun x => rfl⟩
  · rw [bounceWrite_other io hram hzero, Option.map_some]
    exact ⟨_, rfl, rfl, memory_writeLoop io n _ _ n m.dev le_rfl hn⟩

end Bounce

/-! ### Unmapping after a write -/

section Unmap

variable {Dev : Type} {io : IoMem t Dev} {s s' : PhysMap.State t} {addr : Addr t} {r len buffer ret plen n : ℕ}

/-- The machine has the RAM of a state, where a mapping was made, and maybe more. -/
structure Keeps (s : PhysMap.State t) (m : Machine t Cpu Mode Dev) : Prop where
  wf : Wf m.map
  blocks : ∀ b ∈ s.ramBlocks, b ∈ m.map.ramBlocks

/-- The pointer of a mapping of RAM leads to the loop. -/
theorem unmap_ram (io : IoMem t Dev) {m : Machine t Cpu Mode Dev} (hm : Keeps s m) (hbacks : Backs s.ramBlocks r ret) (n : ℕ) :
    m.cpuPhysicalMemoryUnmap io ret true n =
      (unmapLoop n (BitVec.ofNat _ r) n m.code).map fun code => { m with code := code } := by
  have hbacks' : Backs m.map.ramBlocks r ret := by
    obtain ⟨b, hb, hptr⟩ := hbacks
    exact ⟨b, hm.blocks b hb, hptr⟩
  have hne : ret ≠ m.map.bounce.buffer := by
    intro heq
    obtain ⟨b, hb, ⟨hlo, hhi⟩, hptr⟩ := hbacks'
    have hpos := hm.wf.host_pos b hb
    rw [RAMBlock.ptr] at hptr
    refine hm.wf.bounce (by omega) b hb 0 (Nat.two_pow_pos _) ⟨?_, ?_⟩
    · omega
    · omega
  rw [Machine.cpuPhysicalMemoryUnmap, if_pos hne, if_pos rfl, PhysMap.qemuRamAddrFromHost_spec hm.wf.hosts hbacks',
    Option.bind_some]

theorem mod_ramAddr (hr : s.ramAddr addr = some r) : r % t.pageSize = (offset addr).toNat := by
  cases hp : s.physOffset (page addr) with
  | ram p =>
    rw [PhysMap.ramAddr_of_ram hp] at hr
    cases hr
    rw [Nat.add_mod, Nat.mod_eq_zero_of_dvd (page_eq_self_iff.1 p.aligned), Nat.zero_add, Nat.mod_mod,
      Nat.mod_eq_of_lt (offset_lt addr)]
  | rom p | romd p | io =>
    rw [PhysMap.State.ramAddr, hp] at hr
    cases hr

theorem missed_of_dvd {a : Addr t} {x : ℕ} (hx : x < 2 ^ t.longBits) (hdvd : t.pageSize ∣ x) (ha : offset a ≠ 0#_) (len : ℕ) :
    Missed a len x := by
  intro i _ hpage hrange
  have hself : (BitVec.ofNat t.longBits x).toNat = x := by rw [BitVec.toNat_ofNat, Nat.mod_eq_of_lt hx]
  have haligned : page (BitVec.ofNat t.longBits x) = BitVec.ofNat _ x := page_eq_self_iff.2 (by rwa [hself])
  have hsum := toNat_page_add_offset (a + BitVec.ofNat _ (i * t.pageSize))
  rw [offset_add_pages, hpage, haligned, hself] at hsum
  have hpos : 0 < (offset a).toNat := by
    rw [Nat.pos_iff_ne_zero]
    intro hzero
    exact ha (BitVec.toNat_inj.1 hzero)
  omega

theorem missed_of_not_mem {a : Addr t} {x len : ℕ} (hend : a.toNat + len ≤ 2 ^ t.longBits)
    (hx : ¬ (a.toNat ≤ x ∧ x < a.toNat + len)) : Missed a len x := by
  intro i hi _ hrange
  have hnat : (a + BitVec.ofNat _ (i * t.pageSize)).toNat = a.toNat + i * t.pageSize := by
    rw [BitVec.toNat_add, BitVec.toNat_ofNat, Nat.add_mod_mod, Nat.mod_eq_of_lt (by omega)]
  rw [hnat] at hrange
  omega

/-- After every write through a mapping, the bytes that were written are marked. -/
def MarksWritten (Cpu Mode : Type) (io : IoMem t Dev) (s : PhysMap.State t) (addr : Addr t) (r ret n : ℕ) : Prop :=
  ∀ m : Machine t Cpu Mode Dev, Keeps s m → Good m.code → NoAlias m.code r n →
    ∃ m', m.cpuPhysicalMemoryUnmap io ret true n = some m' ∧
      ∀ k < n, ∀ x, s.ramAddr (addr + BitVec.ofNat _ k) = some x → Marked m'.code x

section Written

variable (Cpu Mode) [Inhabited Dev] (io : IoMem t Dev) (hwf : Wf s) (hhalf : 2 * s.lastRamOffset ≤ 2 ^ t.longBits)
  (hr : s.ramAddr addr = some r) (hn : n ≤ plen) (hpos : 0 < plen)
  (hwindow : ∀ k < plen, ∃ r, s.ramAddr (addr + BitVec.ofNat _ k) = some r ∧ Backs s.ramBlocks r (ret + k))
include hwf hhalf hr hn hpos hwindow

omit hwf hn hhalf [Inhabited Dev] in
theorem backs_first : Backs s.ramBlocks r ret := by
  obtain ⟨r', hr', hbacks⟩ := hwindow 0 hpos
  rw [BitVec.add_zero, hr] at hr'
  cases hr'
  exact hbacks

/-- A byte of the mapping that the loop misses is not marked in every case. -/
theorem not_marksWritten {k x : ℕ} (hk : k < n) (hx : s.ramAddr (addr + BitVec.ofNat _ k) = some x)
    (hmiss : Missed (BitVec.ofNat t.longBits r) n x) : ¬ MarksWritten Cpu Mode io s addr r ret n := by
  intro hall
  have hbacks := backs_first hr hpos hwindow
  have hlt : x + 1 < 2 ^ t.longBits := by
    obtain ⟨x', hx', b, hb, haddr, -⟩ := hwindow k (hk.trans_le hn)
    rw [hx] at hx'
    cases hx'
    have hbelow := hwf.below b hb
    have hhi := haddr.2
    omega
  obtain ⟨σ', hloop, hnot⟩ := not_marked_of_missed Cpu Mode hlt hmiss
  have hgood : Good (oneByte (BitVec.ofNat t.longBits x) : CodeProtect.State t Cpu Mode) := by
    refine good_oneByte ?_
    rwa [BitVec.toNat_ofNat, Nat.mod_eq_of_lt (Nat.lt_of_succ_lt hlt)]
  obtain ⟨m', hunmap, hmarked⟩ := hall ⟨s, oneByte (BitVec.ofNat _ x), fun _ => 0, default⟩ ⟨hwf, fun b hb => hb⟩ hgood
    (noAlias_oneByte r n)
  rw [unmap_ram io ⟨hwf, fun b hb => hb⟩ hbacks, hloop] at hunmap
  cases hunmap
  exact hnot (hmarked k hk x hx)

/-- What is written is marked exactly if it begins with a page or is in one, and follows in RAM. -/
theorem marksWritten_iff : MarksWritten Cpu Mode io s addr r ret n ↔
    (r % t.pageSize = 0 ∨ r % t.pageSize + n ≤ t.pageSize) ∧
      ∀ k < n, ∀ x, s.ramAddr (addr + BitVec.ofNat _ k) = some x → r ≤ x ∧ x < r + n := by
  have hbacks := backs_first hr hpos hwindow
  have hlen := hwf.window_le hwindow
  have hrlt : r < s.lastRamOffset := by
    obtain ⟨b, hb, haddr, -⟩ := hbacks
    exact haddr.2.trans_le (hwf.below b hb)
  have hnat : (BitVec.ofNat t.longBits r).toNat = r := by rw [BitVec.toNat_ofNat, Nat.mod_eq_of_lt (by omega)]
  have hoff : (offset (BitVec.ofNat t.longBits r)).toNat = r % t.pageSize := by rw [toNat_offset, hnat]
  have hend : (BitVec.ofNat t.longBits r).toNat + n ≤ 2 ^ t.longBits := by
    rw [hnat]
    omega
  constructor
  · intro hall
    refine ⟨?_, fun k hk x hx => ?_⟩
    · by_contra hcross
      have hlt := Nat.mod_lt r (show 0 < t.pageSize from Nat.two_pow_pos _)
      -- the first byte of the second page
      obtain ⟨x, hx, b, hb, haddr, -⟩ := hwindow (t.pageSize - r % t.pageSize) (by omega)
      have hzero := mod_ramAddr hx
      rw [mod_ramAddr hr] at hx hzero
      have hchunk : PhysMap.State.chunk addr (t.pageSize - (offset addr).toNat + 1) = t.pageSize - (offset addr).toNat := by
        rw [PhysMap.State.chunk]
        omega
      have hnext : offset (addr + BitVec.ofNat _ (t.pageSize - (offset addr).toNat)) = 0#_ := by
        rw [← hchunk]
        exact PhysMap.offset_add_chunk (by omega)
      rw [hnext, BitVec.toNat_zero] at hzero
      rw [← mod_ramAddr hr] at hx
      have hbelow := hwf.below b hb
      have hhi := haddr.2
      refine not_marksWritten Cpu Mode io hwf hhalf hr hn hpos hwindow (by omega) hx ?_ hall
      refine missed_of_dvd (by omega) (Nat.dvd_of_mod_eq_zero hzero) (fun heq => ?_) n
      rw [heq, BitVec.toNat_zero] at hoff
      omega
    · by_contra hout
      refine not_marksWritten Cpu Mode io hwf hhalf hr hn hpos hwindow hk hx ?_ hall
      exact missed_of_not_mem hend (by rwa [hnat])
  · rintro ⟨hcond, hin⟩ m hm hgood halias
    have hcond' : offset (BitVec.ofNat t.longBits r) = 0#_ ∨
        (offset (BitVec.ofNat t.longBits r)).toNat + n ≤ t.pageSize := by
      rw [hoff, ← BitVec.toNat_inj, hoff, BitVec.toNat_zero]
      exact hcond
    obtain ⟨σ', hloop, -, hmark⟩ := unmapLoop_marks n _ n hgood (by rwa [hnat]) hend le_rfl hcond'
    refine ⟨{ m with code := σ' }, ?_, fun k hk x hx => ?_⟩
    · rw [unmap_ram io hm hbacks, hloop, Option.map_some]
    · obtain ⟨hlo, hhi⟩ := hin k hk x hx
      exact hmark x (by rwa [hnat]) (by rwa [hnat])

end Written

/-- Unmapping after a write. For a mapping of RAM, what is written is marked exactly if it begins with a page or is in one, and
follows in RAM. For the bounce buffer, the page has what is written and nothing else is changed, and the buffer is free. -/
theorem unmap_written (Cpu Mode : Type) [Inhabited Dev] (io : IoMem t Dev) (hwf : Wf s) (hfresh : Fresh s buffer t.pageSize)
    (hhalf : 2 * s.lastRamOffset ≤ 2 ^ t.longBits)
    (hmap : s.cpuPhysicalMemoryMap addr len buffer = some (ret, plen, s')) (hret : ret ≠ 0) (n : ℕ) :
    (∀ r, s.ramAddr addr = some r → n ≤ plen →
      (MarksWritten Cpu Mode io s addr r ret n ↔
        (r % t.pageSize = 0 ∨ r % t.pageSize + n ≤ t.pageSize) ∧
          ∀ k < n, ∀ x, s.ramAddr (addr + BitVec.ofNat _ k) = some x → r ≤ x ∧ x < r + n)) ∧
    (s.ramAddr addr = none → n ≤ s'.bounce.len →
      ∀ m : Machine t Cpu Mode Dev, m.map.bounce = s'.bounce → m.map.ramAddr addr = none →
        ∃ m', m.cpuPhysicalMemoryUnmap io ret true n = some m' ∧ m'.map.bounce.buffer = 0 ∧
          ∀ x, io.memory m'.dev x =
            if (x - io.devAddr addr).toNat < n then m.host (ret + (x - io.devAddr addr).toNat) else io.memory m.dev x) := by
  refine ⟨fun r hr hn => ?_, fun hr hn m hbounce hram => ?_⟩
  · obtain ⟨hpos, hwindow⟩ := PhysMap.mapped_ram hwf hr hmap hret
    exact marksWritten_iff Cpu Mode io hwf hhalf hr hn hpos hwindow
  · obtain ⟨hbuffer, haddr, hlen⟩ := PhysMap.mapped_other hwf hr hfresh hmap hret
    rw [← hbounce] at hbuffer haddr hlen hn
    have hsize : t.pageSize < 2 ^ t.longBits := Nat.pow_lt_pow_right (by decide) t.lt_longBits
    have hchunk : PhysMap.State.chunk addr len ≤ t.pageSize := (Nat.min_le_left _ _).trans (Nat.sub_le _ _)
    rw [hbuffer, ← haddr]
    exact unmap_bounce io m (by rwa [haddr]) (by omega)

end Unmap

/-- A page of memory that is not RAM. -/
def plainIo : IoMem target32 (Memory 32) where
  bigEndian := false
  regionOffset := ⟨0, page_zero⟩
  write n a v d := d.store false n a v
  memory d := d
  memory_write _ _ _ _ := rfl

def twoPages : PhysMap.State target32 :=
  ⟨[⟨0x100000, 0, 8192⟩], 8192,
    fun p => if p = 0 then .ram ⟨0, page_zero⟩ else if p = 0x1000 then .ram ⟨0x1000, page_0x1000⟩ else .io, ⟨0, 0, 0⟩⟩

theorem wf_twoPages : Wf twoPages where
  offset_dvd b hb := by
    rw [List.mem_singleton.1 hb]
    decide
  length_dvd b hb := by
    rw [List.mem_singleton.1 hb]
    decide
  below b hb := by
    rw [List.mem_singleton.1 hb]
    decide
  covered r hr := ⟨_, List.mem_singleton.2 rfl, Nat.zero_le r, hr⟩
  addrs b hb c hc r _ _ := (List.mem_singleton.1 hb).trans (List.mem_singleton.1 hc).symm
  hosts b hb c hc h _ _ := (List.mem_singleton.1 hb).trans (List.mem_singleton.1 hc).symm
  host_pos b hb := by
    rw [List.mem_singleton.1 hb]
    decide
  table a p hp := by
    simp only [twoPages] at hp
    split_ifs at hp
    · cases hp
      decide
    · cases hp
      decide
  bounce hne := absurd rfl hne

theorem ramAddr_twoPages {a : Addr target32} {x : ℕ} (hx : twoPages.ramAddr a = some x) : x = a.toNat := by
  have hpage : ∀ p, twoPages.physOffset (page a) = .ram p → p.addr = page a := by
    intro p hp
    simp only [twoPages] at hp
    split_ifs at hp with hzero hone
    · cases hp
      exact hzero.symm
    · cases hp
      exact hone.symm
  rw [PhysMap.State.ramAddr] at hx
  split at hx
  · rename_i p hp
    rw [hpage p hp, page_add_offset_self] at hx
    exact (Option.some.inj hx).symm
  · cases hx

/-- A write that fills one page and half of the next. -/
theorem unmap_written_twoPages : MarksWritten Unit Unit plainIo twoPages 0 0 0x100000 0x1800 := by
  have hfresh : Fresh twoPages 0x200000 target32.pageSize := by
    refine ⟨by decide, fun b hb i _ hhost => ?_, fun hne => absurd rfl hne⟩
    rw [twoPages, List.mem_singleton] at hb
    subst hb
    have hlt := hhost.2
    simp only at hlt
    omega
  have hmap : twoPages.cpuPhysicalMemoryMap 0 0x1800 0x200000 = some (0x100000, 0x1800, twoPages) := by rfl
  refine ((unmap_written Unit Unit plainIo wf_twoPages hfresh (by decide) hmap (by decide) 0x1800).1 0 (by rfl) le_rfl).2
    ⟨.inl (by decide), fun k hk x hx => ?_⟩
  have hsum : ((0 : Addr target32) + BitVec.ofNat target32.longBits k).toNat = k := by
    rw [BitVec.toNat_add, BitVec.toNat_ofNat]
    show (0 + k % 2 ^ 32) % 2 ^ 32 = k
    omega
  rw [ramAddr_twoPages hx, hsum]
  omega

/-- A write of `0x1000` bytes from `0x800` on leaves code at `0x1000`. -/
theorem unmap_leaves_code : ∃ m : Machine target32 Unit Unit (Memory 32), Keeps twoPages m ∧ Good m.code ∧ NoAlias m.code 0x800 0x1000 ∧
    twoPages.cpuPhysicalMemoryMap 0x800 0x1000 0x200000 = some (0x100800, 0x1000, twoPages) ∧
    twoPages.ramAddr (0x800 + 0x800) = some 0x1000 ∧
    ∃ m', m.cpuPhysicalMemoryUnmap plainIo 0x100800 true 0x1000 = some m' ∧ ¬ Marked m'.code 0x1000 := by
  let m : Machine target32 Unit Unit (Memory 32) := ⟨twoPages, oneByte 0x1000, fun _ => 0, fun _ => 0⟩
  have hkeeps : Keeps twoPages m := ⟨wf_twoPages, fun b hb => hb⟩
  have hbacks : Backs twoPages.ramBlocks 0x800 0x100800 := ⟨_, List.mem_singleton.2 rfl, by decide, by decide⟩
  have hmiss : Missed (BitVec.ofNat target32.longBits 0x800) 0x1000 0x1000 :=
    missed_of_dvd (by decide) (by decide) (by decide) _
  obtain ⟨σ', hloop, hnot⟩ := not_marked_of_missed Unit Unit (by decide) hmiss
  refine ⟨m, hkeeps, good_oneByte (by decide), noAlias_oneByte _ _, by rfl, by rfl, { m with code := σ' }, ?_, hnot⟩
  rw [unmap_ram plainIo hkeeps hbacks]
  exact congrArg (Option.map fun code => { m with code := code }) hloop

end Ar7Qemu.Exec.PhysUnmap
