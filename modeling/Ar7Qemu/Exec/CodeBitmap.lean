import Ar7Qemu.Exec.TbListsSound
import Ar7Qemu.Exec.CodeProtectSound

/-! The bitmap of the code in a page: while a page has one, every byte of a live block on the
page has its bit set, so that a write that finds no bit set has no block to invalidate. -/

namespace Ar7Qemu.Exec.CodeProtect

open Lib
open TbLists (Integrity Lists pageKey_some)

variable {t : Target} {Cpu Mode : Type} {σ σ' : State t Cpu Mode}

/-! ### Bits -/

section Bits

def bit (tab : ℕ → BitVec 8) (o : ℕ) : Bool := (tab (o / 8)).getLsbD (o % 8)

theorem bit_update (tab : ℕ → BitVec 8) (i : ℕ) (b : BitVec 8) (o : ℕ) :
    bit (Function.update tab i b) o = if o / 8 = i then b.getLsbD (o % 8) else bit tab o := by
  rw [bit]
  split
  · rename_i h
    rw [h, Function.update_self]
  · rename_i h
    rw [Function.update_of_ne h, bit]

theorem bit_fillBytes (o : ℕ) : ∀ (n i : ℕ) (tab : ℕ → BitVec 8),
    bit (fillBytes n i tab) o = (decide (i ≤ o / 8 ∧ o / 8 < i + n) || bit tab o)
  | 0, i, tab => by
    rw [fillBytes, decide_eq_false (by omega), Bool.false_or]
  | n + 1, i, tab => by
    have hones : (0xff : BitVec 8).getLsbD (o % 8) = true := by
      have : ∀ k < 8, (0xff : BitVec 8).getLsbD k = true := by decide
      exact this _ (Nat.mod_lt _ (by decide))
    rw [fillBytes, bit_fillBytes o n, bit_update, hones]
    by_cases hi : o / 8 = i
    · simp [hi]
    · have hiff : (i + 1 ≤ o / 8 ∧ o / 8 < i + 1 + n) ↔ (i ≤ o / 8 ∧ o / 8 < i + (n + 1)) := by omega
      rw [if_neg hi, decide_eq_decide.2 hiff]

theorem getLsbD_mask {k i : ℕ} (hk : k < 8) (hi : i < 8) :
    ((0xff <<< k : ℕ) : BitVec 8).getLsbD i = decide (k ≤ i) := by
  have hall : ∀ k < 8, ∀ i < 8, ((0xff <<< k : ℕ) : BitVec 8).getLsbD i = decide (k ≤ i) := by decide
  exact hall k hk i hi

theorem getLsbD_lastMask {k i : ℕ} (hk : k < 8) (hi : i < 8) :
    (~~~ ((0xff <<< k : ℕ) : BitVec 8)).getLsbD i = decide (i < k) := by
  rw [BitVec.getLsbD_not, getLsbD_mask hk hi, decide_eq_true hi, Bool.true_and, ← decide_not, decide_eq_decide,
    Nat.not_le]

theorem bit_update_or (tab : ℕ → BitVec 8) (i : ℕ) (mask : BitVec 8) (o : ℕ) :
    bit (Function.update tab i (tab i ||| mask)) o = ((decide (o / 8 = i) && mask.getLsbD (o % 8)) || bit tab o) := by
  rw [bit_update]
  by_cases hi : o / 8 = i
  · subst hi
    rw [if_pos rfl, BitVec.getLsbD_or, Bool.or_comm, decide_eq_true rfl, Bool.true_and, bit]
  · rw [if_neg hi, decide_eq_false hi, Bool.false_and, Bool.false_or]

/-- `set_bits` sets the bits of a range. -/
theorem bit_setBits (tab : ℕ → BitVec 8) (start len o : ℕ) :
    bit (setBits tab start len) o = (decide (start ≤ o ∧ o < start + len) || bit tab o) := by
  have hstart : start % 8 < 8 := Nat.mod_lt _ (by decide)
  have hstop : (start + len) % 8 < 8 := Nat.mod_lt _ (by decide)
  have ho : o % 8 < 8 := Nat.mod_lt _ (by decide)
  rw [setBits]
  dsimp only
  split
  · rename_i hsame
    split
    · have hiff : (o / 8 = start / 8 ∧ start % 8 ≤ o % 8 ∧ o % 8 < (start + len) % 8) ↔
          (start ≤ o ∧ o < start + len) := by omega
      rw [bit_update_or, BitVec.getLsbD_and, getLsbD_mask hstart ho, getLsbD_lastMask hstop ho, ← Bool.decide_and,
        ← Bool.decide_and, decide_eq_decide.2 hiff]
    · rw [decide_eq_false (by omega), Bool.false_or]
  · rename_i hsplit
    -- the first byte and the whole bytes, and then what is left of the last byte
    have hbytes : bit (fillBytes ((start + len) / 8 - (start / 8 + 1)) (start / 8 + 1)
        (Function.update tab (start / 8) (tab (start / 8) ||| ((0xff <<< (start % 8) : ℕ) : BitVec 8)))) o =
        (decide (start ≤ o ∧ o / 8 < (start + len) / 8) || bit tab o) := by
      have hiff : ((start / 8 + 1 ≤ o / 8 ∧ o / 8 < start / 8 + 1 + ((start + len) / 8 - (start / 8 + 1))) ∨
          (o / 8 = start / 8 ∧ start % 8 ≤ o % 8)) ↔ (start ≤ o ∧ o / 8 < (start + len) / 8) := by omega
      rw [bit_fillBytes, bit_update_or, getLsbD_mask hstart ho, ← Bool.decide_and, ← Bool.or_assoc, ← Bool.decide_or,
        decide_eq_decide.2 hiff]
    split
    · have hiff : ((o / 8 = (start + len) / 8 ∧ o % 8 < (start + len) % 8) ∨
          (start ≤ o ∧ o / 8 < (start + len) / 8)) ↔ (start ≤ o ∧ o < start + len) := by omega
      rw [bit_update_or, getLsbD_lastMask hstop ho, hbytes, ← Bool.decide_and, ← Bool.or_assoc, ← Bool.decide_or,
        decide_eq_decide.2 hiff]
    · have hiff : (start ≤ o ∧ o / 8 < (start + len) / 8) ↔ (start ≤ o ∧ o < start + len) := by omega
      rw [hbytes, decide_eq_decide.2 hiff]

theorem bit_of_shiftRight {tab : ℕ → BitVec 8} {o len : ℕ} (hlen : o % 8 + len ≤ 8)
    (h : (tab (o / 8)).toNat >>> (o % 8) &&& (2 ^ len - 1) = 0) {j : ℕ} (hj : j < len) : bit tab (o + j) = false := by
  have hbit := congrArg (Nat.testBit · j) h
  rw [Nat.testBit_and, Nat.testBit_shiftRight, Nat.testBit_two_pow_sub_one, decide_eq_true hj, Bool.and_true,
    Nat.zero_testBit] at hbit
  rw [bit, show (o + j) / 8 = o / 8 by omega, show (o + j) % 8 = o % 8 + j by omega]
  exact hbit

end Bits

/-! ### Bitmaps of pages -/

section Covers

variable {l l' : TbLists.State t} {p : Addr t} {tab tab' : ℕ → BitVec 8}

/-- The bits of the code of a part of a block are set. -/
def Covered (tab : ℕ → BitVec 8) (tb : TranslationBlock t) (k : ℕ) : Prop :=
  ∀ o, (codeRange tb k).1 ≤ o → o < (codeRange tb k).2 → bit tab o = true

/-- The bits of all live blocks on a page are set. -/
def Covers (l : TbLists.State t) (p : Addr t) (tab : ℕ → BitVec 8) : Prop :=
  ∀ a, l.pageKey a = some p → Covered tab (l.tbs a.1) a.2

/-- The loop of `build_page_bitmap` keeps the bits that are set, and sets those of the blocks
that it visits. -/
theorem buildLoop_covered : ∀ {fuel : ℕ} {cur : Option (ℕ × ℕ)} {xs : List (ℕ × ℕ)} {tab : ℕ → BitVec 8},
    Seg l.pageNext cur xs none → buildLoop l fuel cur tab = some tab' →
    (∀ o, bit tab o = true → bit tab' o = true) ∧ ∀ a ∈ xs, Covered tab' (l.tbs a.1) a.2
  | 0, _, _, _, _, h => by cases h
  | fuel + 1, _, [], tab, hseg, h => by
    rw [show _ = none from hseg] at h
    cases h
    exact ⟨fun _ ho => ho, fun a ha => absurd ha List.not_mem_nil⟩
  | fuel + 1, _, (n, k) :: xs, tab, ⟨hcur, hseg⟩, h => by
    rw [hcur, buildLoop] at h
    obtain ⟨hkeep, hrest⟩ := buildLoop_covered hseg h
    refine ⟨fun o ho => hkeep o ?_, fun a ha => ?_⟩
    · rw [bit_setBits, ho, Bool.or_true]
    · rcases List.mem_cons.1 ha with rfl | ha
      · intro o hlo hhi
        apply hkeep
        dsimp only at hlo hhi
        rw [bit_setBits, decide_eq_true (by omega), Bool.true_or]
      · exact hrest a ha

theorem buildLoop_covers {lists : Lists t} (h : Integrity l lists) {fuel : ℕ}
    (hbuild : buildLoop l fuel (l.firstTb p) tab = some tab') : Covers l p tab' := fun a ha =>
  (buildLoop_covered (h.pages.seg p) hbuild).2 a ((h.pages.mem p a).2 ha)

theorem Covers.mono (h : Covers l p tab) (hlive : ∀ n, l'.live n = true → l.live n = true)
    (htbs : ∀ n, l'.live n = true → l'.tbs n = l.tbs n) : Covers l' p tab := by
  intro a ha
  obtain ⟨halive, haddr⟩ := pageKey_some ha
  rw [htbs a.1 halive] at haddr ⊢
  refine h a ?_
  rw [TbLists.State.pageKey, if_pos (hlive a.1 halive)]
  exact haddr

end Covers

/-! ### The invariant -/

/-- What holds of the bitmaps in every state. -/
structure Mapped (σ : State t Cpu Mode) : Prop where
  lists : ∃ l, Integrity σ.lists l
  covers : ∀ p tab, σ.codeBitmap p = some tab → Covers σ.lists p tab
  desc : ∀ p, σ.lists.firstTb p ≠ none → σ.hasDesc p = true
  size : ∀ n, (σ.lists.tbs n).size < t.pageSize
  /-- A block that leaves its page has a second page. -/
  second : ∀ n, σ.lists.live n = true → (σ.lists.tbs n).pageAddr1 = noPage →
    (offset (σ.lists.tbs n).pc).toNat + (σ.lists.tbs n).size ≤ t.pageSize
  aligned : ∀ n, σ.lists.live n = true → (σ.lists.tbs n).pageAddr1 ≠ noPage →
    page (σ.lists.tbs n).pageAddr1 = (σ.lists.tbs n).pageAddr1

theorem mapped_init (physOffset : Addr t → PhysOffset t) : Mapped (State.init physOffset : State t Cpu Mode) where
  lists := ⟨_, TbLists.integrity_init⟩
  covers p tab h := by cases h
  desc p h := absurd rfl h
  size n := Nat.two_pow_pos _
  second n h := by cases h
  aligned n h := by cases h

/-! ### Fewer blocks -/

section Fewer

/-- The blocks are fewer, and the bitmaps are old ones or cover the blocks of their page. -/
theorem Mapped.fewer (h : Mapped σ) (hs : Shrinks σ σ') (hl : ∃ l, Integrity σ'.lists l)
    (hlive : ∀ n, σ'.lists.live n = true → σ.lists.live n = true)
    (htbs : ∀ n, σ'.lists.live n = true → σ'.lists.tbs n = σ.lists.tbs n)
    (hsize : ∀ n, (σ'.lists.tbs n).size < t.pageSize)
    (hbitmap : ∀ p tab, σ'.codeBitmap p = some tab → σ.codeBitmap p = some tab ∨ Covers σ.lists p tab) :
    Mapped σ' where
  lists := hl
  covers p tab htab := by
    have hcovers : Covers σ.lists p tab := (hbitmap p tab htab).elim (h.covers p tab) id
    exact hcovers.mono hlive htbs
  desc p hp := by
    rw [hs.hasDesc]
    exact h.desc p fun hnone => hp (hs.firstTb p hnone)
  size := hsize
  second n hn := by
    rw [htbs n hn]
    exact h.second n (hlive n hn)
  aligned n hn := by
    rw [htbs n hn]
    exact h.aligned n (hlive n hn)

theorem Mapped.of_eq (h : Mapped σ) (hlists : σ'.lists = σ.lists) (hdesc : σ'.hasDesc = σ.hasDesc)
    (hbitmap : σ'.codeBitmap = σ.codeBitmap) : Mapped σ' where
  lists := hlists ▸ h.lists
  covers p tab htab := by
    rw [hlists]
    exact h.covers p tab (hbitmap ▸ htab)
  desc p hp := by
    rw [hdesc]
    exact h.desc p (hlists ▸ hp)
  size := hlists ▸ h.size
  second := hlists ▸ h.second
  aligned := hlists ▸ h.aligned

theorem Mapped.mapLists {f : TbLists.State t → TbLists.State t} (h : Mapped σ) (hl : ∃ l, Integrity (f σ.lists) l)
    (hfirst : (f σ.lists).firstTb = σ.lists.firstTb) (hlive : (f σ.lists).live = σ.lists.live)
    (htbs : ∀ n, σ.lists.live n = true → (f σ.lists).tbs n = σ.lists.tbs n)
    (hsize : ∀ n, ((f σ.lists).tbs n).size < t.pageSize) : Mapped (σ.mapLists f) :=
  h.fewer (.of_eq hfirst rfl rfl rfl) hl (fun _ hn => hlive ▸ hn) (fun n hn => htbs n (hlive ▸ hn)) hsize
    fun _ _ htab => .inl htab

theorem codeBitmap_invalidatePageBitmap {p q : Addr t} {tab : ℕ → BitVec 8}
    (h : (σ.invalidatePageBitmap q).codeBitmap p = some tab) : σ.codeBitmap p = some tab := by
  have hupdate : Function.update σ.codeBitmap q none p = some tab := h
  by_cases hpq : p = q
  · rw [hpq, Function.update_self] at hupdate
    cases hupdate
  · rwa [Function.update_of_ne hpq] at hupdate

theorem codeBitmap_invalidatePageBitmapSet {p q : Addr t} {tab : ℕ → BitVec 8}
    (h : (σ.invalidatePageBitmapSet q).codeBitmap p = some tab) : σ.codeBitmap p = some tab := by
  rw [State.invalidatePageBitmapSet] at h
  split at h
  · exact codeBitmap_invalidatePageBitmap h
  · exact h

theorem codeBitmap_tbPhysInvalidate {n : ℕ} {p : Addr t} {tab : ℕ → BitVec 8} (h : σ.tbPhysInvalidate n = some σ')
    (htab : σ'.codeBitmap p = some tab) : σ.codeBitmap p = some tab := by
  obtain ⟨lists, -, rfl⟩ := Option.map_eq_some_iff.1 h
  have hfirst := codeBitmap_invalidatePageBitmapSet (codeBitmap_invalidatePageBitmapSet htab)
  exact hfirst

theorem codeBitmap_rangeLoop {start stop : ℕ} {p : Addr t} {tab : ℕ → BitVec 8} :
    ∀ {fuel : ℕ} {cur : Option (ℕ × ℕ)} {σ σ' : State t Cpu Mode}, State.rangeLoop start stop fuel cur σ = some σ' →
      σ'.codeBitmap p = some tab → σ.codeBitmap p = some tab
  | fuel + 1, none, σ, σ', h, htab => by
    cases h
    exact htab
  | fuel + 1, some (n, k), σ, σ', h, htab => by
    rw [State.rangeLoop] at h
    split at h
    · obtain ⟨σ₁, h₁, h₂⟩ := Option.bind_eq_some_iff.1 h
      exact codeBitmap_tbPhysInvalidate h₁ (codeBitmap_rangeLoop h₂ htab)
    · exact codeBitmap_rangeLoop h htab

theorem Mapped.tbPhysInvalidate {n : ℕ} (h : Mapped σ) (hinv : σ.tbPhysInvalidate n = some σ') : Mapped σ' := by
  obtain ⟨l, hl⟩ := h.lists
  have hlists := tbPhysInvalidate_lists σ n
  rw [hinv] at hlists
  have hn : σ.lists.live n = true := by
    by_contra hdead
    rw [TbLists.tbPhysInvalidate_dead hl (by simpa using hdead)] at hlists
    cases hlists
  obtain ⟨τ, l', hτ, hl', htbs, hlive, -⟩ := hl.tbPhysInvalidate hn
  obtain rfl : σ'.lists = τ := Option.some.inj (hlists.trans hτ)
  refine h.fewer (shrinks_tbPhysInvalidate hinv) ⟨l', hl'⟩ (fun m hm => ?_) (fun m _ => by rw [htbs])
    (fun m => by rw [htbs]; exact h.size m) fun p tab htab => .inl (codeBitmap_tbPhysInvalidate hinv htab)
  rw [hlive] at hm
  exact ((TbLists.live_remove m).1 hm).1

/-- A bitmap that is built covers the blocks of its page. -/
theorem Mapped.countWrite {p : Addr t} {isCpuWriteAccess : Bool} (h : Mapped σ)
    (hcount : σ.countWrite p isCpuWriteAccess = some σ') : Mapped σ' := by
  obtain ⟨l, hl⟩ := h.lists
  rw [State.countWrite] at hcount
  split at hcount
  · dsimp only at hcount
    split at hcount
    · obtain ⟨tab, hbuild, rfl⟩ := Option.map_eq_some_iff.1 hcount
      refine h.fewer (.of_eq rfl rfl rfl rfl) ⟨l, hl⟩ (fun _ hn => hn) (fun _ _ => rfl) h.size fun q tab' hq => ?_
      have hupdate : Function.update σ.codeBitmap p (some tab) q = some tab' := hq
      by_cases hqp : q = p
      · subst hqp
        rw [Function.update_self] at hupdate
        cases hupdate
        exact .inr (buildLoop_covers hl hbuild)
      · rw [Function.update_of_ne hqp] at hupdate
        exact .inl hupdate
    · cases hcount
      exact h.of_eq rfl rfl rfl
  · cases hcount
    exact h

theorem Mapped.codeRemoved (h : Mapped σ) (p : Addr t) (isCpuWriteAccess : Bool) :
    Mapped (σ.codeRemoved p isCpuWriteAccess) := by
  have hdropped : Mapped (σ.invalidatePageBitmap p) :=
    h.fewer (.of_eq rfl rfl rfl rfl) h.lists (fun _ hn => hn) (fun _ _ => rfl) h.size fun _ _ htab =>
      .inl (codeBitmap_invalidatePageBitmap htab)
  rw [State.codeRemoved]
  split
  · dsimp only
    split
    · exact hdropped.of_eq rfl rfl rfl
    · exact hdropped
  · exact h

theorem Mapped.rangeLoop {start stop fuel : ℕ} {p : Addr t} (h : Mapped σ)
    (hloop : State.rangeLoop start stop fuel (σ.lists.firstTb p) σ = some σ') : Mapped σ' := by
  obtain ⟨l, hl⟩ := h.lists
  have hlists := rangeLoop_lists start stop fuel (σ.lists.firstTb p) σ
  rw [hloop] at hlists
  obtain ⟨hl', htbs, hlive⟩ := TbLists.rangeLoop_done hl (hl.pages.seg p) (.inl ⟨[], rfl⟩) hlists.symm
  exact h.fewer (shrinks_rangeLoop hloop) hl' hlive (fun m _ => by rw [htbs]) (fun m => by rw [htbs]; exact h.size m)
    fun q tab htab => .inl (codeBitmap_rangeLoop hloop htab)

theorem Mapped.range {start stop : ℕ} {isCpuWriteAccess : Bool} (h : Mapped σ)
    (hrange : σ.tbInvalidatePhysPageRange start stop isCpuWriteAccess = some σ') : Mapped σ' := by
  rw [State.tbInvalidatePhysPageRange] at hrange
  split at hrange
  · obtain ⟨σ₁, h₁, h₂⟩ := Option.bind_eq_some_iff.1 hrange
    obtain ⟨σ₂, hloop, rfl⟩ := Option.map_eq_some_iff.1 h₂
    exact ((h.countWrite h₁).rangeLoop hloop).codeRemoved _ _
  · cases hrange
    exact h

theorem Mapped.tbFlush (h : Mapped σ) : Mapped σ.tbFlush :=
  h.fewer (shrinks_tbFlush σ) ⟨_, TbLists.integrity_tbFlush σ.lists⟩ (fun _ hn => by cases hn) (fun _ hn => by cases hn)
    h.size fun _ _ htab => by cases htab

end Fewer

/-! ### New blocks -/

section Link

variable {n : ℕ} {physPc physPage2 : Addr t}

theorem codeBitmap_tbAllocPage (σ : State t Cpu Mode) (n k : ℕ) (p : Addr t) :
    (σ.tbAllocPage n k p).codeBitmap = Function.update σ.codeBitmap p none := by
  rw [State.tbAllocPage]
  split <;> rfl

theorem desc_tbAllocPage (h : ∀ q, σ.lists.firstTb q ≠ none → σ.hasDesc q = true) (n k : ℕ) (p q : Addr t)
    (hq : (σ.tbAllocPage n k p).lists.firstTb q ≠ none) : (σ.tbAllocPage n k p).hasDesc q = true := by
  have hdesc : (σ.tbAllocPage n k p).hasDesc = (σ.pageFindAlloc p).hasDesc := by
    rw [State.tbAllocPage]
    split <;> rfl
  have hfirst : (σ.tbAllocPage n k p).lists.firstTb = Function.update σ.lists.firstTb p (some (n, k)) := by
    rw [State.tbAllocPage]
    split <;> rfl
  rw [hdesc]
  by_cases hqp : q = p
  · simp [State.pageFindAlloc, hqp]
  · rw [hfirst, Function.update_of_ne hqp] at hq
    simp [State.pageFindAlloc, h q hq]

theorem desc_tbLinkPhys (h : ∀ q, σ.lists.firstTb q ≠ none → σ.hasDesc q = true) (n : ℕ) (physPc physPage2 q : Addr t)
    (hq : (σ.tbLinkPhys n physPc physPage2).lists.firstTb q ≠ none) :
    (σ.tbLinkPhys n physPc physPage2).hasDesc q = true := by
  rw [State.tbLinkPhys] at hq ⊢
  by_cases htwo : physPage2 ≠ noPage
  · simp only [if_pos htwo] at hq ⊢
    refine desc_tbAllocPage (fun q hq => desc_tbAllocPage ?_ n 0 (page physPc) q hq) n 1 physPage2 q hq
    exact h
  · simp only [if_neg htwo] at hq ⊢
    refine desc_tbAllocPage ?_ n 0 (page physPc) q hq
    exact h

/-- The bitmaps of the pages of a new block are dropped. -/
theorem codeBitmap_tbLinkPhys {p : Addr t} {tab : ℕ → BitVec 8}
    (h : (σ.tbLinkPhys n physPc physPage2).codeBitmap p = some tab) :
    σ.codeBitmap p = some tab ∧ p ≠ page physPc ∧ (physPage2 ≠ noPage → p ≠ physPage2) := by
  have hother : ∀ {f : Addr t → Option (ℕ → BitVec 8)} {q : Addr t}, Function.update f q none p = some tab →
      f p = some tab ∧ p ≠ q := by
    intro f q hupdate
    have hne : p ≠ q := by
      rintro rfl
      rw [Function.update_self] at hupdate
      cases hupdate
    rw [Function.update_of_ne hne] at hupdate
    exact ⟨hupdate, hne⟩
  rw [State.tbLinkPhys] at h
  by_cases htwo : physPage2 ≠ noPage
  · simp only [if_pos htwo, State.mapLists, codeBitmap_tbAllocPage] at h
    obtain ⟨h, hne₂⟩ := hother h
    obtain ⟨h, hne₁⟩ := hother h
    exact ⟨h, hne₁, fun _ => hne₂⟩
  · simp only [if_neg htwo, State.mapLists, codeBitmap_tbAllocPage] at h
    obtain ⟨h, hne₁⟩ := hother h
    exact ⟨h, hne₁, fun h₂ => absurd h₂ htwo⟩

theorem Mapped.tbLinkPhys (h : Mapped σ) (hn : n < σ.lists.nbTbs) (hdead : σ.lists.live n = false)
    (hpc : page physPc + offset (σ.lists.tbs n).pc = physPc)
    (hone : physPage2 = noPage → (offset (σ.lists.tbs n).pc).toNat + (σ.lists.tbs n).size ≤ t.pageSize)
    (htwo : physPage2 ≠ noPage → page physPage2 = physPage2) : Mapped (σ.tbLinkPhys n physPc physPage2) := by
  obtain ⟨l, hl⟩ := h.lists
  have hlists := tbLinkPhys_lists σ n physPc physPage2
  have htbs := TbLists.tbLinkPhys_tbs σ.lists n physPc physPage2
  have hlive := (TbLists.tbLinkPhys_fields σ.lists n physPc physPage2).1
  have hold : ∀ m, m ≠ n → (σ.tbLinkPhys n physPc physPage2).lists.live m = true → σ.lists.live m = true := by
    intro m hm hmlive
    rwa [hlists, hlive, Function.update_of_ne hm] at hmlive
  have hsame : ∀ m, m ≠ n → (σ.tbLinkPhys n physPc physPage2).lists.tbs m = σ.lists.tbs m := by
    intro m hm
    rw [hlists, htbs, Function.update_of_ne hm]
  have hnew : (σ.tbLinkPhys n physPc physPage2).lists.tbs n =
      { σ.lists.tbs n with pageAddr0 := page physPc, pageAddr1 := physPage2 } := by
    rw [hlists, htbs, Function.update_self]
  refine ⟨hlists ▸ hl.tbLinkPhys hn hdead hpc, fun p tab htab a ha => ?_, desc_tbLinkPhys h.desc n physPc physPage2,
    fun m => ?_, fun m hm => ?_, fun m hm => ?_⟩
  · obtain ⟨htab, hne₁, hne₂⟩ := codeBitmap_tbLinkPhys htab
    obtain ⟨halive, haddr⟩ := pageKey_some ha
    by_cases ham : a.1 = n
    · -- the pages of the new block have no bitmap
      exfalso
      rw [ham, hnew] at haddr
      obtain ⟨m, k⟩ := a
      match k, haddr with
      | 0, haddr => exact hne₁ (Option.some.inj haddr).symm
      | 1, haddr =>
        simp only [TbLists.pageAddr] at haddr
        split at haddr
        · cases haddr
        · rename_i hpage2
          exact hne₂ hpage2 (Option.some.inj haddr).symm
    · rw [hsame a.1 ham] at haddr ⊢
      refine h.covers p tab htab a ?_
      rw [TbLists.State.pageKey, if_pos (hold a.1 ham halive)]
      exact haddr
  · by_cases hm : m = n
    · rw [hm, hnew]
      exact h.size n
    · rw [hsame m hm]
      exact h.size m
  · by_cases hmn : m = n
    · rw [hmn, hnew]
      exact hone
    · rw [hsame m hmn]
      exact h.second m (hold m hmn hm)
  · by_cases hmn : m = n
    · rw [hmn, hnew]
      exact htwo
    · rw [hsame m hmn]
      exact h.aligned m (hold m hmn hm)

end Link

/-! ### Runs -/

section Runs

variable [DecidableEq Cpu] [DecidableEq Mode]

/-- An operation, or a single call of a handler of pages that are not dirty. A store of 8 bytes
makes two such calls. -/
inductive Event (t : Target) (Cpu Mode : Type) where
  | op (op : Op t Cpu Mode)
  | notdirty (cpu : Cpu) (memIoVaddr ramAddr : Addr t) (len : ℕ)

def stepEvent (σ : State t Cpu Mode) : Event t Cpu Mode → Option (State t Cpu Mode)
  | .op op => step σ op
  | .notdirty cpu memIoVaddr ramAddr len => σ.notdirtyMemWrite cpu memIoVaddr ramAddr len

/-- How `tb_gen_code` and `cpu_exec` call the operations: blocks are smaller than a page, a new
block gets the page of its last byte as its second one when this is another page, and only
live blocks are chained and only dead ones given back. -/
def Called (σ : State t Cpu Mode) : Event t Cpu Mode → Prop
  | .op (.alloc _ _ size _) => size < t.pageSize
  | .op (.linkPhys n _ page2) => n < σ.lists.nbTbs ∧ σ.lists.live n = false ∧
      (page2 = none ↔ page (σ.lists.tbs n).pc = (σ.lists.tbs n).lastPage)
  | .op (.addJump n k next) => σ.lists.live n = true ∧ σ.lists.live next = true ∧ k < 2
  | .op (.free n) => σ.lists.live n = false
  | _ => True

omit [DecidableEq Mode] in
theorem Mapped.notdirtyMemWrite {cpu : Cpu} {vaddr a : Addr t} {len : ℕ} (h : Mapped σ)
    (hwrite : σ.notdirtyMemWrite cpu vaddr a len = some σ') : Mapped σ' := by
  obtain ⟨σ₁, h₁, rfl⟩ := Option.map_eq_some_iff.1 hwrite
  have hmapped : Mapped σ₁ := notdirtyInvalidate_keeps Mapped.range h h₁
  dsimp only
  split
  · exact hmapped.of_eq rfl rfl rfl
  · exact hmapped.of_eq rfl rfl rfl

omit [DecidableEq Cpu] [DecidableEq Mode] in
theorem Mapped.cpuPhysicalMemoryWrite {addr : Addr t} {len : ℕ} (h : Mapped σ)
    (hwrite : σ.cpuPhysicalMemoryWrite addr len = some σ') : Mapped σ' :=
  physWriteLoop_keeps Mapped.range (fun _ hσ => hσ.of_eq rfl rfl rfl) h hwrite

omit [DecidableEq Mode] in
theorem Mapped.st {cpu : Cpu} {mmuIdx : Mode} {addr : Addr t} {shift : ℕ} (h : Mapped σ)
    (hst : σ.st cpu mmuIdx addr shift = some σ') : Mapped σ' := by
  rw [State.st] at hst
  split at hst
  · exact ioWrite_keeps Mapped.notdirtyMemWrite h hst
  · exact ioWrite_keeps Mapped.cpuPhysicalMemoryWrite h hst
  · cases hst
    exact h

omit [DecidableEq Cpu] [DecidableEq Mode] in
theorem Mapped.alloc (h : Mapped σ) {size : ℕ} (hsize : size < t.pageSize) (maxBlocks : ℕ) (pc : Addr t)
    (bufferFull : Bool) : Mapped (σ.mapLists (·.tbAlloc maxBlocks pc size bufferFull)) := by
  obtain ⟨l, hl⟩ := h.lists
  have hl' := hl.tbAlloc maxBlocks pc size bufferFull
  by_cases hfull : maxBlocks ≤ σ.lists.nbTbs ∨ bufferFull
  · have hdef : σ.lists.tbAlloc maxBlocks pc size bufferFull = σ.lists := if_pos hfull
    refine h.mapLists ⟨l, hl'⟩ ?_ ?_ (fun n _ => ?_) fun n => ?_
    all_goals rw [hdef]
    exact h.size n
  · have hdef : σ.lists.tbAlloc maxBlocks pc size bufferFull = _ := if_neg hfull
    refine h.mapLists ⟨l, hl'⟩ ?_ ?_ (fun n hn => ?_) fun n => ?_
    · rw [hdef]
    · rw [hdef]
    · rw [hdef]
      exact Function.update_of_ne (hl.bound n hn).ne _ _
    · rw [hdef]
      show (Function.update σ.lists.tbs σ.lists.nbTbs _ n).size < t.pageSize
      by_cases hn : n = σ.lists.nbTbs
      · rw [hn, Function.update_self]
        exact hsize
      · rw [Function.update_of_ne hn]
        exact h.size n

omit [DecidableEq Cpu] [DecidableEq Mode] in
theorem Mapped.addJump (h : Mapped σ) {n k next : ℕ} (hn : σ.lists.live n = true) (hnext : σ.lists.live next = true)
    (hk : k < 2) : Mapped (σ.mapLists (·.tbAddJump n k next)) := by
  obtain ⟨l, hl⟩ := h.lists
  have hdef : σ.lists.tbAddJump n k next = σ.lists ∨ ∃ jmp target, σ.lists.tbAddJump n k next =
      { σ.lists with jmp := jmp, jmpTarget := target } := by
    rw [TbLists.State.tbAddJump]
    split
    · exact .inr ⟨_, _, rfl⟩
    · exact .inl rfl
  refine h.mapLists (hl.tbAddJump hn hnext hk) ?_ ?_ (fun m _ => ?_) fun m => ?_
  all_goals rcases hdef with hdef | ⟨jmp, target, hdef⟩ <;> rw [hdef]
  · exact h.size m
  · exact h.size m

omit [DecidableEq Cpu] [DecidableEq Mode] in
theorem Mapped.free (h : Mapped σ) {n : ℕ} (hn : σ.lists.live n = false) : Mapped (σ.mapLists (·.tbFree n)) := by
  obtain ⟨l, hl⟩ := h.lists
  have hdef : σ.lists.tbFree n = σ.lists ∨ ∃ nbTbs, σ.lists.tbFree n = { σ.lists with nbTbs := nbTbs } := by
    rw [TbLists.State.tbFree]
    split
    · exact .inr ⟨_, rfl⟩
    · exact .inl rfl
  refine h.mapLists ⟨l, hl.tbFree hn⟩ ?_ ?_ (fun m _ => ?_) fun m => ?_
  all_goals rcases hdef with hdef | ⟨nbTbs, hdef⟩ <;> rw [hdef]
  · exact h.size m
  · exact h.size m

omit [DecidableEq Cpu] [DecidableEq Mode] in
theorem two_mul_pageSize_le (t : Target) : 2 * t.pageSize ≤ 2 ^ t.longBits := by
  rw [Target.pageSize, ← pow_succ']
  exact Nat.pow_le_pow_right (by decide) t.lt_longBits

theorem lastPage_ne {tb : TranslationBlock t} (hsize : tb.size < t.pageSize)
    (hcross : t.pageSize < (offset tb.pc).toNat + tb.size) : page tb.pc ≠ tb.lastPage := by
  intro heq
  have hw := two_mul_pageSize_le t
  have hoff := offset_lt tb.pc
  have hlast := page_add_offset_self (tb.pc + BitVec.ofNat _ (tb.size - 1))
  rw [TranslationBlock.lastPage] at heq
  rw [← heq] at hlast
  -- the offset of the last byte would be after the end of the page
  have hsum : page tb.pc + offset (tb.pc + BitVec.ofNat _ (tb.size - 1)) =
      page tb.pc + (offset tb.pc + BitVec.ofNat _ (tb.size - 1)) := by
    rw [hlast, ← BitVec.add_assoc, page_add_offset_self]
  have hoffset := congrArg BitVec.toNat ((BitVec.add_right_inj _).1 hsum)
  rw [BitVec.toNat_add, BitVec.toNat_ofNat, Nat.add_mod_mod, Nat.mod_eq_of_lt (by omega)] at hoffset
  have hlt := offset_lt (tb.pc + BitVec.ofNat _ (tb.size - 1))
  omega

/-- Every operation that is called as it should be keeps the bitmaps. -/
theorem mapped_step (ev : Event t Cpu Mode) (h : Mapped σ) (hcalled : Called σ ev)
    (hstep : stepEvent σ ev = some σ') : Mapped σ' := by
  cases ev with
  | notdirty cpu memIoVaddr ramAddr len => exact h.notdirtyMemWrite hstep
  | op op =>
    cases op with
    | alloc maxBlocks pc size bufferFull =>
      cases hstep
      exact h.alloc hcalled maxBlocks pc bufferFull
    | linkPhys n page1 page2 =>
      cases hstep
      obtain ⟨hn, hdead, hpage2⟩ := hcalled
      refine h.tbLinkPhys hn hdead ?_ (fun hnone => ?_) fun hsome => ?_
      · rw [page_add_offset page1.aligned]
      · by_contra hcross
        refine lastPage_ne (h.size n) (Nat.lt_of_not_le hcross) (hpage2.1 ?_)
        cases page2 with
        | none => rfl
        | some p => exact absurd hnone (page_ne_noPage p.aligned)
      · cases page2 with
        | none => exact absurd rfl hsome
        | some p => exact p.aligned
    | addJump n k next =>
      cases hstep
      exact h.addJump hcalled.1 hcalled.2.1 hcalled.2.2
    | free n =>
      cases hstep
      exact h.free hcalled
    | flush =>
      cases hstep
      exact h.tbFlush
    | physInvalidate n => exact h.tbPhysInvalidate hstep
    | invalidateRange start stop isCpuWriteAccess => exact h.range hstep
    | resetDirty start stop dirtyFlags =>
      cases hstep
      exact h.of_eq rfl rfl rfl
    | updateDirty cpu =>
      cases hstep
      exact h.of_eq rfl rfl rfl
    | tlbFlush cpu =>
      cases hstep
      exact h.of_eq rfl rfl rfl
    | tlbFlushPage cpu addr =>
      cases hstep
      exact h.of_eq rfl rfl rfl
    | setPage cpu vaddr paddr prot mmuIdx watchpoints =>
      cases hstep
      exact h.of_eq rfl rfl rfl
    | physWrite addr len => exact h.cpuPhysicalMemoryWrite hstep
    | store cpu mmuIdx addr shift => exact h.st hstep

end Runs

/-! ### The fast path -/

section Fast

def byteAddr (tb : TranslationBlock t) (i : ℕ) : Addr t :=
  if (offset tb.pc).toNat + i < t.pageSize then tb.pageAddr0 + BitVec.ofNat _ ((offset tb.pc).toNat + i)
  else tb.pageAddr1 + BitVec.ofNat _ ((offset tb.pc).toNat + i - t.pageSize)

/-- `tb_invalidate_phys_page_fast` does not call `tb_invalidate_phys_page_range`. -/
def FastSkips (σ : State t Cpu Mode) (start : Addr t) (len : ℕ) : Prop :=
  σ.hasDesc (page start) = false ∨ ∃ tab, σ.codeBitmap (page start) = some tab ∧
    (tab ((offset start).toNat / 8)).toNat >>> ((offset start).toNat % 8) &&& (2 ^ len - 1) = 0

theorem fast_of_skips {start : Addr t} {len : ℕ} (h : FastSkips σ start len) :
    σ.tbInvalidatePhysPageFast start len = some σ := by
  rw [State.tbInvalidatePhysPageFast]
  rcases h with hdesc | ⟨tab, htab, hzero⟩
  · simp [hdesc]
  · simp [htab, hzero]

theorem fast_of_not_skips {start : Addr t} {len : ℕ} (h : ¬ FastSkips σ start len) :
    σ.tbInvalidatePhysPageFast start len = σ.tbInvalidatePhysPageRange start.toNat (start.toNat + len) true := by
  obtain ⟨hdesc, hbits⟩ := not_or.1 h
  rw [State.tbInvalidatePhysPageFast]
  dsimp only
  rw [if_pos (by simpa using hdesc)]
  cases htab : σ.codeBitmap (page start) with
  | none => rfl
  | some tab => exact if_pos fun hzero => hbits ⟨tab, htab, hzero⟩

theorem aligned_offset {start : Addr t} {len : ℕ} (hlen : len = 1 ∨ len = 2 ∨ len = 4 ∨ len = 8)
    (haligned : len ∣ start.toNat) :
    (offset start).toNat % 8 + len ≤ 8 ∧ (offset start).toNat + len ≤ t.pageSize := by
  have hS : 64 ∣ t.pageSize := Nat.pow_dvd_pow 2 t.six_le
  have hdvd : len ∣ t.pageSize := by
    rcases hlen with rfl | rfl | rfl | rfl <;> exact Nat.dvd_trans (by decide) hS
  have hoff : len ∣ (offset start).toNat := by
    rw [toNat_offset]
    exact (Nat.dvd_mod_iff hdvd).2 haligned
  have hlt := offset_lt start
  obtain ⟨a, ha⟩ := hoff
  obtain ⟨b, hb⟩ := hS
  rcases hlen with rfl | rfl | rfl | rfl <;> omega

theorem page_offset_add {p : Addr t} (hp : page p = p) {k : ℕ} (hk : k < t.pageSize) :
    page (p + BitVec.ofNat _ k) = p ∧ (offset (p + BitVec.ofNat _ k)).toNat = k := by
  have hzero : (offset p).toNat = 0 := by rw [← hp, offset_page, BitVec.toNat_zero]
  have hlt : (offset p).toNat + k < t.pageSize := by omega
  exact ⟨(page_add_lt hlt).trans hp, by rw [offset_add hlt, hzero, Nat.zero_add]⟩

/-- A byte of a live block is at an offset that a bitmap of its page covers. -/
theorem Mapped.byteAddr_covered (h : Mapped σ) {n i : ℕ} (hn : σ.lists.live n = true) (hi : i < (σ.lists.tbs n).size) :
    σ.lists.firstTb (page (byteAddr (σ.lists.tbs n) i)) ≠ none ∧
      ∀ tab, σ.codeBitmap (page (byteAddr (σ.lists.tbs n) i)) = some tab →
        bit tab (offset (byteAddr (σ.lists.tbs n) i)).toNat = true := by
  obtain ⟨l, hl⟩ := h.lists
  have hfirst : ∀ a p, σ.lists.pageKey a = some p → σ.lists.firstTb p ≠ none := by
    intro a p ha hnone
    have hmem := (hl.pages.mem p a).2 ha
    have hseg := hl.pages.seg p
    rw [hnone] at hseg
    cases hpages : l.pages p with
    | nil =>
      rw [hpages] at hmem
      exact absurd hmem List.not_mem_nil
    | cons b bs =>
      rw [hpages] at hseg
      exact absurd hseg.1 (by simp)
  have hsize := h.size n
  have hoff := offset_lt (σ.lists.tbs n).pc
  rw [byteAddr]
  split
  · rename_i hin
    obtain ⟨hpage, hoffset⟩ := page_offset_add (hl.aligned n hn) hin
    have hkey : σ.lists.pageKey (n, 0) = some (σ.lists.tbs n).pageAddr0 := by
      rw [TbLists.State.pageKey, if_pos hn]
      rfl
    rw [hpage, hoffset]
    refine ⟨hfirst _ _ hkey, fun tab htab => h.covers _ tab htab (n, 0) hkey _ ?_ ?_⟩
    · exact Nat.le_add_right _ _
    · show _ < min ((offset (σ.lists.tbs n).pc).toNat + (σ.lists.tbs n).size) t.pageSize
      omega
  · rename_i hout
    have hcross : t.pageSize < (offset (σ.lists.tbs n).pc).toNat + (σ.lists.tbs n).size := by omega
    have htwo : (σ.lists.tbs n).pageAddr1 ≠ noPage := fun hnone => absurd (h.second n hn hnone) (by omega)
    obtain ⟨hpage, hoffset⟩ := page_offset_add (h.aligned n hn htwo)
      (k := (offset (σ.lists.tbs n).pc).toNat + i - t.pageSize) (by omega)
    have hkey : σ.lists.pageKey (n, 1) = some (σ.lists.tbs n).pageAddr1 := by
      rw [TbLists.State.pageKey, if_pos hn]
      exact if_neg htwo
    have hend : (offset ((σ.lists.tbs n).pc + BitVec.ofNat _ (σ.lists.tbs n).size)).toNat =
        (offset (σ.lists.tbs n).pc).toNat + (σ.lists.tbs n).size - t.pageSize := by
      rw [toNat_offset, BitVec.toNat_add, Nat.mod_mod_of_dvd _ (pageSize_dvd t), BitVec.toNat_ofNat, Nat.add_mod,
        Nat.mod_mod_of_dvd _ (pageSize_dvd t), ← toNat_offset, Nat.mod_eq_of_lt hsize, Nat.mod_eq_sub_mod hcross.le,
        Nat.mod_eq_of_lt (by omega)]
    rw [hpage, hoffset]
    refine ⟨hfirst _ _ hkey, fun tab htab => h.covers _ tab htab (n, 1) hkey _ (Nat.zero_le _) ?_⟩
    show _ < (offset ((σ.lists.tbs n).pc + BitVec.ofNat _ (σ.lists.tbs n).size)).toNat
    omega

theorem Mapped.skips (h : Mapped σ) {start : Addr t} {len : ℕ} (hlen : len = 1 ∨ len = 2 ∨ len = 4 ∨ len = 8)
    (haligned : len ∣ start.toNat) (hskips : FastSkips σ start len) {n : ℕ} (hn : σ.lists.live n = true) {i j : ℕ}
    (hi : i < (σ.lists.tbs n).size) (hj : j < len) : byteAddr (σ.lists.tbs n) i ≠ start + BitVec.ofNat _ j := by
  intro heq
  obtain ⟨hbyte, hpage⟩ := aligned_offset hlen haligned
  obtain ⟨hfirst, hcovered⟩ := h.byteAddr_covered hn hi
  rw [heq, page_add_lt (by omega)] at hfirst hcovered
  rw [offset_add (by omega)] at hcovered
  rcases hskips with hdesc | ⟨tab, htab, hzero⟩
  · exact absurd (h.desc _ hfirst) (by simp [hdesc])
  · exact absurd (hcovered tab htab) (by simp [bit_of_shiftRight hbyte hzero hj])

/-- The bitmaps agree with the lists: in every state of a run whose operations are called as
they should be, an aligned write of 1, 2, 4 or 8 bytes calls `tb_invalidate_phys_page_range`, or
no byte of a live block is written. -/
theorem fast_skips_no_code [DecidableEq Cpu] [DecidableEq Mode] (physOffset : Addr t → PhysOffset t)
    (evs : List (Event t Cpu Mode)) (hcalled : MeetsM stepEvent Called (State.init physOffset) evs) (m : ℕ)
    (σ : State t Cpu Mode) (hrun : (evs.take m).foldlM stepEvent (State.init physOffset) = some σ) (start : Addr t)
    (len : ℕ) (hlen : len = 1 ∨ len = 2 ∨ len = 4 ∨ len = 8) (haligned : len ∣ start.toNat) :
    (¬ FastSkips σ start len → σ.tbInvalidatePhysPageFast start len =
      σ.tbInvalidatePhysPageRange start.toNat (start.toNat + len) true) ∧
    (FastSkips σ start len → σ.tbInvalidatePhysPageFast start len = some σ ∧
      ∀ n, σ.lists.live n = true → ∀ i < (σ.lists.tbs n).size, ∀ j < len,
        byteAddr (σ.lists.tbs n) i ≠ start + BitVec.ofNat _ j) := by
  have hmapped : Mapped σ := foldlM_take_invariant (P := Mapped)
    (fun _ ev _ h hev hstep => mapped_step ev h hev hstep) evs _ (mapped_init physOffset) hcalled m σ hrun
  refine ⟨fast_of_not_skips, fun hskips => ⟨fast_of_skips hskips, fun n hn i hi j hj => ?_⟩⟩
  exact hmapped.skips hlen haligned hskips hn hi hj

/-- A block of 8 bytes that leaves RAM page `0x1000` for RAM page `0x5000`, and eleven writes to
its first page that miss it: the tenth one builds a bitmap. -/
def crossing : List (Event target32 Unit (Fin 3)) :=
  [.op (.alloc 8 0x1ffc 8 false), .op (.linkPhys 0 page1 (some page5))] ++
    List.replicate 11 (.op (.invalidateRange 0x1000 0x1004 true))

/-- The next such write finds the bitmap and skips the call, and one to the second page of the
block does not. -/
theorem fast_skips_no_code_crossing : ∃ σ, crossing.foldlM stepEvent (State.init identity) = some σ ∧
    σ.lists.live 0 = true ∧ FastSkips σ 0x1000 4 ∧
    (∀ i < (σ.lists.tbs 0).size, ∀ j < 4, byteAddr (σ.lists.tbs 0) i ≠ 0x1000 + BitVec.ofNat _ j) ∧
    ¬ FastSkips σ 0x5000 4 := by
  have hskips : ∃ σ, crossing.foldlM stepEvent (State.init identity) = some σ ∧ σ.lists.live 0 = true ∧
      FastSkips σ 0x1000 4 ∧ ¬ FastSkips σ 0x5000 4 := by
    refine ⟨_, rfl, rfl, .inr ⟨_, rfl, by decide⟩, ?_⟩
    rintro (hdesc | ⟨tab, htab, -⟩)
    · cases hdesc
    · cases htab
  have hcalled : MeetsM stepEvent Called (State.init identity) crossing := by
    refine ⟨show 8 < 2 ^ 12 by decide, fun σ₁ h₁ => ⟨?_, fun σ₂ h₂ => meetsM_of_forall (fun a ha _ => ?_) _⟩⟩
    · cases h₁
      exact ⟨by decide, rfl, by decide⟩
    · rw [List.eq_of_mem_replicate ha]
      trivial
  obtain ⟨σ, hrun, hlive, hskips, hcall⟩ := hskips
  refine ⟨σ, hrun, hlive, hskips, ?_, hcall⟩
  exact ((fast_skips_no_code identity crossing hcalled 13 σ hrun 0x1000 4 (by decide) (by decide)).2 hskips).2 0 hlive

end Fast

end Ar7Qemu.Exec.CodeProtect
