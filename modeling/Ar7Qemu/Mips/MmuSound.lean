import Ar7Qemu.Mips.Interrupts
import Ar7Qemu.Mips.SoftTlb
import Mathlib.Order.Basic

/-! Coherence of the soft TLB: what is cached agrees with the translation by the guest TLB
and its shadow entries, and after a write to the TLB only the new entry is used. -/

namespace Ar7Qemu.Mips

open Lib

/-! ### Coherence -/

/-- Kernel mode, as `get_physical_address` tells it. -/
def Kernel (m : Word) : Prop := m ≠ 1 ∧ m ≠ 2

namespace MmuState

variable (σ : MmuState)

/-- An entry that gives the translation of an address: the first of the TLB that matches, or
a shadow entry that has not been superseded. -/
def Gives (j : ℕ) (address : Word) : Prop :=
  (σ.tlb j).isMatch σ.asid address = true ∧
    ((j < σ.nbTlb ∧ ∀ i < j, (σ.tlb i).isMatch σ.asid address = false) ∨
      (σ.nbTlb ≤ j ∧ j < σ.tlbInUse ∧ σ.superseded j = false))

/-- An entry that matches, shadow entries included. -/
def InUse (j : ℕ) (address : Word) : Prop := (σ.tlb j).isMatch σ.asid address = true ∧ j < σ.tlbInUse

/-- The translation of page `v` to page `p` by one of the entries `src`. -/
def ByTlb (src : ℕ → Word → Prop) (v p : Word) (write : Bool) : Prop :=
  ∃ j, src j v ∧ (σ.tlb j).valid v = true ∧ page ((σ.tlb j).physical v) = p ∧
    (write = true → (σ.tlb j).dirty v = true)

/-- The translation of page `v` in mode `m`, by Status and by the entries `src`. -/
def Translates (src : ℕ → Word → Prop) (m v p : Word) (write : Bool) : Prop :=
  match segment v with
  | .useg => if σ.erl then p = v else σ.ByTlb src v p write
  | .kseg0 => Kernel m ∧ p = v - 0x80000000
  | .kseg1 => Kernel m ∧ p = v - 0xa0000000
  | .sseg => m ≠ 2 ∧ σ.ByTlb src v p write
  | .kseg3 => Kernel m ∧ σ.ByTlb src v p write

/-- Every valid entry of the soft TLB has the page of the translation and no more rights. -/
def Cached (src : ℕ → Word → Prop) : Prop :=
  ∀ m k v, Hit σ.tlbTable m k v → σ.Translates src m v (σ.tlbTable m (tlbIndex v)).phys (k = .write)

/-- The soft TLB agrees with the guest TLB. -/
def Coherent : Prop := σ.Cached σ.Gives

/-- The page is translated by the TLB. -/
def Mapped (v : Word) : Prop :=
  match segment v with
  | .useg => σ.erl = false
  | .kseg0 => False
  | .kseg1 => False
  | .sseg => True
  | .kseg3 => True

/-- After a write to the TLB, every access to a page of the new entry uses it: the search
finds it, and what hits in the soft TLB comes from it. -/
def Fresh : Prop :=
  ∀ i, σ.lastWrite = some i → ∀ address, (σ.tlb i).isMatch σ.asid address = true →
    (List.range σ.tlbInUse).find? (fun j => (σ.tlb j).isMatch σ.asid address) = some i ∧
    ∀ m k, σ.Mapped address → Hit σ.tlbTable m k (page address) →
      (σ.tlb i).valid address = true ∧
      (σ.tlbTable m (tlbIndex (page address))).phys = page ((σ.tlb i).physical address) ∧
      (k = .write → (σ.tlb i).dirty address = true)

/-- An operation that changes `CP0St_ERL`. -/
def ChangesErl : MmuOp → Prop
  | .mtc0Status arg1 => σ.cpu.cp0StatusRwBitmask.getLsbD stERL = true ∧ arg1.getLsbD stERL ≠ σ.erl
  | .exception e => (e = .sreset ∨ e = .nmi) ∧ σ.erl = false
  | .eret => σ.erl = true
  | _ => False

/-- Entry `idx` is kept as a shadow entry when `tlbwr` replaces it. -/
def Kept (idx : ℕ) : Prop := ((σ.tlb idx).g = true ∨ (σ.tlb idx).asid = σ.asid) ∧ σ.tlbInUse < mipsTlbMax

/-- The cases that go right: a TLB write has a page mask that the architecture knows and its
page is in no other entry that stays, and `CP0St_ERL` changes while no page of the user
segment is cached. -/
def Ok (op : MmuOp) : Prop :=
  (match op with
    | .tlbwi => σ.newEntry.Regular ∧ ∀ j < σ.nbTlb, j ≠ σ.indexed → ¬ (σ.tlb j).Overlaps σ.newEntry
    | .tlbwr lfsr => σ.newEntry.Regular ∧ ∀ j < σ.tlbInUse,
        j ≠ σ.cpuMipsGetRandom lfsr ∨ σ.Kept (σ.cpuMipsGetRandom lfsr) → ¬ (σ.tlb j).Overlaps σ.newEntry
    | _ => True) ∧
  (σ.ChangesErl op → ∀ m k v, segment v = .useg → ¬ Hit σ.tlbTable m k v)

end MmuState

/-! ### MMU modes -/

section Modes

variable {env : CPUState}

/-- Debug mode is kernel mode. -/
def ModeOk (env : CPUState) : Prop := env.debugMode = true → env.hflags &&& hflagKSU = 0

theorem modeOk_of_hflags {h : Word} (hh : env.hflags = h &&& ~~~hflagKSU) : ModeOk env := by
  intro _
  rw [hh, BitVec.and_assoc]
  have hzero : ~~~hflagKSU &&& hflagKSU = 0 := by decide
  rw [hzero]
  exact BitVec.and_zero

theorem and_hflagKSU_eq_zero {h : Word} (h0 : h.getLsbD 0 = false) (h1 : h.getLsbD 1 = false) : h &&& hflagKSU = 0 := by
  apply BitVec.eq_of_getLsbD_eq
  intro i hi
  rw [BitVec.getLsbD_and]
  match i with
  | 0 =>
    rw [h0, Bool.false_and]
    rfl
  | 1 =>
    rw [h1, Bool.false_and]
    rfl
  | i + 2 =>
    have hbit : hflagKSU.getLsbD (i + 2) = false := by
      have : ∀ j < 32, 2 ≤ j → hflagKSU.getLsbD j = false := by decide
      exact this (i + 2) hi (by omega)
    rw [hbit, Bool.and_false, BitVec.ofNat_eq_ofNat, BitVec.getLsbD_zero]

/-- `compute_hflags` leaves kernel mode outside debug mode only. -/
theorem modeOk_computeHflags (env : CPUState) : ModeOk (computeHflags env) := by
  intro hdebug
  rw [debugMode_computeHflags] at hdebug
  have hbit : ∀ i < 2, (computeHflags env).hflags.getLsbD i = false := by
    intro i hi
    unfold computeHflags
    extract_lets h0 h1 h2 h3 h4 h5
    have hmasks : hflagCP0.getLsbD i = false ∧ hflagFPU.getLsbD i = false ∧ hflagF64.getLsbD i = false ∧
        hflagCOP1X.getLsbD i = false := by
      revert i
      decide
    have e0 : h0.getLsbD i = false := by
      have hmask : (~~~(hflagCOP1X ||| hflag64 ||| hflagCP0 ||| hflagF64 ||| hflagFPU ||| hflagKSU |||
          hflagUX)).getLsbD i = false := by
        revert i
        decide
      rw [BitVec.getLsbD_and, hmask, Bool.and_false]
    have e1 : h1 = h0 := by
      have hdm : h0.getLsbD 2 = true := by
        rw [BitVec.getLsbD_and, show (~~~(_ : Word)).getLsbD 2 = true from rfl, Bool.and_true]
        exact hdebug
      have hne : ¬ h0 &&& hflagDM = 0 := by
        rw [and_hflagDM_eq_zero, hdm]
        decide
      refine if_neg ?_
      rw [decide_eq_false hne, Bool.and_false]
      decide
    have e2 : h2.getLsbD i = h1.getLsbD i := getLsbD_ite_or _ _ _ hmasks.1
    have e3 : h3.getLsbD i = h2.getLsbD i := getLsbD_ite_or _ _ _ hmasks.2.1
    have e4 : h4.getLsbD i = h3.getLsbD i := getLsbD_ite_or _ _ _ hmasks.2.2.1
    have e5 : h5.getLsbD i = h4.getLsbD i := by
      unfold h5
      split
      · exact getLsbD_ite_or _ _ _ hmasks.2.2.2
      · split
        · exact getLsbD_ite_or _ _ _ hmasks.2.2.2
        · split
          · exact getLsbD_ite_or _ _ _ hmasks.2.2.2
          · rfl
    show h5.getLsbD i = false
    rw [e5, e4, e3, e2, e1, e0]
  exact and_hflagKSU_eq_zero (hbit 0 (by decide)) (hbit 1 (by decide))

theorem modeOk_cpuMipsUpdateIrq (h : ModeOk env) : ModeOk (cpuMipsUpdateIrq env) := by
  rw [cpuMipsUpdateIrq]
  split
  · split
    · exact h
    · exact h
  · exact h

theorem modeOk_helperMtc0Status (arg1 : Word) (env : CPUState) : ModeOk (helperMtc0Status arg1 env) :=
  modeOk_cpuMipsUpdateIrq (modeOk_computeHflags _)

theorem modeOk_helperEret (env : CPUState) : ModeOk (helperEret env) := modeOk_computeHflags _

theorem modeOk_setEPC (h : ModeOk env) (cause offset : Word) : ModeOk (setEPC cause offset env) := by
  intro hdebug
  unfold setEPC at hdebug ⊢
  extract_lets entered
  have hentered : ModeOk entered := by
    unfold entered
    split
    · exact h
    · exact modeOk_of_hflags rfl
  have hbit : (entered.hflags &&& ~~~hflagBMask).getLsbD 2 = true := hdebug
  rw [BitVec.getLsbD_and, Bool.and_eq_true] at hbit
  show entered.hflags &&& ~~~hflagBMask &&& hflagKSU = 0
  rw [BitVec.and_assoc, BitVec.and_comm (~~~hflagBMask), ← BitVec.and_assoc, hentered hbit.1]
  exact BitVec.zero_and

theorem modeOk_cpuReset (env : CPUState) : ModeOk (cpuReset env) := by
  refine modeOk_of_hflags (h := hflagCP0) ?_
  show hflagCP0 = hflagCP0 &&& ~~~hflagKSU
  decide

theorem modeOk_doInterrupt (h : ModeOk env) (e : Excp) : ModeOk (doInterrupt e env) := by
  rw [doInterrupt]
  generalize (if e = .extInterrupt ∧ env.hflags &&& hflagDM ≠ 0 then Excp.dint else e) = e'
  cases e'
  case dss | dint | dib | dbp | ddbs | ddbl | sreset | nmi => exact modeOk_of_hflags rfl
  case reset => exact modeOk_cpuReset env
  case cpu =>
    refine modeOk_setEPC ?_ _ _
    exact h
  all_goals exact modeOk_setEPC h _ _

/-- Only resets and NMIs set `CP0St_ERL`. -/
theorem erl_doInterrupt {e : Excp} (hreset : e ≠ .reset) (he : ¬ (e = .sreset ∨ e = .nmi)) (env : CPUState) :
    (doInterrupt e env).cp0Status.getLsbD stERL = env.cp0Status.getLsbD stERL := by
  have hset : ∀ (env : CPUState) (cause offset : Word),
      (setEPC cause offset env).cp0Status.getLsbD stERL = env.cp0Status.getLsbD stERL := by
    intro env cause offset
    unfold setEPC
    extract_lets entered
    show entered.cp0Status.getLsbD stERL = _
    unfold entered
    split
    · rfl
    · rw [BitVec.getLsbD_or, show (bit stEXL).getLsbD stERL = false by decide, Bool.or_false]
  have hkind : ∀ e' : Excp, e' = (if e = .extInterrupt ∧ env.hflags &&& hflagDM ≠ 0 then Excp.dint else e) →
      e' ≠ .reset ∧ ¬ (e' = .sreset ∨ e' = .nmi) := by
    rintro e' rfl
    split
    · decide
    · exact ⟨hreset, he⟩
  rw [doInterrupt]
  generalize hgen : (if e = .extInterrupt ∧ env.hflags &&& hflagDM ≠ 0 then Excp.dint else e) = e'
  obtain ⟨hreset', he'⟩ := hkind e' hgen.symm
  cases e'
  case dss | dint | dib | dbp | ddbs | ddbl => rfl
  case reset => exact absurd rfl hreset'
  case sreset => exact absurd (.inl rfl) he'
  case nmi => exact absurd (.inr rfl) he'
  all_goals exact hset _ _ _

/-- The mode of the translation is that of the soft TLB. -/
theorem mode_eq (h : ModeOk env) {m : Word} (hm : m = 1 ∨ m = 2) :
    env.hflags &&& (hflagDM ||| hflagKSU) = m ↔ env.hflags &&& hflagKSU = m := by
  by_cases hdebug : env.debugMode = true
  · have hzero := h hdebug
    have hbit : (env.hflags &&& (hflagDM ||| hflagKSU)).getLsbD 2 = true := by
      rw [BitVec.getLsbD_and, show (hflagDM ||| hflagKSU).getLsbD 2 = true from rfl, Bool.and_true]
      exact hdebug
    rw [hzero]
    constructor
    · intro heq
      rw [heq] at hbit
      rcases hm with rfl | rfl <;> exact absurd hbit (by decide)
    · intro heq
      rcases hm with rfl | rfl <;> exact absurd heq (by decide)
  · have hdm : env.hflags &&& hflagDM = 0 := (and_hflagDM_eq_zero _).2 (by simpa [CPUState.debugMode] using hdebug)
    rw [BitVec.and_or_distrib_left, hdm, BitVec.ofNat_eq_ofNat, BitVec.zero_or]

end Modes

/-! ### The invariant -/

/-- What holds in every state, and between the two halves of a TLB write except for entry
`off`, which is about to be written. -/
structure Inv (σ : MmuState) (off : Option ℕ) : Prop where
  pos : 0 < σ.nbTlb
  le : σ.nbTlb ≤ σ.tlbInUse
  wired : σ.cp0Wired < σ.nbTlb
  vpn : ∀ j < σ.tlbInUse, (σ.tlb j).vpn &&& 0xff = 0
  regular : ∀ j < σ.tlbInUse, some j ≠ off → (σ.tlb j).Regular
  shadow : ∀ j, σ.nbTlb ≤ j → j < σ.tlbInUse →
    ((σ.tlb j).g = true ∨ (σ.tlb j).asid = σ.asid) ∧ σ.superseded j = false
  /-- The entries of a new TLB overlap, but they are not valid. -/
  unique : ∀ i j, i < σ.tlbInUse → j < σ.tlbInUse → i ≠ j → some i ≠ off → some j ≠ off →
    (σ.tlb i).Overlaps (σ.tlb j) → (σ.tlb i).v0 = false ∧ (σ.tlb i).v1 = false
  cached : σ.Cached fun j address => σ.InUse j address ∧ some j ≠ off
  mode : ModeOk σ.cpu

section Invariant

variable {σ σ' : MmuState} {off : Option ℕ} {src src' : ℕ → Word → Prop} {m v p : Word} {w w' : Bool}

theorem MmuState.Translates.imp (h : σ.Translates src m v p w) (herl : segment v = .useg → σ'.erl = σ.erl)
    (hby : σ.ByTlb src v p w → σ'.ByTlb src' v p w') : σ'.Translates src' m v p w' := by
  rw [MmuState.Translates] at h ⊢
  cases hseg : segment v with
  | useg =>
    simp only [hseg] at h
    show if σ'.erl = true then p = v else σ'.ByTlb src' v p w'
    rw [herl hseg]
    split at h
    · rename_i he
      rwa [if_pos he]
    · rename_i he
      rw [if_neg he]
      exact hby h
  | kseg0 => simpa only [hseg] using h
  | kseg1 => simpa only [hseg] using h
  | sseg =>
    simp only [hseg] at h
    exact ⟨h.1, hby h.2⟩
  | kseg3 =>
    simp only [hseg] at h
    exact ⟨h.1, hby h.2⟩

theorem MmuState.Translates.byTlb (h : σ.Translates src m v p w) (hmapped : σ.Mapped v) : σ.ByTlb src v p w := by
  rw [MmuState.Translates] at h
  rw [MmuState.Mapped] at hmapped
  cases hseg : segment v with
  | useg =>
    simp only [hseg] at h hmapped
    rwa [if_neg (by simp [hmapped])] at h
  | kseg0 => simp only [hseg] at hmapped
  | kseg1 => simp only [hseg] at hmapped
  | sseg =>
    simp only [hseg] at h
    exact h.2
  | kseg3 =>
    simp only [hseg] at h
    exact h.2

theorem MmuState.mapped_page (h : σ.Mapped v) : σ.Mapped (page v) := by
  rw [MmuState.Mapped, segment_page]
  exact h

theorem MmuState.Cached.thins (h : σ.Cached src) (hthins : Thins σ.tlbTable σ'.tlbTable)
    (herl : ∀ m k v, Hit σ'.tlbTable m k v → segment v = .useg → σ'.erl = σ.erl)
    (hby : ∀ m k v p w, Hit σ'.tlbTable m k v → σ.ByTlb src v p w → σ'.ByTlb src' v p w) : σ'.Cached src' := by
  intro m k v hhit
  obtain ⟨hbefore, hentry⟩ := hthins.hit hhit
  rw [hentry]
  exact (h m k v hbefore).imp (herl m k v hhit) (hby m k v _ _ hhit)

/-- Registers change that no translation depends on, or `CP0St_ERL` while no page of the user
segment is cached. -/
theorem Inv.congr (h : Inv σ off) (hnb : σ'.nbTlb = σ.nbTlb) (huse : σ'.tlbInUse = σ.tlbInUse)
    (hwired : σ'.cp0Wired < σ.nbTlb) (htlb : σ'.tlb = σ.tlb) (htable : σ'.tlbTable = σ.tlbTable)
    (hsup : σ'.superseded = σ.superseded) (hasid : σ'.asid = σ.asid) (hmode : ModeOk σ'.cpu)
    (herl : σ'.erl = σ.erl ∨ ∀ m k v, segment v = .useg → ¬ Hit σ.tlbTable m k v) : Inv σ' off where
  pos := hnb ▸ h.pos
  le := by
    rw [hnb, huse]
    exact h.le
  wired := by rwa [hnb]
  vpn := by
    rw [huse, htlb]
    exact h.vpn
  regular := by
    rw [huse, htlb]
    exact h.regular
  shadow := by
    rw [hnb, huse, htlb, hasid, hsup]
    exact h.shadow
  unique := by
    rw [huse, htlb]
    exact h.unique
  cached := by
    refine h.cached.thins (by rw [htable]; exact .refl _) (fun m k v hhit hseg => ?_) fun m k v p w hhit hby => ?_
    · rcases herl with herl | hnone
      · exact herl
      · rw [htable] at hhit
        exact absurd hhit (hnone m k v hseg)
    · obtain ⟨j, ⟨⟨hmatch, hj⟩, hoff⟩, hrest⟩ := hby
      refine ⟨j, ⟨⟨?_, ?_⟩, hoff⟩, ?_⟩
      · rw [htlb, hasid]
        exact hmatch
      · rwa [huse]
      · rw [htlb]
        exact hrest
  mode := hmode

/-- The soft TLB is flushed and the shadow entries are dropped. -/
theorem Inv.flush (h : Inv σ none) (hnb : σ'.nbTlb = σ.nbTlb) (huse : σ'.tlbInUse = σ.nbTlb)
    (hwired : σ'.cp0Wired < σ.nbTlb) (htlb : σ'.tlb = σ.tlb) (hnone : ∀ m k v, ¬ Hit σ'.tlbTable m k v)
    (hmode : ModeOk σ'.cpu) : Inv σ' none where
  pos := hnb ▸ h.pos
  le := by rw [hnb, huse]
  wired := by rwa [hnb]
  vpn := by
    rw [huse, htlb]
    exact fun j hj => h.vpn j (Nat.lt_of_lt_of_le hj h.le)
  regular := by
    rw [huse, htlb]
    exact fun j hj => h.regular j (Nat.lt_of_lt_of_le hj h.le)
  shadow := by
    rw [hnb, huse]
    exact fun j hle hlt => absurd hlt (Nat.not_lt.2 hle)
  unique := by
    rw [huse, htlb]
    exact fun i j hi hj => h.unique i j (Nat.lt_of_lt_of_le hi h.le) (Nat.lt_of_lt_of_le hj h.le)
  cached := fun m k v hhit => absurd hhit (hnone m k v)
  mode := hmode

/-- An entry that does not match the ASID has nothing cached. -/
theorem Inv.skip {idx : ℕ} (h : Inv σ none) (hskip : (σ.tlb idx).g = false ∧ (σ.tlb idx).asid ≠ σ.asid) :
    Inv σ (some idx) where
  pos := h.pos
  le := h.le
  wired := h.wired
  vpn := h.vpn
  regular j hj _ := h.regular j hj (by simp)
  shadow := h.shadow
  unique i j hi hj hne _ _ := h.unique i j hi hj hne (by simp) (by simp)
  cached := by
    refine h.cached.thins (.refl _) (fun _ _ _ _ _ => rfl) fun m k v p w _ hby => ?_
    obtain ⟨j, ⟨huse, -⟩, hrest⟩ := hby
    refine ⟨j, ⟨huse, fun heq => ?_⟩, hrest⟩
    have hmatch := huse.1
    rw [Option.some.inj heq, R4kTlb.isMatch, hskip.1, beq_eq_false_iff_ne.2 hskip.2] at hmatch
    exact absurd hmatch (by simp)
  mode := h.mode

theorem Inv.flushPages {idx : ℕ} (h : Inv σ none) (hidx : idx < σ.tlbInUse) :
    Inv { σ with tlbTable := flushPages (σ.tlb idx) σ.tlbTable } (some idx) where
  pos := h.pos
  le := h.le
  wired := h.wired
  vpn := h.vpn
  regular j hj _ := h.regular j hj (by simp)
  shadow := h.shadow
  unique i j hi hj hne _ _ := h.unique i j hi hj hne (by simp) (by simp)
  cached := by
    refine h.cached.thins (thins_flushPages _ _) (fun _ _ _ _ _ => rfl) fun m k v p w hhit hby => ?_
    obtain ⟨j, ⟨huse, -⟩, hvalid, hrest⟩ := hby
    refine ⟨j, ⟨huse, fun heq => ?_⟩, hvalid, hrest⟩
    obtain rfl := Option.some.inj heq
    exact not_hit_flushPages (h.regular j hidx (by simp)) hhit.1 huse.1 hvalid hhit
  mode := h.mode

theorem Inv.invalidate {idx : ℕ} (h : Inv σ none) (hidx : idx < σ.tlbInUse) :
    Inv (σ.r4kInvalidateTlb idx false) (some idx) := by
  rw [MmuState.r4kInvalidateTlb]
  split
  · rename_i hskip
    exact h.skip hskip
  · rw [if_neg (by simp)]
    exact h.flushPages hidx

theorem Inv.drop {n : ℕ} (h : Inv σ (some n)) (huse : σ.tlbInUse = n + 1) (hn : σ.nbTlb ≤ n) :
    Inv { σ with tlbInUse := n } none := by
  have hlt : ∀ {j}, j < n → j < σ.tlbInUse := fun hj => by omega
  have hne : ∀ {j}, j < n → some j ≠ some n := fun hj => by simpa using Nat.ne_of_lt hj
  refine ⟨h.pos, hn, h.wired, fun j hj => h.vpn j (hlt hj), fun j hj _ => h.regular j (hlt hj) (hne hj), fun j hle hj => h.shadow j hle (hlt hj),
    fun i j hi hj hij _ _ => h.unique i j (hlt hi) (hlt hj) hij (hne hi) (hne hj), ?_, h.mode⟩
  refine h.cached.thins (.refl _) (fun _ _ _ _ _ => rfl) fun m k v p w _ hby => ?_
  obtain ⟨j, ⟨⟨hmatch, hj⟩, hoff⟩, hrest⟩ := hby
  have hjn : j ≠ n := fun heq => hoff (congrArg some heq)
  exact ⟨j, ⟨⟨hmatch, by show j < n; omega⟩, by simp⟩, hrest⟩

theorem r4kInvalidateTlb_tlbInUse (σ : MmuState) (idx n : ℕ) :
    { σ with tlbInUse := n }.r4kInvalidateTlb idx false = { σ.r4kInvalidateTlb idx false with tlbInUse := n } := by
  simp only [MmuState.r4kInvalidateTlb, MmuState.asid, Bool.false_eq_true, false_and, if_false]
  split <;> rfl

theorem r4kInvalidateTlb_eq (σ : MmuState) (idx : ℕ) :
    ∃ table, σ.r4kInvalidateTlb idx false = { σ with tlbTable := table } := by
  rw [MmuState.r4kInvalidateTlb]
  split
  · exact ⟨σ.tlbTable, rfl⟩
  · rw [if_neg (by simp)]
    exact ⟨_, rfl⟩

theorem flushExtra_eq : ∀ (n : ℕ) (σ : MmuState),
    ∃ table, MmuState.flushExtra n σ = { σ with tlbInUse := σ.tlbInUse - n, tlbTable := table }
  | 0, σ => ⟨σ.tlbTable, rfl⟩
  | n + 1, σ => by
    obtain ⟨table, htable⟩ := r4kInvalidateTlb_eq { σ with tlbInUse := σ.tlbInUse - 1 } (σ.tlbInUse - 1)
    obtain ⟨table', htable'⟩ := flushExtra_eq n { σ with tlbInUse := σ.tlbInUse - 1, tlbTable := table }
    refine ⟨table', ?_⟩
    rw [MmuState.flushExtra, htable, htable']
    show ({ σ with tlbInUse := σ.tlbInUse - 1 - n, tlbTable := table' } : MmuState) = _
    rw [Nat.sub_sub, Nat.add_comm 1 n]

theorem Inv.flushExtra : ∀ {n : ℕ} {σ : MmuState}, Inv σ none → n ≤ σ.tlbInUse - σ.nbTlb →
    Inv (MmuState.flushExtra n σ) none
  | 0, _, h, _ => h
  | n + 1, σ, h, hn => by
    have hle := h.le
    obtain ⟨table, htable⟩ := r4kInvalidateTlb_eq σ (σ.tlbInUse - 1)
    have hinv : Inv (σ.r4kInvalidateTlb (σ.tlbInUse - 1) false) (some (σ.tlbInUse - 1)) := h.invalidate (by omega)
    have hdrop : Inv { σ.r4kInvalidateTlb (σ.tlbInUse - 1) false with tlbInUse := σ.tlbInUse - 1 } none := by
      refine hinv.drop ?_ ?_
      · rw [htable]
        show σ.tlbInUse = σ.tlbInUse - 1 + 1
        omega
      · rw [htable]
        show σ.nbTlb ≤ σ.tlbInUse - 1
        omega
    rw [MmuState.flushExtra, r4kInvalidateTlb_tlbInUse]
    refine Inv.flushExtra hdrop ?_
    rw [htable]
    show n ≤ σ.tlbInUse - 1 - σ.nbTlb
    omega

/-- An entry is written whose page is in no other entry. -/
theorem Inv.fill {idx : ℕ} (h : Inv σ (some idx)) (hidx : idx < σ.nbTlb) (hreg : σ.newEntry.Regular)
    (hno : ∀ j < σ.tlbInUse, j ≠ idx → ¬ (σ.tlb j).Overlaps σ.newEntry) : Inv (σ.r4kFillTlb idx) none where
  pos := h.pos
  le := h.le
  wired := h.wired
  vpn j hj := by
    show (Function.update σ.tlb idx σ.newEntry j).vpn &&& 0xff = 0
    by_cases hji : j = idx
    · rw [hji, Function.update_self]
      show σ.cp0EntryHi &&& targetPageMask <<< 1 &&& 0xff = 0
      rw [BitVec.and_assoc, show targetPageMask <<< 1 &&& 0xff = 0 by decide]
      exact BitVec.and_zero
    · rw [Function.update_of_ne hji]
      exact h.vpn j hj
  regular j hj _ := by
    show (Function.update σ.tlb idx σ.newEntry j).Regular
    by_cases hji : j = idx
    · rw [hji, Function.update_self]
      exact hreg
    · rw [Function.update_of_ne hji]
      exact h.regular j hj (by simpa using hji)
  shadow j hle hlt := by
    have hji : j ≠ idx := (hidx.trans_le hle).ne'
    obtain ⟨hasid, hsup⟩ := h.shadow j hle hlt
    refine ⟨?_, ?_⟩
    · show (Function.update σ.tlb idx σ.newEntry j).g = true ∨ (Function.update σ.tlb idx σ.newEntry j).asid = σ.asid
      rw [Function.update_of_ne hji]
      exact hasid
    · show (σ.superseded j || decide ((σ.tlb j).Overlaps σ.newEntry)) = false
      rw [hsup, decide_eq_false (hno j hlt hji)]
      rfl
  unique i j hi hj hne _ _ hover := by
    have hover : (Function.update σ.tlb idx σ.newEntry i).Overlaps (Function.update σ.tlb idx σ.newEntry j) := hover
    by_cases hii : i = idx
    · subst hii
      rw [Function.update_self, Function.update_of_ne hne.symm] at hover
      exact absurd hover.symm (hno j hj hne.symm)
    · by_cases hji : j = idx
      · subst hji
        rw [Function.update_self, Function.update_of_ne hii] at hover
        exact absurd hover (hno i hi hii)
      · rw [Function.update_of_ne hii, Function.update_of_ne hji] at hover
        show (Function.update σ.tlb idx σ.newEntry i).v0 = false ∧ (Function.update σ.tlb idx σ.newEntry i).v1 = false
        rw [Function.update_of_ne hii]
        exact h.unique i j hi hj hne (by simpa using hii) (by simpa using hji) hover
  cached := by
    refine h.cached.thins (.refl _) (fun _ _ _ _ _ => rfl) fun m k v p w _ hby => ?_
    obtain ⟨j, ⟨⟨hmatch, hj⟩, hoff⟩, hrest⟩ := hby
    have hji : j ≠ idx := fun heq => hoff (congrArg some heq)
    have hsame : (σ.r4kFillTlb idx).tlb j = σ.tlb j := Function.update_of_ne hji _ _
    refine ⟨j, ⟨⟨?_, hj⟩, by simp⟩, ?_⟩
    · rw [hsame]
      exact hmatch
    · rw [hsame]
      exact hrest
  mode := h.mode

/-- The entry that `tlbwr` replaces goes on as a shadow entry. -/
theorem Inv.keep {idx : ℕ} (h : Inv σ none) (hidx : idx < σ.nbTlb)
    (hasid : (σ.tlb idx).g = true ∨ (σ.tlb idx).asid = σ.asid) :
    Inv { σ with
      tlb := Function.update σ.tlb σ.tlbInUse (σ.tlb idx)
      superseded := Function.update σ.superseded σ.tlbInUse false
      tlbInUse := σ.tlbInUse + 1 } (some idx) := by
  have hle := h.le
  have hcase : ∀ j < σ.tlbInUse + 1, j = σ.tlbInUse ∨ j < σ.tlbInUse := fun j hj => by omega
  have hold : ∀ j < σ.tlbInUse, Function.update σ.tlb σ.tlbInUse (σ.tlb idx) j = σ.tlb j := fun j hj =>
    Function.update_of_ne hj.ne _ _
  refine ⟨h.pos, Nat.le_succ_of_le h.le, h.wired, fun j hj => ?_, fun j hj hoff => ?_, fun j hnb hj => ?_,
    fun i j hi hj hne hi' hj' hover => ?_, ?_, h.mode⟩
  · show (Function.update σ.tlb σ.tlbInUse (σ.tlb idx) j).vpn &&& 0xff = 0
    rcases hcase j hj with rfl | hj
    · rw [Function.update_self]
      exact h.vpn idx (by omega)
    · rw [hold j hj]
      exact h.vpn j hj
  · show (Function.update σ.tlb σ.tlbInUse (σ.tlb idx) j).Regular
    rcases hcase j hj with rfl | hj
    · rw [Function.update_self]
      exact h.regular idx (by omega) (by simp)
    · rw [hold j hj]
      exact h.regular j hj (by simp)
  · show ((Function.update σ.tlb σ.tlbInUse (σ.tlb idx) j).g = true ∨
        (Function.update σ.tlb σ.tlbInUse (σ.tlb idx) j).asid = σ.asid) ∧
      Function.update σ.superseded σ.tlbInUse false j = false
    rcases hcase j hj with rfl | hj
    · rw [Function.update_self, Function.update_self]
      exact ⟨hasid, rfl⟩
    · rw [hold j hj, Function.update_of_ne hj.ne]
      exact h.shadow j hnb hj
  · have hover : (Function.update σ.tlb σ.tlbInUse (σ.tlb idx) i).Overlaps
        (Function.update σ.tlb σ.tlbInUse (σ.tlb idx) j) := hover
    show (Function.update σ.tlb σ.tlbInUse (σ.tlb idx) i).v0 = false ∧
      (Function.update σ.tlb σ.tlbInUse (σ.tlb idx) i).v1 = false
    have hidx' : idx < σ.tlbInUse := by omega
    rcases hcase i hi with rfl | hi
    · rcases hcase j hj with rfl | hj
      · exact absurd rfl hne
      · rw [Function.update_self, hold j hj] at hover
        rw [Function.update_self]
        exact h.unique idx j hidx' hj (fun heq => hj' (congrArg some heq.symm)) (by simp) (by simp) hover
    · rw [hold i hi] at hover ⊢
      rcases hcase j hj with rfl | hj
      · rw [Function.update_self] at hover
        exact h.unique i idx hi hidx' (fun heq => hi' (congrArg some heq)) (by simp) (by simp) hover
      · rw [hold j hj] at hover
        exact h.unique i j hi hj hne (by simp) (by simp) hover
  · refine h.cached.thins (.refl _) (fun _ _ _ _ _ => rfl) fun m k v p w _ hby => ?_
    obtain ⟨j, ⟨⟨hmatch, hj⟩, -⟩, hrest⟩ := hby
    by_cases hji : j = idx
    · subst hji
      refine ⟨σ.tlbInUse, ⟨⟨?_, Nat.lt_succ_self _⟩, ?_⟩, ?_⟩
      · show (Function.update σ.tlb σ.tlbInUse (σ.tlb j) σ.tlbInUse).isMatch σ.asid v = true
        rw [Function.update_self]
        exact hmatch
      · simpa using hj.ne'
      · show (Function.update σ.tlb σ.tlbInUse (σ.tlb j) σ.tlbInUse).valid v = true ∧
          page ((Function.update σ.tlb σ.tlbInUse (σ.tlb j) σ.tlbInUse).physical v) = p ∧
          (w = true → (Function.update σ.tlb σ.tlbInUse (σ.tlb j) σ.tlbInUse).dirty v = true)
        rw [Function.update_self]
        exact hrest
    · refine ⟨j, ⟨⟨?_, Nat.lt_succ_of_lt hj⟩, by simpa using hji⟩, ?_⟩
      · show (Function.update σ.tlb σ.tlbInUse (σ.tlb idx) j).isMatch σ.asid v = true
        rw [hold j hj]
        exact hmatch
      · show (Function.update σ.tlb σ.tlbInUse (σ.tlb idx) j).valid v = true ∧
          page ((Function.update σ.tlb σ.tlbInUse (σ.tlb idx) j).physical v) = p ∧
          (w = true → (Function.update σ.tlb σ.tlbInUse (σ.tlb idx) j).dirty v = true)
        rw [hold j hj]
        exact hrest

end Invariant

/-! ### Operations -/

section Operations

variable {σ : MmuState}

theorem Inv.invalidateTlb {idx : ℕ} (h : Inv σ none) (hidx : idx < σ.nbTlb) (useExtra : Bool) :
    Inv (σ.r4kInvalidateTlb idx useExtra) (some idx) := by
  rw [MmuState.r4kInvalidateTlb]
  split
  · rename_i hskip
    exact h.skip hskip
  · rename_i hmatch
    split
    · refine h.keep hidx ?_
      by_cases hg : (σ.tlb idx).g = true
      · exact .inl hg
      · right
        by_contra hne
        exact hmatch ⟨by simpa using hg, hne⟩
    · exact h.flushPages (hidx.trans_le h.le)

/-- After a write, every access to a page of the new entry uses it. -/
theorem fresh_fill {idx : ℕ} (h : Inv (σ.r4kFillTlb idx) none) (hidx : idx < σ.nbTlb)
    (hno : ∀ j < σ.tlbInUse, j ≠ idx → ¬ (σ.tlb j).Overlaps σ.newEntry) :
    ({ σ.r4kFillTlb idx with lastWrite := some idx } : MmuState).Fresh := by
  intro i hi address hmatch
  obtain rfl : idx = i := Option.some.inj hi
  have hnew : (σ.r4kFillTlb idx).tlb idx = σ.newEntry := Function.update_self _ _ _
  have hmatch : ((σ.r4kFillTlb idx).tlb idx).isMatch σ.asid address = true := hmatch
  have honly : ∀ j < σ.tlbInUse, ((σ.r4kFillTlb idx).tlb j).isMatch σ.asid address = true → j = idx := by
    intro j hj hj'
    by_contra hne
    have hsame : (σ.r4kFillTlb idx).tlb j = σ.tlb j := Function.update_of_ne hne _ _
    rw [hsame] at hj'
    rw [hnew] at hmatch
    exact hno j hj hne (R4kTlb.overlaps_of_isMatch hj' hmatch)
  have hidx' : idx < σ.tlbInUse := hidx.trans_le h.le
  refine ⟨List.find?_range_eq_some.2 ⟨hmatch, List.mem_range.2 hidx', fun j hj => ?_⟩, fun m k hmapped hhit => ?_⟩
  · rw [Bool.not_eq_true', ← Bool.not_eq_true]
    intro hj'
    exact hj.ne (honly j (hj.trans hidx') hj')
  · have hby := MmuState.Translates.byTlb (h.cached m k (page address) hhit) (MmuState.mapped_page hmapped)
    obtain ⟨j, ⟨⟨hj, hjuse⟩, -⟩, hvalid, hphys, hdirty⟩ := hby
    rw [R4kTlb.isMatch_page] at hj
    obtain rfl := honly j hjuse hj
    rw [R4kTlb.valid_page] at hvalid
    rw [R4kTlb.page_physical] at hphys
    rw [R4kTlb.dirty_page, decide_eq_true_eq] at hdirty
    exact ⟨hvalid, hphys.symm, hdirty⟩

theorem Inv.tlbwi (h : Inv σ none) (hok : σ.Ok .tlbwi) :
    Inv σ.r4kHelperTlbwi none ∧ ({ σ.r4kHelperTlbwi with lastWrite := some σ.indexed } : MmuState).Fresh := by
  obtain ⟨⟨hreg, hno⟩, -⟩ := hok
  have hle := h.le
  have hidx : σ.indexed < σ.nbTlb := Nat.mod_lt _ h.pos
  obtain ⟨table, htable⟩ := flushExtra_eq (σ.tlbInUse - σ.nbTlb) σ
  have hextra := h.flushExtra le_rfl
  rw [htable] at hextra
  obtain ⟨table', htable'⟩ := r4kInvalidateTlb_eq
    { σ with tlbInUse := σ.tlbInUse - (σ.tlbInUse - σ.nbTlb), tlbTable := table } σ.indexed
  have hoff := hextra.invalidateTlb hidx false
  rw [htable'] at hoff
  have huse : σ.tlbInUse - (σ.tlbInUse - σ.nbTlb) = σ.nbTlb := by omega
  have hno' : ∀ j < σ.tlbInUse - (σ.tlbInUse - σ.nbTlb), j ≠ σ.indexed → ¬ (σ.tlb j).Overlaps σ.newEntry := by
    rw [huse]
    exact hno
  have hfill := hoff.fill hidx hreg hno'
  rw [MmuState.r4kHelperTlbwi, MmuState.r4kMipsTlbFlushExtra, htable, htable']
  exact ⟨hfill, fresh_fill hfill hidx hno'⟩

theorem Inv.tlbwr {lfsr : ℕ} (h : Inv σ none) (hok : σ.Ok (.tlbwr lfsr)) :
    Inv (σ.r4kHelperTlbwr lfsr) none ∧
      ({ σ.r4kHelperTlbwr lfsr with lastWrite := some (σ.cpuMipsGetRandom lfsr) } : MmuState).Fresh := by
  obtain ⟨⟨hreg, hno⟩, -⟩ := hok
  have hwired := h.wired
  have hle := h.le
  have hr : σ.cpuMipsGetRandom lfsr < σ.nbTlb := by
    have := Nat.mod_lt lfsr (Nat.sub_pos_of_lt hwired)
    rw [MmuState.cpuMipsGetRandom]
    omega
  set r := σ.cpuMipsGetRandom lfsr with hrdef
  have hoff := h.invalidateTlb hr true
  have hrest : (σ.r4kInvalidateTlb r true).nbTlb = σ.nbTlb ∧ (σ.r4kInvalidateTlb r true).newEntry = σ.newEntry ∧
      ∀ j < (σ.r4kInvalidateTlb r true).tlbInUse, j ≠ r →
        ¬ ((σ.r4kInvalidateTlb r true).tlb j).Overlaps σ.newEntry := by
    rw [MmuState.r4kInvalidateTlb]
    split
    · exact ⟨rfl, rfl, fun j hj hne => hno j hj (.inl hne)⟩
    · rename_i hmatch
      split
      · rename_i hextra
        refine ⟨rfl, rfl, fun j hj hne => ?_⟩
        show ¬ (Function.update σ.tlb σ.tlbInUse (σ.tlb r) j).Overlaps σ.newEntry
        by_cases hjuse : j = σ.tlbInUse
        · rw [hjuse, Function.update_self]
          refine hno r (hr.trans_le hle) (.inr ⟨?_, hextra.2⟩)
          by_cases hg : (σ.tlb r).g = true
          · exact .inl hg
          · right
            by_contra hasid
            exact hmatch ⟨by simpa using hg, hasid⟩
        · have hj : j < σ.tlbInUse + 1 := hj
          rw [Function.update_of_ne hjuse]
          exact hno j (by omega) (.inl hne)
      · exact ⟨rfl, rfl, fun j hj hne => hno j hj (.inl hne)⟩
  obtain ⟨hnb, hnew, hno'⟩ := hrest
  have hr' : r < (σ.r4kInvalidateTlb r true).nbTlb := by rwa [hnb]
  rw [← hnew] at hreg hno'
  have hfill := hoff.fill hr' hreg hno'
  exact ⟨hfill, fresh_fill hfill hr' hno'⟩

theorem Inv.extra {first : ℕ} (h : Inv σ none) (hfirst : σ.nbTlb ≤ first) : Inv (σ.r4kMipsTlbFlushExtra first) none :=
  h.flushExtra (by omega)

theorem Inv.tlbp (h : Inv σ none) : Inv σ.r4kHelperTlbp none := by
  rw [MmuState.r4kHelperTlbp]
  split
  · exact h.congr rfl rfl h.wired rfl rfl rfl rfl h.mode (.inl rfl)
  · have hdrop : ∀ {τ : MmuState}, Inv τ none → Inv { τ with cp0Index := σ.cp0Index ||| 0x80000000 } none :=
      fun hτ => hτ.congr rfl rfl hτ.wired rfl rfl rfl rfl hτ.mode (.inl rfl)
    split
    · rename_i i hfind
      exact hdrop (h.extra (List.mem_range'_1.1 (List.mem_of_find?_eq_some hfind)).1)
    · exact hdrop h

theorem Inv.tlbFlush (h : Inv σ none) : Inv σ.cpuMipsTlbFlush none :=
  h.flush rfl rfl h.wired rfl (fun _ _ _ => not_hit_tlbFlush σ.tlbTable) h.mode

theorem asid_or {vpn : Word} (hvpn : vpn &&& 0xff = 0) (asid : BitVec 8) :
    (vpn ||| asid.setWidth 32).setWidth 8 = asid := by
  apply BitVec.eq_of_getLsbD_eq
  intro i hi
  have hmask : (0xff : Word).getLsbD i = true := by
    revert i
    decide
  have hbit : (vpn &&& (0xff : Word)).getLsbD i = (0 : Word).getLsbD i := by rw [hvpn]
  rw [BitVec.getLsbD_and, hmask, Bool.and_true, BitVec.ofNat_eq_ofNat, BitVec.getLsbD_zero] at hbit
  rw [BitVec.getLsbD_setWidth, BitVec.getLsbD_or, hbit, BitVec.getLsbD_setWidth]
  simp [hi, hi.trans (by decide : 8 < 32)]

theorem Inv.mtc0EntryHi (h : Inv σ none) (arg1 : Word) : Inv (σ.helperMtc0EntryHi arg1) none := by
  rw [MmuState.helperMtc0EntryHi]
  split
  · exact h.flush rfl rfl h.wired rfl (fun _ _ _ => not_hit_tlbFlush σ.tlbTable) h.mode
  · rename_i hasid
    exact h.congr rfl rfl h.wired rfl rfl rfl (not_not.1 hasid).symm h.mode (.inl rfl)

theorem asid_raise (σ : MmuState) (address : Word) (exception : Excp) (errorCode : Word) :
    (σ.raise address exception errorCode).asid = σ.asid := by
  show ((σ.cp0EntryHi &&& (0xff : Word)) ||| (address &&& targetPageMask <<< 1)).setWidth 8 = σ.cp0EntryHi.setWidth 8
  apply BitVec.eq_of_getLsbD_eq
  intro i hi
  have hmasks : (0xff : Word).getLsbD i = true ∧ (targetPageMask <<< 1).getLsbD i = false := by
    revert i
    decide
  rw [BitVec.getLsbD_setWidth, BitVec.getLsbD_setWidth, BitVec.getLsbD_or, BitVec.getLsbD_and, BitVec.getLsbD_and,
    hmasks.1, hmasks.2]
  simp

theorem Inv.raise (h : Inv σ none) (address : Word) (exception : Excp) (errorCode : Word) :
    Inv (σ.raise address exception errorCode) none :=
  h.congr rfl rfl h.wired rfl rfl rfl (asid_raise _ _ _ _) h.mode (.inl rfl)

theorem Inv.tlbr (h : Inv σ none) : Inv σ.r4kHelperTlbr none := by
  have hidx : σ.indexed < σ.tlbInUse := (Nat.mod_lt _ h.pos).trans_le h.le
  have hasid := asid_or (h.vpn σ.indexed hidx) (σ.tlb σ.indexed).asid
  rw [MmuState.r4kHelperTlbr]
  by_cases hsame : σ.asid = (σ.tlb σ.indexed).asid
  · rw [if_neg (not_not.2 hsame)]
    obtain ⟨table, htable⟩ := flushExtra_eq (σ.tlbInUse - σ.nbTlb) σ
    have hextra : Inv (σ.r4kMipsTlbFlushExtra σ.nbTlb) none := h.extra le_rfl
    rw [MmuState.r4kMipsTlbFlushExtra, htable] at hextra ⊢
    exact hextra.congr rfl rfl hextra.wired rfl rfl rfl (hasid.trans hsame.symm) h.mode (.inl rfl)
  · rw [if_pos hsame]
    have hflush := h.tlbFlush
    obtain ⟨table, htable⟩ := flushExtra_eq (σ.cpuMipsTlbFlush.tlbInUse - σ.nbTlb) σ.cpuMipsTlbFlush
    have hnone : σ.cpuMipsTlbFlush.r4kMipsTlbFlushExtra σ.nbTlb = σ.cpuMipsTlbFlush := by
      show MmuState.flushExtra (σ.nbTlb - σ.nbTlb) σ.cpuMipsTlbFlush = σ.cpuMipsTlbFlush
      rw [Nat.sub_self]
      rfl
    rw [hnone]
    exact h.flush rfl rfl h.wired rfl (fun _ _ _ => not_hit_tlbFlush σ.tlbTable) h.mode

/-- What `r4k_map_address` finds is the translation. -/
theorem byTlb_r4kMapAddress {address physical : Word} {rw write : Bool}
    (h : σ.r4kMapAddress address rw = .match physical write) :
    σ.ByTlb (fun j a => σ.InUse j a ∧ some j ≠ none) (page address) (page physical) write := by
  rw [MmuState.r4kMapAddress] at h
  split at h
  · exact absurd h (by simp)
  · rename_i j hfind
    dsimp only at h
    split at h
    · exact absurd h (by simp)
    · rename_i hvalid
      split at h
      · obtain ⟨rfl, rfl⟩ := TlbRet.match.inj h
        refine ⟨j, ⟨⟨?_, ?_⟩, by simp⟩, ?_, ?_, ?_⟩
        · rw [R4kTlb.isMatch_page]
          have hmatch := List.find?_some hfind
          exact hmatch
        · exact List.mem_range.1 (List.mem_of_find?_eq_some hfind)
        · rw [R4kTlb.valid_page]
          simpa using hvalid
        · exact R4kTlb.page_physical _ _
        · rw [R4kTlb.dirty_page]
          exact id
      · exact absurd h (by simp)

/-- What `get_physical_address` finds is the translation in the current mode. -/
theorem translates_getPhysicalAddress {address physical : Word} {rw write : Bool} (hmode : ModeOk σ.cpu)
    (h : σ.getPhysicalAddress address rw = .match physical write) :
    σ.Translates (fun j a => σ.InUse j a ∧ some j ≠ none) σ.mmuIndex (page address) (page physical) write := by
  have huser : σ.cpu.hflags &&& (hflagDM ||| hflagKSU) = 2 ↔ σ.mmuIndex = 2 := mode_eq hmode (.inr rfl)
  have hsup : σ.cpu.hflags &&& (hflagDM ||| hflagKSU) = 1 ↔ σ.mmuIndex = 1 := mode_eq hmode (.inl rfl)
  rw [MmuState.getPhysicalAddress] at h
  rw [MmuState.Translates, segment_page]
  cases hseg : segment address with
  | useg =>
    simp only [hseg] at h
    show if σ.erl = true then page physical = page address else _
    split at h
    · rename_i he
      obtain ⟨rfl, -⟩ := TlbRet.match.inj h
      rw [if_pos he]
    · rename_i he
      rw [if_neg he]
      exact byTlb_r4kMapAddress h
  | kseg0 =>
    simp only [hseg, huser, hsup] at h
    split at h
    · rename_i hkernel
      obtain ⟨rfl, -⟩ := TlbRet.match.inj h
      exact ⟨⟨hkernel.2, hkernel.1⟩, page_sub address (by decide)⟩
    · exact absurd h (by simp)
  | kseg1 =>
    simp only [hseg, huser, hsup] at h
    split at h
    · rename_i hkernel
      obtain ⟨rfl, -⟩ := TlbRet.match.inj h
      exact ⟨⟨hkernel.2, hkernel.1⟩, page_sub address (by decide)⟩
    · exact absurd h (by simp)
  | sseg =>
    simp only [hseg, huser, hsup] at h
    split at h
    · rename_i hallowed
      refine ⟨?_, byTlb_r4kMapAddress h⟩
      rcases hallowed with hone | hkernel
      · rw [hone]
        decide
      · exact hkernel.1
    · exact absurd h (by simp)
  | kseg3 =>
    simp only [hseg, huser, hsup] at h
    split at h
    · rename_i hkernel
      exact ⟨⟨hkernel.2, hkernel.1⟩, byTlb_r4kMapAddress h⟩
    · exact absurd h (by simp)

theorem MmuState.Translates.read {src : ℕ → Word → Prop} {m v p : Word} {w : Bool} (h : σ.Translates src m v p w) :
    σ.Translates src m v p false := by
  refine h.imp (fun _ => rfl) fun hby => ?_
  obtain ⟨j, hsrc, hvalid, hphys, -⟩ := hby
  exact ⟨j, hsrc, hvalid, hphys, fun hw => absurd hw (by decide)⟩

/-- A new entry of the soft TLB has the translation of its page. -/
theorem Inv.handleMmuFault (h : Inv σ none) (address : Word) (rw : Bool) :
    Inv (σ.cpuMipsHandleMmuFault address rw) none := by
  rw [MmuState.cpuMipsHandleMmuFault]
  split
  · rename_i physical write hget
    have htranslates := translates_getPhysicalAddress h.mode hget
    refine ⟨h.pos, h.le, h.wired, h.vpn, h.regular, h.shadow, h.unique, fun m k v hhit => ?_, h.mode⟩
    obtain ⟨hv, haddr⟩ := hhit
    suffices hnew : σ.Translates (fun j a => σ.InUse j a ∧ some j ≠ none) m v
        (tlbSetPage (page address) (page physical) write σ.mmuIndex σ.tlbTable m (tlbIndex v)).phys
        (decide (k = .write)) from hnew.imp (fun _ => rfl) fun hby => hby
    have haddr : (tlbSetPage (page address) (page physical) write σ.mmuIndex σ.tlbTable m (tlbIndex v)).addr k = v := haddr
    rw [tlbSetPage] at haddr ⊢
    split at haddr
    · rename_i hnew
      rw [if_pos hnew, hnew.1]
      cases k with
      | read =>
        obtain rfl : page address = v := haddr
        exact htranslates.read
      | code =>
        obtain rfl : page address = v := haddr
        exact htranslates.read
      | write =>
        have haddr : (if write then page address else BitVec.allOnes 32) = v := haddr
        split at haddr
        · rename_i hwrite
          obtain rfl := haddr
          rw [hwrite] at htranslates
          exact htranslates
        · exact absurd haddr.symm (page_ne_allOnes hv)
    · rename_i hold
      rw [if_neg hold]
      exact h.cached m k v ⟨hv, haddr⟩
  all_goals exact h.raise _ _ _

theorem regular_zero : R4kTlb.Regular ⟨0, 0, 0, false, 0, 0, false, false, false, false, 0, 0⟩ :=
  ⟨12, by decide, by decide, by decide⟩

theorem inv_powerOn (env : CPUState) (config1 : Word) : Inv (MmuState.powerOn env config1) none := by
  refine ⟨?_, le_rfl, ?_, fun _ _ => by simp [MmuState.powerOn], fun _ _ _ => regular_zero,
    fun j hle hlt => absurd hlt (Nat.not_lt.2 hle), fun _ _ _ _ _ _ _ _ => ⟨rfl, rfl⟩, fun m k v hhit => ?_,
    modeOk_cpuReset env⟩
  · show 0 < 1 + _
    omega
  · show 0 < 1 + _
    omega
  · refine absurd hhit.2.symm ?_
    cases k <;> exact page_ne_allOnes hhit.1

theorem Inv.reset (h : Inv σ none) : Inv σ.reset none := by
  refine ⟨h.pos, le_rfl, h.pos, fun _ _ => by simp [MmuState.reset], fun _ _ _ => regular_zero,
    fun j hle hlt => absurd hlt (Nat.not_lt.2 hle), fun _ _ _ _ _ _ _ _ => ⟨rfl, rfl⟩, fun m k v hhit => ?_,
    modeOk_cpuReset σ.cpu⟩
  exact absurd hhit (not_hit_tlbFlush σ.tlbTable)

theorem Inv.cpu (h : Inv σ none) (env : CPUState) (exceptionIndex : Option Excp) (hmode : ModeOk env)
    (herl : env.cp0Status.getLsbD stERL = σ.erl ∨ ∀ m k v, segment v = .useg → ¬ Hit σ.tlbTable m k v) :
    Inv { σ with cpu := env, exceptionIndex := exceptionIndex } none :=
  h.congr rfl rfl h.wired rfl rfl rfl rfl hmode herl

theorem cp0Status_cpuMipsUpdateIrq (env : CPUState) : (cpuMipsUpdateIrq env).cp0Status = env.cp0Status := by
  rw [cpuMipsUpdateIrq]
  split
  · split <;> rfl
  · rfl

theorem erl_helperMtc0Status (arg1 : Word) (env : CPUState) :
    (helperMtc0Status arg1 env).cp0Status.getLsbD stERL =
      if env.cp0StatusRwBitmask.getLsbD stERL then arg1.getLsbD stERL else env.cp0Status.getLsbD stERL := by
  rw [helperMtc0Status, cp0Status_cpuMipsUpdateIrq]
  show ((env.cp0Status &&& ~~~env.cp0StatusRwBitmask) ||| (arg1 &&& env.cp0StatusRwBitmask)).getLsbD stERL = _
  rw [BitVec.getLsbD_or, BitVec.getLsbD_and, BitVec.getLsbD_and, BitVec.getLsbD_not]
  cases env.cp0StatusRwBitmask.getLsbD stERL <;> simp [stERL]

theorem Inv.mtc0Status {arg1 : Word} (h : Inv σ none) (hok : σ.Ok (.mtc0Status arg1)) :
    Inv { σ with cpu := helperMtc0Status arg1 σ.cpu } none := by
  refine h.cpu _ σ.exceptionIndex (modeOk_helperMtc0Status arg1 σ.cpu) ?_
  by_cases hchange : σ.ChangesErl (.mtc0Status arg1)
  · exact .inr (hok.2 hchange)
  · left
    rw [erl_helperMtc0Status]
    split
    · rename_i hmask
      by_contra hne
      exact hchange ⟨hmask, hne⟩
    · rfl

theorem Inv.eret (h : Inv σ none) (hok : σ.Ok .eret) : Inv { σ with cpu := helperEret σ.cpu } none := by
  refine h.cpu _ σ.exceptionIndex (modeOk_helperEret σ.cpu) ?_
  by_cases herl : σ.erl = true
  · exact .inr (hok.2 herl)
  · left
    have hstatus : σ.cpu.cp0Status.getLsbD stERL = false := by simpa [MmuState.erl] using herl
    rw [helperEret_of_not_erl hstatus, getLsbD_clear_bit _ (by decide)]
    simp [MmuState.erl, stERL, stEXL]

theorem Inv.exception {e : Excp} (h : Inv σ none) (hok : σ.Ok (.exception e)) : Inv (σ.doInterrupt e) none := by
  rw [MmuState.doInterrupt]
  split
  · exact h.reset
  · rename_i hreset
    refine h.cpu _ none (modeOk_doInterrupt h.mode e) ?_
    by_cases he : e = .sreset ∨ e = .nmi
    · by_cases herl : σ.erl = true
      · left
        rw [herl]
        rcases he with rfl | rfl <;> simp [doInterrupt, setErrorEPC, bit, stERL]
      · exact .inr (hok.2 ⟨he, by simpa using herl⟩)
    · exact .inl (erl_doInterrupt hreset he σ.cpu)

/-- Every operation that goes right keeps the invariant, and a TLB write is seen at once. -/
theorem inv_step (h : Inv σ none) (op : MmuOp) (hok : σ.Ok op) : Inv (σ.step op) none ∧ (σ.step op).Fresh := by
  have hstep : ∀ {τ : MmuState} {last : Option ℕ}, Inv τ none → Inv { τ with lastWrite := last } none :=
    fun hτ => hτ.congr rfl rfl hτ.wired rfl rfl rfl rfl hτ.mode (.inl rfl)
  have hnot : ∀ {τ : MmuState}, ({ τ with lastWrite := none } : MmuState).Fresh := fun i hi => absurd hi (by simp)
  have hregs : ∀ {τ : MmuState}, τ.nbTlb = σ.nbTlb → τ.tlbInUse = σ.tlbInUse → τ.cp0Wired < σ.nbTlb →
      τ.tlb = σ.tlb → τ.tlbTable = σ.tlbTable → τ.superseded = σ.superseded → τ.asid = σ.asid → τ.cpu = σ.cpu →
      Inv τ none := fun hnb huse hwired htlb htable hsup hasid hcpu =>
    h.congr hnb huse hwired htlb htable hsup hasid (hcpu ▸ h.mode) (.inl (by rw [MmuState.erl, hcpu]; rfl))
  cases op with
  | tlbwi =>
    obtain ⟨hinv, hfresh⟩ := h.tlbwi hok
    exact ⟨hstep hinv, hfresh⟩
  | tlbwr lfsr =>
    obtain ⟨hinv, hfresh⟩ := h.tlbwr hok
    exact ⟨hstep hinv, hfresh⟩
  | tlbp => exact ⟨hstep h.tlbp, hnot⟩
  | tlbr => exact ⟨hstep h.tlbr, hnot⟩
  | mtc0Index arg1 => exact ⟨hregs rfl rfl h.wired rfl rfl rfl rfl rfl, hnot⟩
  | mtc0EntryLo0 arg1 => exact ⟨hregs rfl rfl h.wired rfl rfl rfl rfl rfl, hnot⟩
  | mtc0EntryLo1 arg1 => exact ⟨hregs rfl rfl h.wired rfl rfl rfl rfl rfl, hnot⟩
  | mtc0PageMask arg1 => exact ⟨hregs rfl rfl h.wired rfl rfl rfl rfl rfl, hnot⟩
  | mtc0Wired arg1 => exact ⟨hregs rfl rfl (Nat.mod_lt _ h.pos) rfl rfl rfl rfl rfl, hnot⟩
  | mtc0EntryHi arg1 => exact ⟨hstep (h.mtc0EntryHi arg1), hnot⟩
  | mtc0Status arg1 => exact ⟨hstep (h.mtc0Status hok), hnot⟩
  | exception e => exact ⟨hstep (h.exception hok), hnot⟩
  | eret => exact ⟨hstep (h.eret hok), hnot⟩
  | fill address rw => exact ⟨hstep (h.handleMmuFault address rw), hnot⟩

theorem Inv.coherent (h : Inv σ none) : σ.Coherent := by
  refine h.cached.thins (.refl _) (fun _ _ _ _ _ => rfl) fun m k v p w _ hby => ?_
  obtain ⟨j, ⟨⟨hmatch, hj⟩, -⟩, hvalid, hrest⟩ := hby
  refine ⟨j, ⟨hmatch, ?_⟩, hvalid, hrest⟩
  rcases Nat.lt_or_ge j σ.nbTlb with hnb | hnb
  · refine .inl ⟨hnb, fun i hi => ?_⟩
    by_contra hne
    have hover := R4kTlb.overlaps_of_isMatch hmatch (by simpa using hne)
    obtain ⟨hv0, hv1⟩ := h.unique j i hj (hi.trans hj) hi.ne' (by simp) (by simp) hover
    simp [R4kTlb.valid, hv0, hv1] at hvalid
  · exact .inr ⟨hnb, hj, (h.shadow j hnb hj).2⟩

end Operations

/-- Coherence of the soft TLB: in every run whose TLB writes and changes of `CP0St_ERL` go
right, in every state what is cached has the translation and no more rights, and after a TLB
write every access to its pages uses the new entry. -/
theorem softTlb_coherent (env : CPUState) (config1 : Word) (ops : List MmuOp)
    (hok : Meets MmuState.step MmuState.Ok (MmuState.powerOn env config1) ops) :
    ∀ σ ∈ states MmuState.step (MmuState.powerOn env config1) ops, σ.Coherent ∧ σ.Fresh := by
  have hinv := states_invariant (P := fun σ => Inv σ none ∧ σ.Fresh)
    (fun σ op h hop => inv_step h.1 op hop) ops _
    ⟨inv_powerOn env config1, fun i hi => absurd hi (by simp [MmuState.powerOn])⟩ hok
  exact fun σ hσ => ⟨(hinv σ hσ).1.coherent, (hinv σ hσ).2⟩

/-- A CPU with 16 TLB entries. -/
def config16 : Word := 15 <<< config1MMU

/-- Page `0x2000` is mapped to `0x5000` by entry 1, and read. -/
def mapPage : List MmuOp :=
  [.mtc0Status 0, .mtc0EntryHi 0x2000, .mtc0EntryLo0 0x146, .mtc0EntryLo1 0, .mtc0Index 1, .tlbwi,
    .fill 0x2000 false]

/-- `tlbwr` replaces entry 1 by one for another page. -/
def refill : List MmuOp := mapPage ++ [.mtc0EntryHi 0x4000, .tlbwr 0xd0000001]

/-- `tlbwr` replaces entry 1 by one that maps the same page to `0x9000`. -/
def remap : List MmuOp := mapPage ++ [.mtc0EntryLo0 0x246, .tlbwr 0xd0000001]

/-- The old entry stays as a shadow entry, and its page stays cached. -/
theorem softTlb_coherent_refill :
    (∀ σ ∈ states MmuState.step (MmuState.powerOn powerOn config16) refill, σ.Coherent ∧ σ.Fresh) ∧
      (refill.foldl MmuState.step (MmuState.powerOn powerOn config16)).tlbInUse = 17 := by
  refine ⟨softTlb_coherent powerOn config16 refill ?_, by decide⟩
  have hnone : ∀ {σ : MmuState} {op : MmuOp}, σ.ChangesErl op = False →
      σ.ChangesErl op → ∀ m k v, segment v = .useg → ¬ Hit σ.tlbTable m k v := fun hfalse hchange =>
    absurd (hfalse ▸ hchange) not_false
  refine ⟨⟨trivial, fun _ m k v _ hhit => ?_⟩, ⟨trivial, hnone rfl⟩, ⟨trivial, hnone rfl⟩, ⟨trivial, hnone rfl⟩,
    ⟨trivial, hnone rfl⟩, ⟨⟨⟨12, by decide, by decide, by decide⟩, by decide⟩, hnone rfl⟩, ⟨trivial, hnone rfl⟩,
    ⟨trivial, hnone rfl⟩, ⟨⟨⟨12, by decide, by decide, by decide⟩, fun j hj hcase => ?_⟩, hnone rfl⟩, trivial⟩
  · refine absurd hhit.2.symm ?_
    cases k <;> exact page_ne_allOnes hhit.1
  · clear hcase
    revert j
    decide

/-- Reads of page `0x2000` still go to `0x5000`. -/
theorem remap_stale : ¬ (remap.foldl MmuState.step (MmuState.powerOn powerOn config16)).Fresh := by
  intro h
  have hmapped : (remap.foldl MmuState.step (MmuState.powerOn powerOn config16)).Mapped 0x2000 := by
    rw [MmuState.Mapped, show segment 0x2000 = .useg by decide]
    decide
  obtain ⟨-, hphys, -⟩ := (h 1 (by decide) 0x2000 (by decide)).2 0 .read hmapped ⟨by decide, by decide⟩
  exact absurd hphys (by decide)

end Ar7Qemu.Mips
