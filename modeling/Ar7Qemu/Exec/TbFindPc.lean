import Ar7Qemu.Exec.JmpCache
import Mathlib.Data.Nat.Find

/-! `tb_find_pc`: the block that a host program counter belongs to, by a binary search in
`tbs[]`. The array stays sorted, and a block whose translation was given up has the code
pointer of the block after it, so that a search for the first byte of the second block may
end at the first. -/

namespace Ar7Qemu.Exec.TbFindPc

open JmpCache (Machine Translation)
open Lib

variable {t : Target} {Cpu : Type}

/-! ### The search -/

/-- The loop of `tb_find_pc`, with the index of the block that it returns. -/
def findLoop (tcPtr : ℕ → ℕ) (pc : ℕ) : ℕ → ℤ → ℤ → Option ℤ
  | 0, _, _ => none
  | fuel + 1, mMin, mMax =>
    if mMin ≤ mMax then
      let m := (mMin + mMax) / 2
      let v := tcPtr m.toNat
      if v = pc then some m
      else if pc < v then findLoop tcPtr pc fuel mMin (m - 1)
      else findLoop tcPtr pc fuel (m + 1) mMax
    else some mMax

/-- How many blocks a binary search looks at before it gets to block `i`. -/
def probeCount (i : ℤ) : ℕ → ℤ → ℤ → ℕ
  | 0, _, _ => 0
  | fuel + 1, mMin, mMax =>
    let m := (mMin + mMax) / 2
    if i = m then 0 else if i < m then probeCount i fuel mMin (m - 1) + 1 else probeCount i fuel (m + 1) mMax + 1

/-- The blocks of `tbs[]`, where the code of each starts, and how much code has been generated
for those that have been completed. -/
structure Layout (nbTbs codeGenPtr : ℕ) (tcPtr : ℕ → ℕ) (generated : ℕ → Option ℕ) : Prop where
  sorted : ∀ i j, i < j → j < nbTbs → tcPtr i ≤ tcPtr j
  below : ∀ i < nbTbs, tcPtr i ≤ codeGenPtr
  next : ∀ i j c, generated i = some c → i < j → j < nbTbs → tcPtr i + c ≤ tcPtr j
  code : ∀ i c, generated i = some c → i < nbTbs → tcPtr i + c ≤ codeGenPtr

section Search

variable {tcPtr : ℕ → ℕ} {pc : ℕ}

/-- A search for `pc` among blocks that start before it up to block `n`, and after it from there on. -/
theorem findLoop_between {n : ℤ} : ∀ {fuel : ℕ} {mMin mMax : ℤ}, mMin ≤ n + 1 → n ≤ mMax →
    (∀ i, mMin ≤ i → i ≤ n → tcPtr i.toNat < pc) → (∀ i, n < i → i ≤ mMax → pc < tcPtr i.toNat) →
    (mMax + 1 - mMin).toNat < fuel → findLoop tcPtr pc fuel mMin mMax = some n
  | fuel + 1, mMin, mMax, hmin, hmax, hbefore, hafter, hfuel => by
    rw [findLoop]
    by_cases hrange : mMin ≤ mMax
    · rw [if_pos hrange]
      have hm : mMin ≤ (mMin + mMax) / 2 ∧ (mMin + mMax) / 2 ≤ mMax := by omega
      by_cases hn : (mMin + mMax) / 2 ≤ n
      · have hv := hbefore _ hm.1 hn
        rw [if_neg hv.ne, if_neg (Nat.not_lt.2 hv.le)]
        exact findLoop_between (by omega) hmax (fun i hi hin => hbefore i (by omega) hin) hafter (by omega)
      · have hv := hafter _ (Int.lt_of_not_ge hn) hm.2
        rw [if_neg hv.ne', if_pos hv]
        exact findLoop_between hmin (by omega) hbefore (fun i hi him => hafter i hi (by omega)) (by omega)
    · rw [if_neg hrange]
      congr 1
      omega

/-- A search for the pointer of blocks `a` to `n` ends at the one that it gets to first. -/
theorem findLoop_equal (tcPtr : ℕ → ℕ) {a n : ℤ} (hsame : ∀ i, a ≤ i → i ≤ n → tcPtr i.toNat = pc) (han : a ≤ n) :
    ∀ (fuel : ℕ) (mMin mMax : ℤ), mMin ≤ a → n ≤ mMax → (∀ i, mMin ≤ i → i < a → tcPtr i.toNat < pc) →
      (∀ i, n < i → i ≤ mMax → pc < tcPtr i.toNat) → (mMax + 1 - mMin).toNat < fuel →
      ∃ m, findLoop tcPtr pc fuel mMin mMax = some m ∧ a ≤ m ∧ m ≤ n ∧
        ∀ i, a ≤ i → i ≤ n → i ≠ m → probeCount m fuel mMin mMax < probeCount i fuel mMin mMax
  | 0, _, _, _, _, _, _, hfuel => absurd hfuel (Nat.not_lt_zero _)
  | fuel + 1, mMin, mMax, hmin, hmax, hbefore, hafter, hfuel => by
    have hm : mMin ≤ (mMin + mMax) / 2 ∧ (mMin + mMax) / 2 ≤ mMax := by omega
    rw [findLoop, if_pos (by omega)]
    by_cases hlow : (mMin + mMax) / 2 < a
    · have hv := hbefore _ hm.1 hlow
      rw [if_neg hv.ne, if_neg (Nat.not_lt.2 hv.le)]
      obtain ⟨k, hk, hak, hkn, hfirst⟩ := findLoop_equal tcPtr hsame han fuel ((mMin + mMax) / 2 + 1) mMax
        (by omega) hmax (fun i hi hia => hbefore i (by omega) hia) hafter (by omega)
      refine ⟨k, hk, hak, hkn, fun i hai hin hik => ?_⟩
      rw [probeCount, probeCount, if_neg (by omega), if_neg (by omega), if_neg (by omega), if_neg (by omega)]
      exact Nat.succ_lt_succ (hfirst i hai hin hik)
    · by_cases hhigh : n < (mMin + mMax) / 2
      · have hv := hafter _ hhigh hm.2
        rw [if_neg hv.ne', if_pos hv]
        obtain ⟨k, hk, hak, hkn, hfirst⟩ := findLoop_equal tcPtr hsame han fuel mMin
          ((mMin + mMax) / 2 - 1) hmin (by omega) hbefore (fun i hi him => hafter i hi (by omega)) (by omega)
        refine ⟨k, hk, hak, hkn, fun i hai hin hik => ?_⟩
        rw [probeCount, probeCount, if_neg (by omega), if_pos (by omega), if_neg (by omega), if_pos (by omega)]
        exact Nat.succ_lt_succ (hfirst i hai hin hik)
      · rw [if_pos (hsame _ (by omega) (by omega))]
        refine ⟨_, rfl, by omega, by omega, fun i hai hin hik => ?_⟩
        rw [probeCount, probeCount, if_pos rfl, if_neg hik]
        split <;> exact Nat.succ_pos _

theorem exists_first (tcPtr : ℕ → ℕ) {n : ℕ} (hsorted : ∀ i j, i < j → j ≤ n → tcPtr i ≤ tcPtr j) :
    ∃ a ≤ n, (∀ i, a ≤ i → i ≤ n → tcPtr i = tcPtr n) ∧ ∀ i < a, tcPtr i < tcPtr n := by
  have hex : ∃ i, tcPtr i = tcPtr n := ⟨n, rfl⟩
  have hfind : Nat.find hex ≤ n := Nat.find_min' hex rfl
  have hle : ∀ i ≤ n, tcPtr i ≤ tcPtr n := fun i hi =>
    (Nat.lt_or_eq_of_le hi).elim (fun hlt => hsorted i n hlt le_rfl) fun heq => heq ▸ le_rfl
  refine ⟨Nat.find hex, hfind, fun i hi hin => le_antisymm (hle i hin) ?_, fun i hi => ?_⟩
  · calc tcPtr n = tcPtr (Nat.find hex) := (Nat.find_spec hex).symm
      _ ≤ tcPtr i := (Nat.lt_or_eq_of_le hi).elim (fun hlt => hsorted _ i hlt hin) fun heq => heq ▸ le_rfl
  · exact lt_of_le_of_ne (hle i (hi.le.trans hfind)) (Nat.find_min hex hi)

end Search

/-! ### The blocks -/

section Layout

variable {nbTbs codeGenPtr : ℕ} {tcPtr tcPtr' : ℕ → ℕ} {generated generated' : ℕ → Option ℕ}

theorem layout_zero (codeGenPtr : ℕ) (tcPtr : ℕ → ℕ) (generated : ℕ → Option ℕ) :
    Layout 0 codeGenPtr tcPtr generated :=
  ⟨fun _ _ _ hj => absurd hj (Nat.not_lt_zero _), fun _ hi => absurd hi (Nat.not_lt_zero _),
    fun _ _ _ _ _ hj => absurd hj (Nat.not_lt_zero _), fun _ _ _ hi => absurd hi (Nat.not_lt_zero _)⟩

/-- A new block starts at the code pointer, which does not go back. -/
theorem Layout.push (h : Layout nbTbs codeGenPtr tcPtr generated) {codeGenPtr' : ℕ}
    (hold : ∀ i < nbTbs, tcPtr' i = tcPtr i ∧ generated' i = generated i) (hnew : tcPtr' nbTbs = codeGenPtr)
    (hle : codeGenPtr ≤ codeGenPtr') (hcode : ∀ c, generated' nbTbs = some c → codeGenPtr + c ≤ codeGenPtr') :
    Layout (nbTbs + 1) codeGenPtr' tcPtr' generated' where
  sorted i j hij hj := by
    rw [(hold i (by omega)).1]
    rcases Nat.lt_succ_iff_lt_or_eq.1 hj with hlt | rfl
    · rw [(hold j hlt).1]
      exact h.sorted i j hij hlt
    · rw [hnew]
      exact h.below i hij
  below i hi := by
    rcases Nat.lt_succ_iff_lt_or_eq.1 hi with hlt | rfl
    · rw [(hold i hlt).1]
      exact (h.below i hlt).trans hle
    · rwa [hnew]
  next i j c hi hij hj := by
    rw [(hold i (by omega)).2] at hi
    rw [(hold i (by omega)).1]
    rcases Nat.lt_succ_iff_lt_or_eq.1 hj with hlt | rfl
    · rw [(hold j hlt).1]
      exact h.next i j c hi hij hlt
    · rw [hnew]
      exact h.code i c hi hij
  code i c hi hin := by
    rcases Nat.lt_succ_iff_lt_or_eq.1 hin with hlt | rfl
    · rw [(hold i hlt).2] at hi
      rw [(hold i hlt).1]
      exact (h.code i c hi hlt).trans hle
    · rw [hnew]
      exact hcode c hi

theorem Layout.pop (h : Layout (nbTbs + 1) codeGenPtr tcPtr generated) : Layout nbTbs (tcPtr nbTbs) tcPtr generated where
  sorted i j hij hj := h.sorted i j hij (by omega)
  below i hi := h.sorted i nbTbs hi (by omega)
  next i j c hi hij hj := h.next i j c hi hij (by omega)
  code i c hi hin := h.next i nbTbs c hi hin (by omega)

end Layout

/-- The translation blocks, with the size of the code of those that `tb_gen_code` has returned. No
code depends on it. -/
structure State (t : Target) (Cpu : Type) where
  cache : JmpCache.State t Cpu
  generated : ℕ → Option ℕ

def codeSize : Translation t → ℕ
  | .fault => 0
  | .done _ codeSize _ _ => codeSize

namespace State

variable (m : Machine) (σ : State t Cpu)

/-- `tb_gen_code`. A block that is allocated and not returned has been given up. -/
def tbGenCode (cpu : Cpu) (mode : ℕ) (pc csBase : Addr t) (flags : BitVec 32) (cflags : ℕ)
    (translation : Translation t) : State t Cpu :=
  let result := σ.cache.tbGenCode m cpu mode pc csBase flags cflags translation
  { cache := result.1
    generated :=
      if (σ.cache.getPhysAddrCode cpu mode pc).isSome then
        Function.update σ.generated (result.1.nbTbs - 1) (result.2.map fun _ => codeSize translation)
      else σ.generated }

/-- `tb_find_pc`. The result is null or the index of a block. -/
def tbFindPc (codeGenBuffer tcPtr : ℕ) : Option (Option ℤ) :=
  if σ.cache.nbTbs = 0 then some none
  else if tcPtr < codeGenBuffer ∨ codeGenBuffer + σ.cache.codeGenPtr ≤ tcPtr then some none
  else
    (findLoop (fun i => codeGenBuffer + (σ.cache.tbs i).tcPtr) tcPtr (σ.cache.nbTbs + 1) 0 (σ.cache.nbTbs - 1)).map some

/-- How many blocks a binary search in `tbs[]` looks at before it gets to block `i`. -/
def probes (i : ℕ) : ℕ := probeCount i (σ.cache.nbTbs + 1) 0 (σ.cache.nbTbs - 1)

end State

inductive Op (t : Target) (Cpu : Type) where
  | genCode (cpu : Cpu) (mode : ℕ) (pc csBase : Addr t) (flags : BitVec 32) (cflags : ℕ)
      (translation : Translation t)
  | free (n : ℕ)
  | tbFlush
  /-- The mapping of virtual pages changes. -/
  | tlbFlush (cpu : Cpu) (mapping : ℕ → Addr t → Option (PhysPage t))

def step [DecidableEq Cpu] (m : Machine) (σ : State t Cpu) : Op t Cpu → State t Cpu
  | .genCode cpu mode pc csBase flags cflags translation => σ.tbGenCode m cpu mode pc csBase flags cflags translation
  | .free n => { σ with cache := σ.cache.tbFree n }
  | .tbFlush => { σ with cache := σ.cache.tbFlush }
  | .tlbFlush cpu mapping => { σ with cache := σ.cache.tlbFlush cpu mapping }

def State.init (mapping : Cpu → ℕ → Addr t → Option (PhysPage t)) : State t Cpu :=
  ⟨JmpCache.State.init mapping, fun _ => none⟩

def run [DecidableEq Cpu] (m : Machine) (mapping : Cpu → ℕ → Addr t → Option (PhysPage t)) (ops : List (Op t Cpu)) :
    State t Cpu := ops.foldl (step m) (State.init mapping)

/-! ### Sorted blocks -/

section Sorted

variable {m : Machine} {σ : State t Cpu}

/-- The blocks of a state, in the order of their code. -/
def Sorted (σ : State t Cpu) : Prop :=
  Layout σ.cache.nbTbs σ.cache.codeGenPtr (fun i => (σ.cache.tbs i).tcPtr) σ.generated

theorem update_tcPtr (tbs : ℕ → TranslationBlock t) {n : ℕ} {tb : TranslationBlock t} (htb : tb.tcPtr = (tbs n).tcPtr)
    (i : ℕ) : (Function.update tbs n tb i).tcPtr = (tbs i).tcPtr := by
  by_cases hi : i = n
  · rw [hi, Function.update_self, htb]
  · rw [Function.update_of_ne hi]

theorem tbLinkPhys_tcPtr (cache : JmpCache.State t Cpu) (n : ℕ) (physPc physPage2 : Addr t) (i : ℕ) :
    ((cache.tbLinkPhys n physPc physPage2).tbs i).tcPtr = (cache.tbs i).tcPtr := by
  by_cases hi : i = n
  · simp [JmpCache.State.tbLinkPhys, hi]
  · simp [JmpCache.State.tbLinkPhys, hi]

theorem tbGenEnd_ptrs (cache : JmpCache.State t Cpu) (cpu : Cpu) (mode n : ℕ) (physPc : Addr t) (size codeSize : ℕ) :
    (cache.tbGenEnd cpu mode n physPc size codeSize).1.nbTbs = cache.nbTbs ∧
      (∀ i, ((cache.tbGenEnd cpu mode n physPc size codeSize).1.tbs i).tcPtr = (cache.tbs i).tcPtr) ∧
      (cache.tbGenEnd cpu mode n physPc size codeSize).1.codeGenPtr = (cache.codeGenPtr + codeSize + 15) / 16 * 16 := by
  have hsized : ∀ i, (Function.update cache.tbs n { cache.tbs n with size := size } i).tcPtr = (cache.tbs i).tcPtr :=
    update_tcPtr cache.tbs rfl
  rw [JmpCache.State.tbGenEnd]
  dsimp only
  split
  · exact ⟨rfl, fun i => (tbLinkPhys_tcPtr _ n physPc noPage i).trans (hsized i), rfl⟩
  · split
    · exact ⟨rfl, hsized, rfl⟩
    · exact ⟨rfl, fun i => (tbLinkPhys_tcPtr _ n physPc _ i).trans (hsized i), rfl⟩

/-- What `tb_gen_code` does to the code pointers, after the flush that it may make. -/
theorem tbGenCode_spec (cache : JmpCache.State t Cpu) {cpu : Cpu} {mode : ℕ} {pc physPc : Addr t} (csBase : Addr t)
    (flags : BitVec 32) (cflags : ℕ) (translation : Translation t) (hpc : cache.getPhysAddrCode cpu mode pc = some physPc) :
    ∃ start, (start = cache ∨ start = cache.tbFlush) ∧
      (cache.tbGenCode m cpu mode pc csBase flags cflags translation).1.nbTbs = start.nbTbs + 1 ∧
      (∀ i, ((cache.tbGenCode m cpu mode pc csBase flags cflags translation).1.tbs i).tcPtr =
        if i = start.nbTbs then start.codeGenPtr else (start.tbs i).tcPtr) ∧
      start.codeGenPtr ≤ (cache.tbGenCode m cpu mode pc csBase flags cflags translation).1.codeGenPtr ∧
      ((cache.tbGenCode m cpu mode pc csBase flags cflags translation).2.isSome →
        start.codeGenPtr + codeSize translation ≤
          (cache.tbGenCode m cpu mode pc csBase flags cflags translation).1.codeGenPtr) := by
  obtain ⟨start, hstart, halloc⟩ : ∃ start, (start = cache ∨ start = cache.tbFlush) ∧
      cache.tbAlloc m pc csBase flags cflags = start.tbTake pc csBase flags cflags := by
    rw [JmpCache.State.tbAlloc]
    split
    · exact ⟨_, .inr rfl, rfl⟩
    · exact ⟨_, .inl rfl, rfl⟩
  have htake : ∀ i, ((start.tbTake pc csBase flags cflags).tbs i).tcPtr =
      if i = start.nbTbs then start.codeGenPtr else (start.tbs i).tcPtr := by
    intro i
    by_cases hi : i = start.nbTbs
    · simp [JmpCache.State.tbTake, hi]
    · simp [JmpCache.State.tbTake, hi]
  refine ⟨start, hstart, ?_⟩
  rw [JmpCache.State.tbGenCode, hpc]
  dsimp only
  rw [halloc]
  cases translation with
  | fault => exact ⟨rfl, htake, le_rfl, fun h => absurd h (by simp)⟩
  | done size generated pos le =>
    obtain ⟨hnb, hptr, htop⟩ := tbGenEnd_ptrs (start.tbTake pc csBase flags cflags) cpu mode
      ((start.tbTake pc csBase flags cflags).nbTbs - 1) physPc size generated
    have hround : start.codeGenPtr + generated ≤ (start.codeGenPtr + generated + 15) / 16 * 16 := by omega
    have htop' : (start.tbTake pc csBase flags cflags).codeGenPtr = start.codeGenPtr := rfl
    rw [htop'] at htop
    refine ⟨hnb, fun i => (hptr i).trans (htake i), ?_, fun _ => ?_⟩
    · exact ((Nat.le_add_right _ _).trans hround).trans htop.ge
    · exact hround.trans htop.ge

theorem Sorted.tbGenCode (h : Sorted σ) (cpu : Cpu) (mode : ℕ) (pc csBase : Addr t) (flags : BitVec 32) (cflags : ℕ)
    (translation : Translation t) : Sorted (σ.tbGenCode m cpu mode pc csBase flags cflags translation) := by
  cases hpc : σ.cache.getPhysAddrCode cpu mode pc with
  | none =>
    have hsame : σ.tbGenCode m cpu mode pc csBase flags cflags translation = σ := by
      simp [State.tbGenCode, JmpCache.State.tbGenCode, hpc]
    rwa [hsame]
  | some physPc =>
    obtain ⟨start, hstart, hnb, hptr, hle, hcode⟩ :=
      tbGenCode_spec (m := m) σ.cache csBase flags cflags translation hpc
    have hlayout : Layout start.nbTbs start.codeGenPtr (fun i => (start.tbs i).tcPtr) σ.generated := by
      rcases hstart with rfl | rfl
      · exact h
      · exact layout_zero _ _ _
    have hgenerated : (σ.tbGenCode m cpu mode pc csBase flags cflags translation).generated =
        Function.update σ.generated start.nbTbs
          ((σ.cache.tbGenCode m cpu mode pc csBase flags cflags translation).2.map fun _ => codeSize translation) := by
      simp [State.tbGenCode, hpc, hnb]
    rw [Sorted, hgenerated]
    show Layout (σ.cache.tbGenCode m cpu mode pc csBase flags cflags translation).1.nbTbs _ _ _
    rw [hnb]
    refine hlayout.push (fun i hi => ⟨?_, ?_⟩) ?_ hle fun c hc => ?_
    · exact (hptr i).trans (if_neg hi.ne)
    · rw [Function.update_of_ne hi.ne]
    · exact (hptr _).trans (if_pos rfl)
    · rw [Function.update_self] at hc
      obtain ⟨n, hn, rfl⟩ := Option.map_eq_some_iff.1 hc
      exact hcode (by rw [hn]; rfl)

theorem Sorted.free (h : Sorted σ) (n : ℕ) : Sorted { σ with cache := σ.cache.tbFree n } := by
  rw [Sorted, JmpCache.State.tbFree]
  split
  · rename_i hlast
    obtain ⟨hpos, rfl⟩ := hlast
    have hsucc : σ.cache.nbTbs = σ.cache.nbTbs - 1 + 1 := by omega
    rw [Sorted, hsucc] at h
    exact h.pop
  · exact h

theorem sorted_step [DecidableEq Cpu] (m : Machine) (σ : State t Cpu) (op : Op t Cpu) (h : Sorted σ) :
    Sorted (step m σ op) := by
  cases op with
  | genCode cpu mode pc csBase flags cflags translation => exact h.tbGenCode cpu mode pc csBase flags cflags translation
  | free n => exact h.free n
  | tbFlush => exact layout_zero _ _ _
  | tlbFlush cpu mapping => exact h

theorem sorted_run [DecidableEq Cpu] (m : Machine) (mapping : Cpu → ℕ → Addr t → Option (PhysPage t))
    (ops : List (Op t Cpu)) : Sorted (run m mapping ops) :=
  foldl_invariant (sorted_step m) ops _ (layout_zero _ _ _)

end Sorted

/-! ### Finding a block -/

section Find

variable {σ : State t Cpu} {codeGenBuffer pc : ℕ}

theorem tbFindPc_outside (h : pc < codeGenBuffer ∨ codeGenBuffer + σ.cache.codeGenPtr ≤ pc) :
    σ.tbFindPc codeGenBuffer pc = some none := by
  rw [State.tbFindPc, if_pos h, ite_self]

/-- A program counter in the code of a completed block. -/
theorem Sorted.tbFindPc (h : Sorted σ) {n c : ℕ} (hn : n < σ.cache.nbTbs) (hc : σ.generated n = some c)
    (hlo : codeGenBuffer + (σ.cache.tbs n).tcPtr ≤ pc) (hhi : pc < codeGenBuffer + (σ.cache.tbs n).tcPtr + c) :
    σ.tbFindPc codeGenBuffer pc = some (some (n : ℤ)) ↔
      (pc = codeGenBuffer + (σ.cache.tbs n).tcPtr → ∀ i < n, (σ.cache.tbs i).tcPtr = (σ.cache.tbs n).tcPtr →
        σ.probes n < σ.probes i) := by
  have hin : ¬ (pc < codeGenBuffer ∨ codeGenBuffer + σ.cache.codeGenPtr ≤ pc) := by
    have := h.code n c hc hn
    omega
  have hafter : ∀ i : ℤ, (n : ℤ) < i → i ≤ (σ.cache.nbTbs : ℤ) - 1 → pc < codeGenBuffer + (σ.cache.tbs i.toNat).tcPtr := by
    intro i hi himax
    have := h.next n i.toNat c hc (by omega) (by omega)
    omega
  have hfind : σ.tbFindPc codeGenBuffer pc = (findLoop (fun i => codeGenBuffer + (σ.cache.tbs i).tcPtr) pc
      (σ.cache.nbTbs + 1) 0 (σ.cache.nbTbs - 1)).map some := by
    rw [State.tbFindPc, if_neg (by omega), if_neg hin]
  rw [hfind]
  by_cases heq : pc = codeGenBuffer + (σ.cache.tbs n).tcPtr
  · obtain ⟨a, han, hsame, hbefore⟩ := exists_first (fun i => (σ.cache.tbs i).tcPtr) (n := n)
      fun i j hij hj => h.sorted i j hij (by omega)
    have hequal : ∀ i : ℤ, (a : ℤ) ≤ i → i ≤ n → codeGenBuffer + (σ.cache.tbs i.toNat).tcPtr = pc := fun i hai hin => by
      rw [heq, hsame i.toNat (by omega) (by omega)]
    obtain ⟨m, hm, ham, hmn, hfirst⟩ := findLoop_equal (fun i => codeGenBuffer + (σ.cache.tbs i).tcPtr) hequal (by omega)
      (σ.cache.nbTbs + 1) 0 (σ.cache.nbTbs - 1) (by omega) (by omega)
      (fun i hi hia => by have := hbefore i.toNat (by omega); omega) hafter (by omega)
    rw [hm]
    constructor
    · intro hfound _ i hin hptr
      obtain rfl : m = n := by simpa using hfound
      have hai : a ≤ i := Nat.le_of_not_lt fun hlt => (hbefore i hlt).ne hptr
      exact hfirst i (by omega) (by omega) (by omega)
    · intro hcond
      by_contra hne
      have hlt : m.toNat < n := by
        have : m ≠ n := fun hmn => hne (by rw [hmn]; rfl)
        omega
      have hback := hcond heq m.toNat hlt (hsame m.toNat (by omega) hlt.le)
      rw [State.probes, State.probes, Int.toNat_of_nonneg (show 0 ≤ m by omega)] at hback
      exact absurd (hfirst n (by omega) (by omega) (by omega)) (Nat.lt_asymm hback)
  · refine ⟨fun _ h => absurd h heq, fun _ => ?_⟩
    rw [findLoop_between (by omega) (by omega) (fun i hi hin => ?_) hafter (by omega)]
    · rfl
    · have hle : (σ.cache.tbs i.toNat).tcPtr ≤ (σ.cache.tbs n).tcPtr := by
        rcases Nat.lt_or_eq_of_le (show i.toNat ≤ n by omega) with hlt | hi
        · exact h.sorted _ n hlt hn
        · rw [hi]
      omega

/-- The block of a host program counter: in every run, `tb_find_pc` finds nothing outside the
generated code, and in the code of a completed block it finds this block exactly when it is not
called for the first byte, or looks at the block before those given up at the same place. -/
theorem tbFindPc_iff [DecidableEq Cpu] (m : Machine) (mapping : Cpu → ℕ → Addr t → Option (PhysPage t))
    (ops : List (Op t Cpu)) (codeGenBuffer pc : ℕ) :
    (pc < codeGenBuffer ∨ codeGenBuffer + (run m mapping ops).cache.codeGenPtr ≤ pc →
      (run m mapping ops).tbFindPc codeGenBuffer pc = some none) ∧
    ∀ n c, n < (run m mapping ops).cache.nbTbs → (run m mapping ops).generated n = some c →
      codeGenBuffer + ((run m mapping ops).cache.tbs n).tcPtr ≤ pc →
      pc < codeGenBuffer + ((run m mapping ops).cache.tbs n).tcPtr + c →
      ((run m mapping ops).tbFindPc codeGenBuffer pc = some (some (n : ℤ)) ↔
        (pc = codeGenBuffer + ((run m mapping ops).cache.tbs n).tcPtr → ∀ i < n,
          ((run m mapping ops).cache.tbs i).tcPtr = ((run m mapping ops).cache.tbs n).tcPtr →
          (run m mapping ops).probes n < (run m mapping ops).probes i)) :=
  ⟨tbFindPc_outside, fun _ _ hn hc hlo hhi => (sorted_run m mapping ops).tbFindPc hn hc hlo hhi⟩

def machine : Machine := ⟨8, 4096, fun _ => 0⟩

/-- The page at `0x1000` is mapped, and no other one. -/
def onePage : Unit → ℕ → Addr target32 → Option (PhysPage target32) := fun _ _ a =>
  if a = 0x1000 then some ⟨0x1000, by decide⟩ else none

/-- An instruction of a target whose instructions cross pages starts at the end of the page and goes on in
the next one, which cannot be read, and the handler of the exception is translated. -/
def faulted : List (Op target32 Unit) :=
  [.genCode () 0 0x1ffe 0 0 0 .fault, .genCode () 0 0x1000 0 0 0 (.done 4 16 (by decide) (by decide))]

/-- After its first byte the handler is found. -/
theorem tbFindPc_iff_faulted : (run machine onePage faulted).generated 1 = some 16 ∧
    (run machine onePage faulted).tbFindPc 4096 4100 = some (some 1) :=
  ⟨rfl, (((tbFindPc_iff machine onePage faulted 4096 4100).2 1 16 (by decide) rfl (by decide) (by decide)).2
    fun heq => absurd heq (by decide))⟩

/-- For its first byte the block that was given up is found. -/
theorem faulted_finds_abandoned : 1 < (run machine onePage faulted).cache.nbTbs ∧
    (run machine onePage faulted).generated 1 = some 16 ∧ ((run machine onePage faulted).cache.tbs 1).tcPtr = 0 ∧
    (run machine onePage faulted).tbFindPc 4096 4096 = some (some 0) := by
  exact ⟨by decide, rfl, rfl, by decide⟩

end Find

end Ar7Qemu.Exec.TbFindPc
