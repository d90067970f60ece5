import Ar7Qemu.Mips.Interrupts

/-! Return from exceptions. `hflags` repeats the mode that Status and debug mode stand for; exception entry
patches it by hand and the return recomputes it. Entry and return keep it in step, and `eret` resumes what
the exception interrupted; `deret` leaves the CPU in debug mode. -/

namespace Ar7Qemu.Mips

/-- The exceptions that enter debug mode, for which `deret` is the return. -/
def Excp.isDebug : Excp → Bool
  | .dss | .dint | .dib | .dbp | .ddbs | .ddbl => true
  | _ => false

def Excp.return (e : Excp) (env : CPUState) : CPUState := if e.isDebug then helperDeret env else helperEret env

def CPUState.inDelaySlot (env : CPUState) : Bool := decide (env.hflags &&& hflagBMask ≠ 0)

/-- The flags for the mode and for access to CP0 are those that `compute_hflags` computes. -/
def CPUState.InSync (env : CPUState) : Prop :=
  env.hflags &&& (hflagKSU ||| hflagCP0) = (computeHflags env).hflags &&& (hflagKSU ||| hflagCP0)

/-- The exception and its return give back the mode, the program counter of the instruction or its branch,
and which of the two it is. -/
structure Resumes (e : Excp) (env : CPUState) : Prop where
  mode : (e.return (doInterrupt e env)).hflags &&& (hflagKSU ||| hflagCP0 ||| hflagDM) =
    env.hflags &&& (hflagKSU ||| hflagCP0 ||| hflagDM)
  pc : (e.return (doInterrupt e env)).pc = env.returnPc
  bd : (e.return (doInterrupt e env)).cp0Cause.getLsbD caBD = env.inDelaySlot

/-! ### The mode flags -/

/-- Nothing forces kernel mode. -/
def CPUState.plain (env : CPUState) : Bool :=
  !env.cp0Status.getLsbD stEXL && !env.cp0Status.getLsbD stERL && !env.debugMode

theorem and_mask_eq_iff {mask : Word} (bits : List ℕ) (hmask : ∀ i < 32, mask.getLsbD i = decide (i ∈ bits)) (hlt : ∀ i ∈ bits, i < 32)
    (h h' : Word) : h &&& mask = h' &&& mask ↔ ∀ i ∈ bits, h.getLsbD i = h'.getLsbD i := by
  constructor
  · intro heq i hi
    have hbit := congrArg (BitVec.getLsbD · i) heq
    simpa only [BitVec.getLsbD_and, hmask i (hlt i hi), decide_eq_true hi, Bool.and_true] using hbit
  · intro hbit
    apply BitVec.eq_of_getLsbD_eq
    intro i hi
    rw [BitVec.getLsbD_and, BitVec.getLsbD_and, hmask i hi]
    by_cases hm : i ∈ bits
    · rw [hbit i hm]
    · rw [decide_eq_false hm, Bool.and_false, Bool.and_false]

theorem mode_eq_iff (h h' : Word) :
    h &&& (hflagKSU ||| hflagCP0) = h' &&& (hflagKSU ||| hflagCP0) ↔
      h.getLsbD 0 = h'.getLsbD 0 ∧ h.getLsbD 1 = h'.getLsbD 1 ∧ h.getLsbD 4 = h'.getLsbD 4 := by
  rw [and_mask_eq_iff [0, 1, 4] (by decide) (by decide)]
  simp only [List.forall_mem_cons, List.not_mem_nil, false_implies, implies_true, and_true]

theorem ksu_eq_zero (h : Word) : (h &&& hflagKSU = 0) ↔ h.getLsbD 0 = false ∧ h.getLsbD 1 = false := by
  have hzero : (0 : Word) = 0 &&& hflagKSU := rfl
  rw [hzero, and_mask_eq_iff [0, 1] (by decide) (by decide)]
  simp only [List.forall_mem_cons, List.not_mem_nil, false_implies, implies_true, and_true]
  rfl

/-- The mode flags that `compute_hflags` computes. -/
theorem getLsbD_computeHflags (env : CPUState) :
    (computeHflags env).hflags.getLsbD 0 = (env.plain && env.cp0Status.getLsbD 3) ∧
      (computeHflags env).hflags.getLsbD 1 = (env.plain && env.cp0Status.getLsbD 4) ∧
      (computeHflags env).hflags.getLsbD 4 =
        (env.cp0Status.getLsbD stCU0 || !((env.plain && env.cp0Status.getLsbD 3) || (env.plain && env.cp0Status.getLsbD 4))) := by
  unfold computeHflags
  extract_lets h0 h1 h2 h3 h4 h5
  have hdm : (h0 &&& hflagDM = 0) ↔ env.debugMode = false := by
    rw [and_hflagDM_eq_zero, CPUState.debugMode]
    have hbit : h0.getLsbD 2 = env.hflags.getLsbD 2 := by
      rw [BitVec.getLsbD_and, show (~~~(_ : Word)).getLsbD 2 = true from rfl, Bool.and_true]
    rw [hbit]
  have hclear : ∀ i, i = 0 ∨ i = 1 ∨ i = 4 → h0.getLsbD i = false := by
    rintro i (rfl | rfl | rfl)
    all_goals rw [BitVec.getLsbD_and, show (~~~(_ : Word)).getLsbD _ = false from rfl, Bool.and_false]
  have hcond : (!env.cp0Status.getLsbD stEXL && !env.cp0Status.getLsbD stERL && decide (h0 &&& hflagDM = 0)) = env.plain := by
    have hnot : decide (h0 &&& hflagDM = 0) = !env.debugMode := by
      rw [Bool.eq_iff_iff, decide_eq_true_iff, hdm, Bool.not_eq_true']
    rw [CPUState.plain, hnot]
  have e1 : ∀ i, i = 0 ∨ i = 1 ∨ i = 4 →
      h1.getLsbD i = (env.plain && (env.cp0Status >>> stKSU &&& hflagKSU).getLsbD i) := by
    intro i hi
    unfold h1
    rw [hcond]
    cases env.plain
    · exact hclear i hi
    · rw [if_pos rfl, BitVec.getLsbD_or, hclear i hi, Bool.false_or, Bool.true_and]
  have e10 : h1.getLsbD 0 = (env.plain && env.cp0Status.getLsbD 3) := by
    rw [e1 0 (by simp)]
    simp [stKSU, hflagKSU]
  have e11 : h1.getLsbD 1 = (env.plain && env.cp0Status.getLsbD 4) := by
    rw [e1 1 (by simp)]
    simp [stKSU, hflagKSU]
  have e14 : h1.getLsbD 4 = false := by
    rw [e1 4 (by simp)]
    simp [hflagKSU]
  have e24 : h2.getLsbD 4 = (env.cp0Status.getLsbD stCU0 || !(h1.getLsbD 0 || h1.getLsbD 1)) := by
    unfold h2
    have hz : decide (h1 &&& hflagKSU = 0) = !(h1.getLsbD 0 || h1.getLsbD 1) := by
      rw [Bool.eq_iff_iff, decide_eq_true_iff, ksu_eq_zero, Bool.not_eq_true', Bool.or_eq_false_iff]
    rw [hz]
    split_ifs with hc
    · rw [hc, BitVec.getLsbD_or, show hflagCP0.getLsbD 4 = true from rfl, Bool.or_true]
    · rw [e14]
      simpa using hc
  have e2 : ∀ i, i = 0 ∨ i = 1 → h2.getLsbD i = h1.getLsbD i := by
    rintro i (rfl | rfl)
    all_goals exact getLsbD_ite_or _ _ _ rfl
  have e5 : ∀ i, i = 0 ∨ i = 1 ∨ i = 4 → h5.getLsbD i = h2.getLsbD i := by
    have e3 : ∀ i, i = 0 ∨ i = 1 ∨ i = 4 → h4.getLsbD i = h2.getLsbD i := by
      rintro i (rfl | rfl | rfl)
      all_goals exact (getLsbD_ite_or _ _ _ rfl).trans (getLsbD_ite_or _ _ _ rfl)
    intro i hi
    rw [← e3 i hi]
    have hcop : hflagCOP1X.getLsbD i = false := by
      rcases hi with rfl | rfl | rfl <;> rfl
    unfold h5
    split
    · exact getLsbD_ite_or _ _ _ hcop
    · split
      · exact getLsbD_ite_or _ _ _ hcop
      · split
        · exact getLsbD_ite_or _ _ _ hcop
        · rfl
  refine ⟨?_, ?_, ?_⟩
  · rw [e5 0 (by simp), e2 0 (by simp), e10]
  · rw [e5 1 (by simp), e2 1 (by simp), e11]
  · rw [e5 4 (by simp), e24, e10, e11]

theorem inSync_iff (env : CPUState) :
    env.InSync ↔ env.hflags.getLsbD 0 = (env.plain && env.cp0Status.getLsbD 3) ∧
      env.hflags.getLsbD 1 = (env.plain && env.cp0Status.getLsbD 4) ∧
      env.hflags.getLsbD 4 =
        (env.cp0Status.getLsbD stCU0 || !((env.plain && env.cp0Status.getLsbD 3) || (env.plain && env.cp0Status.getLsbD 4))) := by
  obtain ⟨h0, h1, h4⟩ := getLsbD_computeHflags env
  rw [CPUState.InSync, mode_eq_iff, h0, h1, h4]

theorem inSync_of_forced {env : CPUState} (hp : env.plain = false) (h0 : env.hflags.getLsbD 0 = false)
    (h1 : env.hflags.getLsbD 1 = false) (h4 : env.hflags.getLsbD 4 = true) : env.InSync := by
  rw [inSync_iff, hp, h0, h1, h4]
  simp

theorem inSync_congr {a b : CPUState} (h : a.InSync) (hs : b.cp0Status = a.cp0Status) (h0 : b.hflags.getLsbD 0 = a.hflags.getLsbD 0)
    (h1 : b.hflags.getLsbD 1 = a.hflags.getLsbD 1) (h2 : b.hflags.getLsbD 2 = a.hflags.getLsbD 2)
    (h4 : b.hflags.getLsbD 4 = a.hflags.getLsbD 4) : b.InSync := by
  have hp : b.plain = a.plain := by
    rw [CPUState.plain, CPUState.plain, hs, CPUState.debugMode, h2, CPUState.debugMode]
  rw [inSync_iff] at h ⊢
  rw [hp, hs, h0, h1, h4]
  exact h

theorem inSync_computeHflags (env : CPUState) : (computeHflags env).InSync := by
  have hp : (computeHflags env).plain = env.plain := by
    rw [CPUState.plain, debugMode_computeHflags]
    rfl
  obtain ⟨h0, h1, h4⟩ := getLsbD_computeHflags env
  rw [inSync_iff, hp, h0, h1, h4]
  exact ⟨rfl, rfl, rfl⟩

theorem mode_eq_of_inSync {a b : CPUState} (ha : a.InSync) (hb : b.InSync) (hp : a.plain = b.plain) (hd : a.debugMode = b.debugMode)
    (hs : ∀ i, i = 3 ∨ i = 4 ∨ i = stCU0 → a.cp0Status.getLsbD i = b.cp0Status.getLsbD i) :
    a.hflags &&& (hflagKSU ||| hflagCP0 ||| hflagDM) = b.hflags &&& (hflagKSU ||| hflagCP0 ||| hflagDM) := by
  rw [inSync_iff] at ha hb
  rw [and_mask_eq_iff [0, 1, 4, 2] (by decide) (by decide)]
  simp only [List.forall_mem_cons, List.not_mem_nil, false_implies, implies_true, and_true]
  refine ⟨?_, ?_, ?_, hd⟩
  · rw [ha.1, hb.1, hp, hs 3 (by simp)]
  · rw [ha.2.1, hb.2.1, hp, hs 4 (by simp)]
  · rw [ha.2.2, hb.2.2, hp, hs 3 (by simp), hs 4 (by simp), hs stCU0 (by simp)]

/-! ### Entry and return keep the flags in step -/

theorem inSync_helperEret (env : CPUState) : (helperEret env).InSync := inSync_computeHflags _

theorem inSync_helperDeret (env : CPUState) : (helperDeret env).InSync := inSync_computeHflags _

theorem getLsbD_patched (h m : Word) :
    ((h ||| m) &&& ~~~hflagKSU).getLsbD 0 = false ∧ ((h ||| m) &&& ~~~hflagKSU).getLsbD 1 = false ∧
      ((h ||| m) &&& ~~~hflagKSU).getLsbD 2 = (h.getLsbD 2 || m.getLsbD 2) ∧
      ((h ||| m) &&& ~~~hflagKSU).getLsbD 4 = (h.getLsbD 4 || m.getLsbD 4) := by
  simp only [BitVec.getLsbD_and, BitVec.getLsbD_or]
  refine ⟨?_, ?_, ?_, ?_⟩
  · rw [show (~~~hflagKSU).getLsbD 0 = false from rfl, Bool.and_false]
  · rw [show (~~~hflagKSU).getLsbD 1 = false from rfl, Bool.and_false]
  · rw [show (~~~hflagKSU).getLsbD 2 = true from rfl, Bool.and_true]
  · rw [show (~~~hflagKSU).getLsbD 4 = true from rfl, Bool.and_true]

theorem inSync_enterDebugMode (env : CPUState) : (enterDebugMode env).InSync := by
  obtain ⟨h0, h1, h2, h4⟩ := getLsbD_patched env.hflags (hflagDM ||| hflag64 ||| hflagCP0)
  refine inSync_of_forced ?_ h0 h1 (h4.trans (Bool.or_true _))
  have hdm : (enterDebugMode env).debugMode = true := h2.trans (Bool.or_true _)
  rw [CPUState.plain, hdm, Bool.not_true, Bool.and_false]

theorem inSync_setErrorEPC (kind : ℕ) (env : CPUState) : (setErrorEPC kind env).InSync := by
  obtain ⟨h0, h1, -, h4⟩ := getLsbD_patched
    (if env.hflags &&& hflagBMask ≠ 0 then env.hflags &&& ~~~hflagBMask else env.hflags) (hflag64 ||| hflagCP0)
  refine inSync_of_forced ?_ h0 h1 (h4.trans (Bool.or_true _))
  have herl : (setErrorEPC kind env).cp0Status.getLsbD stERL = true := by simp [setErrorEPC, bit, stERL]
  rw [CPUState.plain, herl, Bool.not_true, Bool.and_false, Bool.false_and]

theorem inSync_cpuReset (env : CPUState) : (cpuReset env).InSync := by
  have hflags : (cpuReset env).hflags = hflagCP0 := rfl
  refine inSync_of_forced ?_ (by rw [hflags]; decide) (by rw [hflags]; decide) (by rw [hflags]; decide)
  have herl : (cpuReset env).cp0Status.getLsbD stERL = true := by
    change (bit stBEV ||| bit stERL).getLsbD stERL = true
    decide
  rw [CPUState.plain, herl, Bool.not_true, Bool.and_false, Bool.false_and]

theorem getLsbD_and_not_bmask (h : Word) {i : ℕ} (hi : i < 10) : (h &&& ~~~hflagBMask).getLsbD i = h.getLsbD i := by
  have hmask : ∀ i < 10, (~~~hflagBMask).getLsbD i = true := by decide
  rw [BitVec.getLsbD_and, hmask i hi, Bool.and_true]

section SetEPC

variable {env : CPUState} (cause offset : Word)

theorem setEPC_of_clear (hexl : env.cp0Status.getLsbD stEXL = false) :
    (setEPC cause offset env).hflags = ((env.hflags ||| (hflag64 ||| hflagCP0)) &&& ~~~hflagKSU) &&& ~~~hflagBMask ∧
      (setEPC cause offset env).cp0Status = env.cp0Status ||| bit stEXL ∧ (setEPC cause offset env).cp0EPC = env.returnPc := by
  simp [setEPC, hexl]

theorem setEPC_of_set (hexl : env.cp0Status.getLsbD stEXL = true) :
    (setEPC cause offset env).hflags = env.hflags &&& ~~~hflagBMask ∧ (setEPC cause offset env).cp0Status = env.cp0Status ∧
      (setEPC cause offset env).cp0EPC = env.cp0EPC := by
  simp [setEPC, hexl]

theorem inSync_setEPC (h : env.InSync) : (setEPC cause offset env).InSync := by
  cases hexl : env.cp0Status.getLsbD stEXL
  · obtain ⟨hflags, hstatus, -⟩ := setEPC_of_clear cause offset hexl
    obtain ⟨h0, h1, -, h4⟩ := getLsbD_patched env.hflags (hflag64 ||| hflagCP0)
    refine inSync_of_forced ?_ ?_ ?_ ?_
    · have hset : (setEPC cause offset env).cp0Status.getLsbD stEXL = true := by
        rw [hstatus]
        exact getLsbD_or_bit _ (by decide)
      rw [CPUState.plain, hset, Bool.not_true, Bool.false_and, Bool.false_and]
    · rw [hflags, getLsbD_and_not_bmask _ (by decide), h0]
    · rw [hflags, getLsbD_and_not_bmask _ (by decide), h1]
    · rw [hflags, getLsbD_and_not_bmask _ (by decide), h4]
      exact Bool.or_true _
  · obtain ⟨hflags, hstatus, -⟩ := setEPC_of_set cause offset hexl
    refine inSync_congr h hstatus ?_ ?_ ?_ ?_
    all_goals rw [hflags, getLsbD_and_not_bmask _ (by decide)]

/-- The branch delay bit after entry. -/
theorem getLsbD_setEPC (hc : cause.toNat < 32) :
    (setEPC cause offset env).cp0Cause.getLsbD caBD =
      if env.cp0Status.getLsbD stEXL then env.cp0Cause.getLsbD caBD else env.inDelaySlot := by
  have hcode : (cause <<< caEC).getLsbD caBD = false := by
    rw [BitVec.getLsbD_shiftLeft]
    have hhigh : cause.getLsbD (caBD - caEC) = false := by
      rw [BitVec.getLsbD, Nat.testBit_lt_two_pow]
      exact lt_of_lt_of_le hc (by decide)
    rw [hhigh, Bool.and_false]
  have hmask : (~~~((0x1f : Word) <<< caEC)).getLsbD caBD = true := by decide
  cases hexl : env.cp0Status.getLsbD stEXL
  · have hcause : (setEPC cause offset env).cp0Cause =
        ((if env.hflags &&& hflagBMask ≠ 0 then env.cp0Cause ||| bit caBD else env.cp0Cause &&& ~~~bit caBD) &&&
          ~~~((0x1f : Word) <<< caEC)) ||| (cause <<< caEC) := by
      simp [setEPC, hexl]
    rw [hcause, BitVec.getLsbD_or, BitVec.getLsbD_and, hcode, hmask, Bool.and_true, Bool.or_false, CPUState.inDelaySlot]
    by_cases hslot : env.hflags &&& hflagBMask ≠ 0
    · rw [if_pos hslot, decide_eq_true hslot]
      exact getLsbD_or_bit _ (by decide)
    · rw [if_neg hslot, decide_eq_false hslot]
      simp [bit, caBD]
  · have hcause : (setEPC cause offset env).cp0Cause =
        (env.cp0Cause &&& ~~~((0x1f : Word) <<< caEC)) ||| (cause <<< caEC) := by
      simp [setEPC, hexl]
    rw [hcause, BitVec.getLsbD_or, BitVec.getLsbD_and, hcode, hmask, Bool.and_true, Bool.or_false]
    rfl

end SetEPC

theorem inSync_doInterrupt (e : Excp) {env : CPUState} (h : env.InSync) : (doInterrupt e env).InSync := by
  rw [doInterrupt]
  generalize (if e = .extInterrupt ∧ env.hflags &&& hflagDM ≠ 0 then Excp.dint else e) = e'
  cases e'
  case dss | dint | dib | dbp | ddbs | ddbl => exact inSync_enterDebugMode _
  case reset => exact inSync_cpuReset env
  case sreset | nmi => exact inSync_setErrorEPC _ _
  case cpu => exact inSync_setEPC _ _ (inSync_congr h rfl rfl rfl rfl rfl)
  all_goals exact inSync_setEPC _ _ h

/-! ### Return -/

/-- The exceptions at general vectors go through `set_EPC`; `CP0_Cause` may have the number of a
coprocessor in it before. -/
theorem doInterrupt_general {e : Excp} {env : CPUState} (hdebug : e.isDebug = false) (hreset : e ≠ .reset) (hsreset : e ≠ .sreset)
    (hnmi : e ≠ .nmi) (hint : e = .extInterrupt → env.debugMode = false) :
    ∃ c cause offset, cause.toNat < 32 ∧ doInterrupt e env = setEPC cause offset { env with cp0Cause := c } ∧
      ((e = .cpu → env.errorCode.toNat < 4) → c.getLsbD caBD = env.cp0Cause.getLsbD caBD) := by
  have hsame : (if e = .extInterrupt ∧ env.hflags &&& hflagDM ≠ 0 then Excp.dint else e) = e := by
    refine if_neg fun h => h.2 ?_
    rw [and_hflagDM_eq_zero]
    exact hint h.1
  rw [doInterrupt, hsame]
  cases e
  case reset => exact absurd rfl hreset
  case sreset => exact absurd rfl hsreset
  case nmi => exact absurd rfl hnmi
  case dss | dint | dib | dbp | ddbs | ddbl => exact absurd hdebug (by decide)
  case cpu =>
    refine ⟨_, _, _, ?_, rfl, fun herr => ?_⟩
    · decide
    · have hcode : (env.errorCode <<< caCE).getLsbD caBD = false := by
        have hhigh : env.errorCode.getLsbD (caBD - caCE) = false := by
          rw [BitVec.getLsbD, Nat.testBit_lt_two_pow]
          exact lt_of_lt_of_le (herr rfl) (by decide)
        rw [BitVec.getLsbD_shiftLeft, hhigh, Bool.and_false]
      rw [BitVec.getLsbD_or, BitVec.getLsbD_and, hcode, Bool.or_false,
        show (~~~((0x3 : Word) <<< caCE)).getLsbD caBD = true by decide, Bool.and_true]
  all_goals exact ⟨env.cp0Cause, _, _, by decide, rfl, fun _ => rfl⟩

theorem getLsbD_or_and_not (w m : Word) (n i : ℕ) (hm : m.getLsbD i = false) (hn : i ≠ n) :
    ((w ||| m) &&& ~~~bit n).getLsbD i = w.getLsbD i := by
  by_cases hi : i < 32
  · rw [BitVec.getLsbD_and, BitVec.getLsbD_or, hm, Bool.or_false, BitVec.getLsbD_not, bit, BitVec.getLsbD_twoPow]
    simp [hi, hn.symm]
  · rw [BitVec.getLsbD_of_ge _ _ (by omega), BitVec.getLsbD_of_ge _ _ (by omega)]

theorem getLsbD_and_not_self (w : Word) (n : ℕ) : (w &&& ~~~bit n).getLsbD n = false := by
  rw [BitVec.getLsbD_and, BitVec.getLsbD_not, bit, BitVec.getLsbD_twoPow]
  simp

section Return

variable {env : CPUState} (hexl : env.cp0Status.getLsbD stEXL = false) (herl : env.cp0Status.getLsbD stERL = false)
  (hdm : env.debugMode = false) (hsync : env.InSync)
include hexl herl hdm hsync

omit hexl herl in
theorem mode_helperEret {env' : CPUState} (hdm' : env'.debugMode = false)
    (hs : ∀ i, i = stEXL ∨ i = stERL ∨ i = 3 ∨ i = 4 ∨ i = stCU0 → (helperEret env').cp0Status.getLsbD i = env.cp0Status.getLsbD i) :
    (helperEret env').hflags &&& (hflagKSU ||| hflagCP0 ||| hflagDM) = env.hflags &&& (hflagKSU ||| hflagCP0 ||| hflagDM) := by
  have hdebug : (helperEret env').debugMode = env.debugMode := by
    rw [helperEret_debugMode, hdm', hdm]
  refine mode_eq_of_inSync (inSync_helperEret env') hsync ?_ hdebug fun i hi => hs i (Or.inr (Or.inr hi))
  rw [CPUState.plain, CPUState.plain, hdebug, hs stEXL (by simp), hs stERL (by simp)]

theorem eret_setEPC (cause offset : Word) (hc : cause.toNat < 32) :
    (helperEret (setEPC cause offset env)).hflags &&& (hflagKSU ||| hflagCP0 ||| hflagDM) =
        env.hflags &&& (hflagKSU ||| hflagCP0 ||| hflagDM) ∧
      (helperEret (setEPC cause offset env)).pc = env.returnPc ∧
      (helperEret (setEPC cause offset env)).cp0Cause.getLsbD caBD = env.inDelaySlot := by
  obtain ⟨hflags, hstatus, hepc⟩ := setEPC_of_clear cause offset hexl
  obtain ⟨-, -, h2, -⟩ := getLsbD_patched env.hflags (hflag64 ||| hflagCP0)
  have herl' : (setEPC cause offset env).cp0Status.getLsbD stERL = false := by
    rw [hstatus, BitVec.getLsbD_or, herl]
    rfl
  refine ⟨mode_helperEret hdm hsync ?_ fun i hi => ?_, ?_, ?_⟩
  · rw [CPUState.debugMode, hflags, getLsbD_and_not_bmask _ (by decide), h2]
    exact (Bool.or_false _).trans hdm
  · rw [helperEret_of_not_erl herl', hstatus]
    rcases hi with rfl | hi
    · rw [getLsbD_and_not_self, hexl]
    · refine getLsbD_or_and_not _ _ _ _ ?_ ?_
      · rcases hi with rfl | rfl | rfl | rfl <;> rfl
      · rcases hi with rfl | rfl | rfl | rfl <;> decide
  · have hpc : (helperEret (setEPC cause offset env)).pc = (setEPC cause offset env).cp0EPC := by
      unfold helperEret
      rw [if_neg (by simp [herl'])]
      rfl
    rw [hpc, hepc]
  · rw [helperEret_cp0Cause, getLsbD_setEPC cause offset hc, if_neg (by simp [hexl])]

theorem eret_setErrorEPC :
    (helperEret (setErrorEPC stNMI env)).hflags &&& (hflagKSU ||| hflagCP0 ||| hflagDM) =
        env.hflags &&& (hflagKSU ||| hflagCP0 ||| hflagDM) ∧
      (helperEret (setErrorEPC stNMI env)).pc = env.returnPc ∧
      (helperEret (setErrorEPC stNMI env)).cp0Cause.getLsbD caBD = false := by
  have hstatus : (setErrorEPC stNMI env).cp0Status = env.cp0Status ||| (bit stNMI ||| (bit stERL ||| bit stBEV)) :=
    BitVec.or_assoc _ _ _
  have herl' : (setErrorEPC stNMI env).cp0Status.getLsbD stERL = true := by
    rw [hstatus, BitVec.getLsbD_or, show (bit stNMI ||| (bit stERL ||| bit stBEV)).getLsbD stERL = true by decide, Bool.or_true]
  have hcause : (setErrorEPC stNMI env).cp0Cause = env.cp0Cause &&& ~~~bit caBD := by
    change (if env.cp0Status.getLsbD stEXL then env.cp0Cause else env.cp0Cause &&& ~~~bit caBD) = _
    rw [if_neg (by simp [hexl])]
  obtain ⟨-, -, h2, -⟩ := getLsbD_patched
    (if env.hflags &&& hflagBMask ≠ 0 then env.hflags &&& ~~~hflagBMask else env.hflags) (hflag64 ||| hflagCP0)
  refine ⟨mode_helperEret hdm hsync ?_ fun i hi => ?_, ?_, ?_⟩
  · refine h2.trans ((Bool.or_false _).trans ?_)
    split_ifs
    · rw [getLsbD_and_not_bmask _ (by decide)]
      exact hdm
    · exact hdm
  · rw [helperEret_of_erl herl', hstatus]
    by_cases hi2 : i = stERL
    · rw [hi2, getLsbD_and_not_self, herl]
    · refine getLsbD_or_and_not _ _ _ _ ?_ hi2
      rcases hi with rfl | rfl | rfl | rfl | rfl
      · decide
      · exact absurd rfl hi2
      · decide
      · decide
      · decide
  · have hpc : (helperEret (setErrorEPC stNMI env)).pc = (setErrorEPC stNMI env).cp0ErrorEPC := by
      unfold helperEret
      rw [if_pos herl']
      rfl
    rw [hpc]
    rfl
  · rw [helperEret_cp0Cause, hcause, getLsbD_and_not_self]

omit hexl herl hdm hsync in
theorem debugMode_helperDeret (h : env.debugMode = true) : (helperDeret env).debugMode = true := by
  change (computeHflags _).debugMode = true
  rw [debugMode_computeHflags]
  change (env.hflags &&& hflagDM).getLsbD 2 = true
  rw [BitVec.getLsbD_and, show hflagDM.getLsbD 2 = true from rfl, Bool.and_true]
  exact h

omit hexl herl hdm hsync in
theorem debugMode_doInterrupt (env : CPUState) {e : Excp} (h : e.isDebug = true) : (doInterrupt e env).debugMode = true := by
  have hsame : (if e = .extInterrupt ∧ env.hflags &&& hflagDM ≠ 0 then Excp.dint else e) = e :=
    if_neg fun hc => by rw [hc.1] at h; exact Bool.noConfusion h
  have henter : ∀ env' : CPUState, (enterDebugMode env').debugMode = true := fun env' =>
    (getLsbD_patched env'.hflags (hflagDM ||| hflag64 ||| hflagCP0)).2.2.1.trans (Bool.or_true _)
  rw [doInterrupt, hsame]
  cases e
  case dss | dint | dib | dbp | ddbs | ddbl => exact henter _
  all_goals exact absurd h (by decide)

/-- Exactly the exceptions of debug mode, and an NMI in a delay slot, do not resume. -/
theorem resumes_iff {e : Excp} (hreset : e ≠ .reset) (hsreset : e ≠ .sreset) :
    Resumes e env ↔ e.isDebug = false ∧ (e = .nmi → env.inDelaySlot = false) := by
  constructor
  · intro h
    have hd : e.isDebug = false := by
      by_contra hdebug
      have hdebug : e.isDebug = true := by simpa using hdebug
      have hmode := h.mode
      rw [Excp.return, if_pos hdebug, and_mask_eq_iff [0, 1, 4, 2] (by decide) (by decide)] at hmode
      have hkept := (debugMode_helperDeret (debugMode_doInterrupt env hdebug)).symm.trans (hmode 2 (by simp))
      exact absurd (hkept.trans hdm) (by decide)
    refine ⟨hd, fun hnmi => ?_⟩
    subst hnmi
    have hbd := h.bd
    rw [Excp.return, if_neg (by decide)] at hbd
    exact hbd.symm.trans (eret_setErrorEPC hexl herl hdm hsync).2.2
  · rintro ⟨hd, hslot⟩
    have hret : ∀ env', e.return env' = helperEret env' := fun env' => by rw [Excp.return, if_neg (by simp [hd])]
    by_cases hnmi : e = .nmi
    · subst hnmi
      obtain ⟨hmode, hpc, hbd⟩ := eret_setErrorEPC hexl herl hdm hsync
      exact ⟨hmode, hpc, hbd.trans (hslot rfl).symm⟩
    · obtain ⟨c, cause, offset, hc, heq, -⟩ := doInterrupt_general hd hreset hsreset hnmi fun _ => hdm
      have hsync' : ({ env with cp0Cause := c } : CPUState).InSync := inSync_congr hsync rfl rfl rfl rfl rfl
      have hexl' : ({ env with cp0Cause := c } : CPUState).cp0Status.getLsbD stEXL = false := hexl
      obtain ⟨hmode, hpc, hbd⟩ := eret_setEPC hexl' herl hdm hsync' cause offset hc
      refine ⟨?_, ?_, ?_⟩
      · rw [hret, heq]
        exact hmode
      · rw [hret, heq]
        exact hpc
      · rw [hret, heq]
        exact hbd

end Return

/-- A nested exception keeps where to return to. -/
theorem nested_doInterrupt {e : Excp} {env : CPUState} (hreset : e ≠ .reset) (hsreset : e ≠ .sreset)
    (hexl : env.cp0Status.getLsbD stEXL = true) (herr : e = .cpu → env.errorCode.toNat < 4) :
    (doInterrupt e env).cp0EPC = env.cp0EPC ∧ (doInterrupt e env).cp0Cause.getLsbD caBD = env.cp0Cause.getLsbD caBD := by
  have hdebug : ∀ env' : CPUState, env'.cp0Status = env.cp0Status → env'.cp0EPC = env.cp0EPC → env'.cp0Cause = env.cp0Cause →
      (enterDebugMode env').cp0EPC = env.cp0EPC ∧ (enterDebugMode env').cp0Cause.getLsbD caBD = env.cp0Cause.getLsbD caBD := by
    intro env' hs he hc
    refine ⟨he, ?_⟩
    change (if env'.cp0Status.getLsbD stEXL then env'.cp0Cause else env'.cp0Cause &&& ~~~bit caBD).getLsbD caBD = _
    rw [hs, if_pos hexl, hc]
  by_cases hint : e = .extInterrupt ∧ env.debugMode = true
  · have hdint : (if e = .extInterrupt ∧ env.hflags &&& hflagDM ≠ 0 then Excp.dint else e) = .dint := by
      refine if_pos ⟨hint.1, fun hz => ?_⟩
      rw [and_hflagDM_eq_zero] at hz
      exact absurd (hz.symm.trans hint.2) (by decide)
    rw [doInterrupt, hdint]
    exact hdebug _ rfl rfl rfl
  have hint : e = .extInterrupt → env.debugMode = false := fun h => by simpa [h] using hint
  have hsame : (if e = .extInterrupt ∧ env.hflags &&& hflagDM ≠ 0 then Excp.dint else e) = e :=
    if_neg fun h => h.2 ((and_hflagDM_eq_zero _).mpr (hint h.1))
  cases hd : e.isDebug
  · by_cases hnmi : e = .nmi
    · subst hnmi
      refine ⟨rfl, ?_⟩
      change (if env.cp0Status.getLsbD stEXL then env.cp0Cause else env.cp0Cause &&& ~~~bit caBD).getLsbD caBD = _
      rw [if_pos hexl]
    · obtain ⟨c, cause, offset, hc, heq, hbd⟩ := doInterrupt_general hd hreset hsreset hnmi hint
      rw [heq, getLsbD_setEPC cause offset hc]
      have hexl' : ({ env with cp0Cause := c } : CPUState).cp0Status.getLsbD stEXL = true := hexl
      refine ⟨(setEPC_of_set cause offset hexl').2.2, ?_⟩
      exact (if_pos hexl).trans (hbd herr)
  · rw [doInterrupt, hsame]
    cases e
    case dss | dint | dib | dbp | ddbs | ddbl => exact hdebug _ rfl rfl rfl
    all_goals exact absurd hd (by decide)

/-- Exceptions and returns: which of them resume, what a nested exception keeps, and that the mode flags
are always those of Status and debug mode. -/
theorem exceptions_resume (e : Excp) (env : CPUState) :
    (e ≠ .reset → e ≠ .sreset → env.cp0Status.getLsbD stEXL = false → env.cp0Status.getLsbD stERL = false →
      env.debugMode = false → env.InSync →
      (Resumes e env ↔ e.isDebug = false ∧ (e = .nmi → env.inDelaySlot = false))) ∧
    (e ≠ .reset → e ≠ .sreset → env.cp0Status.getLsbD stEXL = true → (e = .cpu → env.errorCode.toNat < 4) →
      (doInterrupt e env).cp0EPC = env.cp0EPC ∧ (doInterrupt e env).cp0Cause.getLsbD caBD = env.cp0Cause.getLsbD caBD) ∧
    (env.InSync → (doInterrupt e env).InSync) ∧ (helperEret env).InSync ∧ (helperDeret env).InSync :=
  ⟨fun hreset hsreset hexl herl hdm hsync => resumes_iff hexl herl hdm hsync hreset hsreset,
    fun hreset hsreset hexl herr => nested_doInterrupt hreset hsreset hexl herr,
    inSync_doInterrupt e, inSync_helperEret env, inSync_helperDeret env⟩

def userMode : CPUState := { powerOn with cp0Status := 0x10, hflags := 0x0002 }

/-- A breakpoint of the debugger in user mode, returned from with `deret`. -/
theorem breakpoint_not_resumed :
    ¬∀ (e : Excp) (env : CPUState), e ≠ .reset → e ≠ .sreset → env.cp0Status.getLsbD stEXL = false →
      env.cp0Status.getLsbD stERL = false → env.debugMode = false → env.InSync → Resumes e env := by
  intro h
  have hsync : userMode.InSync := by
    rw [CPUState.InSync]
    decide +kernel
  have hmode := (h .dbp userMode (by decide) (by decide) (by decide) (by decide) (by decide) hsync).mode
  revert hmode
  decide +kernel

end Ar7Qemu.Mips
