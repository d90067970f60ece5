import Ar7Qemu.Mips.Timer

/-! When the timer interrupt is raised. A run keeps, besides the state, whether the running Count has
equalled Compare since Compare was written. The host timer and the comparison on reads of Count raise the
interrupt exactly then, unless a due timer is overtaken by a write or a read takes a Compare that lies
behind Count for one that Count has passed. -/

namespace Ar7Qemu.Mips.TimerState

variable (c : Clock)

def period : ℕ := c.ticksPerSec / timerFreq

/-- The running Count equals Compare at a time. -/
def Matches (s : TimerState) (t : Time) : Prop := s.disabled = false ∧ s.cp0Count + c.ticks t = s.cp0Compare

instance (s : TimerState) (t : Time) : Decidable (Matches c s t) := inferInstanceAs (Decidable (_ ∧ _))

/-- Whether Count has equalled Compare since Compare was written, after an operation. -/
def matchedAfter (s : TimerState) (m : Prop) : Op → Prop
  | .advance t => m ∨ ∃ u : Time, s.now.val ≤ u.val ∧ u.val ≤ t.val ∧ Matches c s u
  | .writeCompare v => Matches c (storeCompare c v s) s.now
  | op => m ∨ Matches c (s.step c op) s.now

/-- The runs from `cpu_mips_clock_init` whose steps meet a condition. -/
inductive Reaches (P : TimerState → Op → Prop) (s₀ : TimerState) : TimerState → Prop → Prop
  | init : Reaches P s₀ (clockInit c s₀) (Matches c (clockInit c s₀) s₀.now)
  | step {s : TimerState} {m : Prop} (op : Op) (h : Reaches P s₀ s m) (ha : s.Allowed op) (hp : P s op) :
    Reaches P s₀ (s.step c op) (matchedAfter c s m op)

/-- The interrupt input, and `Cause.TI` on release 2, tell whether Count has equalled Compare. -/
def Signals (s : TimerState) (m : Prop) : Prop :=
  (s.line = true ↔ m) ∧ (s.isR2 = true → (s.cpu.cp0Cause.getLsbD caTI = true ↔ m))

/-- Expire times stay within the range of the clock. -/
def InRange (t : Time) : Prop := t.val + 2 ^ 32 * period c < 2 ^ 63

instance (t : Time) : Decidable (InRange c t) := inferInstanceAs (Decidable (_ < _))

/-- The steps that no race of the timer with the guest can spoil. -/
def Ok (s : TimerState) : Op → Prop
  | .advance t => InRange c t ∧ (s.disabled = false → s.line = false →
      ∀ e : Time, s.timer = some (e.val : ℤ) → tickCount c e = tickCount c t → e.val ≤ t.val)
  | .readCount => s.disabled = false → 0 < (s.cp0Count + c.ticks s.now - s.cp0Compare).toInt → s.triggered = false →
      s.line = true ∨ s.Due
  | .writeCount _ => s.disabled = false → s.line = true ∨ ¬s.Due
  | .writeCause arg1 => s.isR2 = true → s.disabled = false → arg1.getLsbD caDC = true → s.line = true ∨ ¬s.Due
  | _ => True

/-! ### The host timer -/

section Arming

variable (hdvd : timerFreq ∣ c.ticksPerSec)
include hdvd

theorem period_pos : 0 < period c := Nat.div_pos (Nat.le_of_dvd c.pos hdvd) (by decide)

theorem tickCount_eq (t : Time) : tickCount c t = t.val / period c := by
  obtain ⟨k, hk⟩ := hdvd
  rw [tickCount, period, hk, Nat.mul_div_cancel_left k (by decide), Nat.mul_comm timerFreq k,
    Nat.mul_div_mul_right _ _ (by decide)]

theorem muldiv64_wait {wait : ℕ} (hw : wait < 2 ^ 32) : muldiv64 wait c.ticksPerSec timerFreq = wait * period c := by
  have hlt := c.lt
  have hmul : wait * c.ticksPerSec < 2 ^ 32 * 2 ^ 32 := Nat.mul_lt_mul'' hw hlt
  rw [muldiv64_eq (by omega) c.lt (by decide) (by decide), Nat.mul_div_assoc _ hdvd, period,
    Nat.mod_eq_of_lt (lt_of_le_of_lt (Nat.mul_le_mul_left _ (Nat.div_le_self _ _)) (by omega))]

/-- The timer is set for the next moment at which Count equals Compare. -/
structure Armed (s : TimerState) (e : Time) : Prop where
  timer : s.timer = some (e.val : ℤ)
  hits : s.cp0Count + c.ticks e = s.cp0Compare
  next : tickCount c e < tickCount c s.now + 2 ^ 32
  later : e.val ≤ s.now.val ∨ tickCount c s.now < tickCount c e

omit hdvd in
theorem Armed.due_iff {s : TimerState} {e : Time} (h : Armed c s e) : s.Due ↔ e.val ≤ s.now.val := by
  rw [Due, h.timer]
  simp

omit hdvd in
theorem Armed.same {s s' : TimerState} {e : Time} (h : Armed c s e) (ht : s'.timer = s.timer) (hcount : s'.cp0Count = s.cp0Count)
    (hcompare : s'.cp0Compare = s.cp0Compare) (hnow : s'.now = s.now) : Armed c s' e :=
  ⟨ht.trans h.timer, by rw [hcount, hcompare]; exact h.hits, by rw [hnow]; exact h.next, by rw [hnow]; exact h.later⟩

omit hdvd in
theorem Armed.not_matches {s : TimerState} {e : Time} (h : Armed c s e) {u : Time} (hn : s.now.val ≤ u.val)
    (hu : tickCount c u < tickCount c e) : ¬Matches c s u := by
  rintro ⟨-, hm⟩
  have hle := tickCount_mono c hn
  have hnext := h.next
  have heq : c.ticks u = c.ticks e := by
    have := hm.trans h.hits.symm
    exact (BitVec.add_right_inj _).mp this
  rw [ticks_eq, ticks_eq] at heq
  have hmod := congrArg BitVec.toNat heq
  rw [BitVec.toNat_ofNat, BitVec.toNat_ofNat] at hmod
  omega

theorem timerUpdate_armed (s : TimerState) (hr : InRange c s.now) :
    ∃ e : Time, Armed c (timerUpdate c s) e ∧ (e.val ≤ s.now.val ↔ s.cp0Count + c.ticks s.now = s.cp0Compare) := by
  have hpos := period_pos c hdvd
  obtain ⟨wait, hwait⟩ : ∃ wait, wait = s.cp0Compare - s.cp0Count - c.ticks s.now := ⟨_, rfl⟩
  have hlt : wait.toNat < 2 ^ 32 := wait.isLt
  have hmul : wait.toNat * period c ≤ 2 ^ 32 * period c := Nat.mul_le_mul_right _ (le_of_lt hlt)
  have hnext : s.now.val + wait.toNat * period c < 2 ^ 63 := lt_of_le_of_lt (Nat.add_le_add_left hmul _) hr
  obtain ⟨e, he⟩ : ∃ e : Time, e.val = s.now.val + wait.toNat * period c := ⟨⟨_, hnext⟩, rfl⟩
  have htick : tickCount c e = tickCount c s.now + wait.toNat := by
    rw [tickCount_eq c hdvd, tickCount_eq c hdvd, he, Nat.add_mul_div_right _ _ hpos]
  have hsum : s.cp0Count + c.ticks s.now + wait = s.cp0Compare := by
    rw [hwait]
    grind
  have hzero : wait.toNat = 0 ↔ s.cp0Count + c.ticks s.now = s.cp0Compare := by
    rw [← hsum]
    constructor
    · intro h
      rw [BitVec.eq_of_toNat_eq (y := 0#32) h, BitVec.add_zero]
    · intro h
      have hw : wait = 0#32 := (BitVec.add_right_inj (s.cp0Count + c.ticks s.now)).mp (h.symm.trans (BitVec.add_zero _).symm)
      rw [hw]
      rfl
  refine ⟨e, ⟨?_, ?_, ?_, ?_⟩, ?_⟩
  · have htimer : (timerUpdate c s).timer =
        some (BitVec.ofNat 64 (s.now.val + muldiv64 wait.toNat c.ticksPerSec timerFreq)).toInt := by
      rw [hwait]
      rfl
    rw [htimer, muldiv64_wait c hdvd hlt, ← he, BitVec.toInt_ofNat', Int.bmod_eq_of_le (by omega) (by omega)]
  · rw [timerUpdate_cp0Count, timerUpdate_cp0Compare, ← hsum, ticks_eq, htick, BitVec.ofNat_add, ← ticks_eq, BitVec.ofNat_toNat,
      BitVec.setWidth_eq, BitVec.add_assoc]
  · rw [timerUpdate_now, htick]
    omega
  · rw [timerUpdate_now, htick]
    by_cases h : wait.toNat = 0
    · exact Or.inl (by rw [he, h, Nat.zero_mul, Nat.add_zero])
    · exact Or.inr (by omega)
  · rw [← hzero, he]
    constructor
    · intro h
      by_contra hne
      have := Nat.mul_pos (Nat.pos_of_ne_zero hne) hpos
      omega
    · intro h
      rw [h, Nat.zero_mul, Nat.add_zero]

end Arming

/-! ### What the operations do to the interrupt -/

theorem timerCb_of_disabled {s : TimerState} (hd : s.disabled = true) : timerCb c s = s := by
  rw [timerCb, if_pos hd]

theorem timerCb_line {s : TimerState} (hd : s.disabled = false) : (timerCb c s).line = true := by
  rw [timerCb, if_neg (by simp [hd])]
  rfl

theorem timerCb_ti {s : TimerState} (hd : s.disabled = false) (hr : s.isR2 = true) :
    (timerCb c s).cpu.cp0Cause.getLsbD caTI = true := by
  rw [timerCb, if_neg (by simp [hd]), setTriggered_cpu, getLsbD_setIrq _ _ (by decide), getLsbD_setTI, if_pos]
  exact ⟨by rw [setCount_isR2, timerUpdate_isR2, setCount_isR2]; exact hr, rfl⟩

theorem storeCompare_line (v : Word) (s : TimerState) : (storeCompare c v s).line = false := rfl

theorem storeCompare_ti (v : Word) {s : TimerState} (hr : s.isR2 = true) :
    (storeCompare c v s).cpu.cp0Cause.getLsbD caTI = false := by
  rw [storeCompare, setTriggered_cpu, getLsbD_setIrq _ _ (by decide), getLsbD_setTI, if_pos]
  refine ⟨?_, rfl⟩
  split_ifs
  · exact hr
  · exact hr

theorem storeCompare_running (v : Word) {s : TimerState} (hd : s.disabled = false) :
    (storeCompare c v s).timer = (timerUpdate c { s with cp0Compare := v }).timer ∧ (storeCompare c v s).cp0Compare = v := by
  have hd' : ¬({ s with cp0Compare := v } : TimerState).disabled = true := by
    change ¬s.disabled = true
    simp [hd]
  simp only [storeCompare, if_neg hd', setTriggered_timer, setIrq_timer, setTI_timer, setTriggered_cp0Compare, setIrq_cp0Compare,
    setTI_cp0Compare, timerUpdate_cp0Compare, and_self]

theorem storeCount_cpu (v : Word) (s : TimerState) : (storeCount c v s).cpu = s.cpu := by
  rw [storeCount]
  split_ifs
  · rw [setCount_cpu]
  · rw [setTriggered_cpu, timerUpdate_cpu, setCount_cpu]

theorem storeCount_line (v : Word) (s : TimerState) : (storeCount c v s).line = s.line := by
  rw [storeCount]
  split_ifs
  · rw [setCount_line]
  · rw [setTriggered_line, timerUpdate_line, setCount_line]

theorem storeCount_cp0Compare (v : Word) (s : TimerState) : (storeCount c v s).cp0Compare = s.cp0Compare := by
  rw [storeCount]
  split_ifs
  · rw [setCount_cp0Compare]
  · rw [setTriggered_cp0Compare, timerUpdate_cp0Compare, setCount_cp0Compare]

theorem mtc0Cause_ti (arg1 : Word) (env : CPUState) :
    (helperMtc0Cause arg1 env).cp0Cause.getLsbD caTI = env.cp0Cause.getLsbD caTI := by
  rw [helperMtc0Cause_cp0Cause]
  cases env.insnFlags.getLsbD isaMips32R2 <;> simp [caTI, caDC, caPCI, bit]

theorem mtc0Cause_insnFlags (arg1 : Word) (env : CPUState) : (helperMtc0Cause arg1 env).insnFlags = env.insnFlags := by
  simp only [helperMtc0Cause]
  split_ifs
  · rw [updateIrq_insnFlags]
  · rw [updateIrq_insnFlags]
  · rfl
  · rfl

/-! ### The invariant -/

/-- The interrupt is raised only after a match; while the counter is stopped, it is raised after every
match; while it runs and the interrupt is not raised, the timer waits for the match. -/
structure Inv (s : TimerState) (m : Prop) : Prop where
  range : InRange c s.now
  ti : s.isR2 = true → s.cpu.cp0Cause.getLsbD caTI = s.line
  matched : s.line = true → m
  stopped : s.disabled = true → m → s.line = true
  armed : s.disabled = false → s.line = false → ∃ e, Armed c s e ∧ (m ↔ e.val ≤ s.now.val)

theorem Inv.signals {s : TimerState} {m : Prop} (h : Inv c s m) (hd : ¬s.Due) : Signals s m := by
  have hline : s.line = true ↔ m := by
    refine ⟨h.matched, fun hm => ?_⟩
    cases hdis : s.disabled
    · by_contra hl
      obtain ⟨e, he, hme⟩ := h.armed hdis (by simpa using hl)
      exact hd ((he.due_iff c).mpr (hme.mp hm))
    · exact h.stopped hdis hm
  exact ⟨hline, fun hr => by rw [h.ti hr]; exact hline⟩

theorem Inv.matched_of_due {s : TimerState} {m : Prop} (h : Inv c s m) (hd : s.disabled = false) (hdue : s.line = true ∨ s.Due) : m := by
  cases hl : s.line
  · obtain ⟨e, he, hme⟩ := h.armed hd hl
    rw [hl] at hdue
    exact hme.mpr ((he.due_iff c).mp (hdue.resolve_left (by decide)))
  · exact h.matched hl

theorem Inv.matched_of_matches {s : TimerState} {m : Prop} (h : Inv c s m) (hm : Matches c s s.now) : m := by
  cases hl : s.line
  · obtain ⟨e, he, hme⟩ := h.armed hm.1 hl
    rcases he.later with hle | hlt
    · exact hme.mpr hle
    · exact absurd hm (he.not_matches c le_rfl hlt)
  · exact h.matched hl

theorem Inv.not_matched {s : TimerState} {m : Prop} (h : Inv c s m) (hl : s.line = false) (hd : s.disabled = true ∨ ¬s.Due) : ¬m := by
  intro hm
  cases hdis : s.disabled
  · obtain ⟨e, he, hme⟩ := h.armed hdis hl
    rw [hdis] at hd
    exact hd.resolve_left (by decide) ((he.due_iff c).mpr (hme.mp hm))
  · rw [h.stopped hdis hm] at hl
    exact Bool.noConfusion hl

theorem inv_timerCb {s : TimerState} {m : Prop} (hrange : InRange c s.now) (hd : s.disabled = false) (hm : m) : Inv c (timerCb c s) m := by
  have hs := sameCount_timerCb c s
  refine ⟨hs.now ▸ hrange, fun hr => ?_, fun _ => hm, fun _ _ => timerCb_line c hd, fun _ hl => ?_⟩
  · rw [timerCb_line c hd]
    exact timerCb_ti c hd (hs.isR2 ▸ hr)
  · rw [timerCb_line c hd] at hl
    exact Bool.noConfusion hl

section Steps

variable (hdvd : timerFreq ∣ c.ticksPerSec)
include hdvd

theorem inv_storeCount (v : Word) {s : TimerState} {m : Prop} (hrange : InRange c s.now)
    (hti : s.isR2 = true → s.cpu.cp0Cause.getLsbD caTI = s.line) (hmatched : s.line = true → m)
    (hstopped : s.disabled = true → m → s.line = true) (hnot : s.disabled = false → s.line = false → ¬m) :
    Inv c (storeCount c v s) (m ∨ Matches c (storeCount c v s) s.now) := by
  have hdis := storeCount_disabled c v s
  have hnow := storeCount_now c v s
  have hline := storeCount_line c v s
  have hcpu := storeCount_cpu c v s
  refine ⟨hnow ▸ hrange, fun hr => ?_, fun hl => Or.inl (hmatched (hline ▸ hl)), fun hd hm => ?_, fun hd hl => ?_⟩
  · rw [hcpu, hline]
    rw [isR2, hcpu] at hr
    exact hti hr
  · rw [hline]
    rcases hm with hm | hm
    · exact hstopped (hdis ▸ hd) hm
    · rw [hm.1] at hd
      exact Bool.noConfusion hd
  · have hd0 : s.disabled = false := hdis ▸ hd
    obtain ⟨e, he, hiff⟩ := timerUpdate_armed c hdvd (s.setCount (v - c.ticks s.now)) (by rw [setCount_now]; exact hrange)
    have hcount := storeCount_cp0Count c v s
    rw [if_neg (by simp [hd0])] at hcount
    have htimer : (storeCount c v s).timer = (timerUpdate c (s.setCount (v - c.ticks s.now))).timer := by
      rw [storeCount, if_neg (by simp [hd0]), setTriggered_timer]
    have harmed := he.same c htimer (by rw [hcount, timerUpdate_cp0Count, setCount_cp0Count])
      (by rw [storeCount_cp0Compare, timerUpdate_cp0Compare, setCount_cp0Compare]) (by rw [hnow, timerUpdate_now, setCount_now])
    refine ⟨e, harmed, ?_⟩
    rw [setCount_now, setCount_cp0Count, setCount_cp0Compare] at hiff
    rw [hnow, hiff, Matches, hcount, storeCount_cp0Compare]
    constructor
    · rintro (hm | hm)
      · exact absurd hm (hnot hd0 (hline ▸ hl))
      · exact hm.2
    · exact fun hm => Or.inr ⟨hd, hm⟩

theorem inv_storeCompare (v : Word) {s : TimerState} (hrange : InRange c s.now) :
    Inv c (storeCompare c v s) (Matches c (storeCompare c v s) s.now) := by
  have hs := sameCount_storeCompare c v s
  have hline := storeCompare_line c v s
  refine ⟨hs.now ▸ hrange, fun hr => ?_, fun hl => ?_, fun hd hm => ?_, fun hd _ => ?_⟩
  · rw [hline]
    exact storeCompare_ti c v (hs.isR2 ▸ hr)
  · rw [hline] at hl
    exact Bool.noConfusion hl
  · rw [hm.1] at hd
    exact Bool.noConfusion hd
  · obtain ⟨htimer, hcompare⟩ := storeCompare_running c v (hs.disabled ▸ hd)
    obtain ⟨e, he, hiff⟩ := timerUpdate_armed c hdvd { s with cp0Compare := v } hrange
    have harmed := he.same c htimer hs.count hcompare hs.now
    refine ⟨e, harmed, ?_⟩
    rw [hs.now, hiff, Matches, hs.count, hcompare]
    exact ⟨fun hm => hm.2, fun hm => ⟨hd, hm⟩⟩

omit hdvd in
theorem inv_advance {s : TimerState} {m : Prop} (h : Inv c s m) {t : Time} (ht : s.now.val ≤ t.val) (hok : s.Ok c (.advance t)) :
    Inv c (s.step c (.advance t)) (matchedAfter c s m (.advance t)) := by
  refine ⟨hok.1, h.ti, fun hl => Or.inl (h.matched hl), fun hd hm => ?_, fun hd hl => ?_⟩
  · rcases hm with hm | ⟨u, -, -, hu⟩
    · exact h.stopped hd hm
    · exact absurd (hu.1.symm.trans hd) (by decide)
  · obtain ⟨e, he, hme⟩ := h.armed hd hl
    have hmono := tickCount_mono c ht
    have hnext := he.next
    have hle : t.val < e.val → tickCount c t < tickCount c e := fun hlt =>
      lt_of_le_of_ne (tickCount_mono c (le_of_lt hlt)) fun heq =>
        absurd (hok.2 hd hl e he.timer heq.symm) (by omega)
    refine ⟨e, ⟨he.timer, he.hits, ?_, ?_⟩, ?_⟩
    · change tickCount c e < tickCount c t + 2 ^ 32
      omega
    · change e.val ≤ t.val ∨ tickCount c t < tickCount c e
      exact (le_or_gt e.val t.val).imp_right hle
    · change m ∨ _ ↔ e.val ≤ t.val
      constructor
      · rintro (hm | ⟨u, hnu, hut, hu⟩)
        · exact le_trans (hme.mp hm) ht
        · by_contra hlt
          have hcount := tickCount_mono c hut
          have hlate := hle (by omega)
          exact he.not_matches c hnu (by omega) hu
      · intro hle
        by_cases hnow : e.val ≤ s.now.val
        · exact Or.inl (hme.mpr hnow)
        · exact Or.inr ⟨e, by omega, hle, hd, he.hits⟩

omit hdvd in
theorem Inv.same {s s' : TimerState} {m : Prop} (h : Inv c s m) (hs : SameCount s s') (hline : s'.line = s.line)
    (hcompare : s'.cp0Compare = s.cp0Compare) (htimer : s'.disabled = false → s'.timer = s.timer)
    (hti : s'.cpu.cp0Cause.getLsbD caTI = s.cpu.cp0Cause.getLsbD caTI) : Inv c s' m := by
  refine ⟨hs.now ▸ h.range, fun hr => ?_, fun hl => h.matched (hline ▸ hl), fun hd hm => ?_, fun hd hl => ?_⟩
  · rw [hti, hline]
    exact h.ti (hs.isR2 ▸ hr)
  · rw [hline]
    exact h.stopped (hs.disabled ▸ hd) hm
  · obtain ⟨e, he, hme⟩ := h.armed (hs.disabled ▸ hd) (hline ▸ hl)
    exact ⟨e, he.same c (htimer hd) hs.count hcompare hs.now, hs.now ▸ hme⟩

omit hdvd in
theorem Inv.or_matches {s s' : TimerState} {m : Prop} (h : Inv c s' m) (hnow : s'.now = s.now) : Inv c s' (m ∨ Matches c s' s.now) := by
  have hiff : m ∨ Matches c s' s.now ↔ m := or_iff_left_of_imp fun hm => h.matched_of_matches c (hnow ▸ hm)
  rw [hiff]
  exact h

omit hdvd in
theorem inv_getCount {s : TimerState} {m : Prop} (h : Inv c s m) (hok : s.Ok c .readCount) : Inv c (getCount c s).2 m := by
  simp only [getCount]
  by_cases hd : s.disabled = true
  · rw [if_pos hd]
    exact h
  have hd' : s.disabled = false := by simpa using hd
  rw [if_neg hd]
  split_ifs with hcb
  · exact inv_timerCb c h.range hd' (h.matched_of_due c hd' (hok hd' hcb.1 hcb.2))
  · exact h

omit hdvd in
theorem inv_runTimer {s : TimerState} {m : Prop} (h : Inv c s m) : Inv c (runTimer c s) m := by
  rw [runTimer]
  split_ifs with hdue
  · cases hd : s.disabled
    · have hm := h.matched_of_due c hd (Or.inr hdue)
      exact inv_timerCb c h.range hd hm
    · rw [timerCb_of_disabled c (show ({ s with timer := none } : TimerState).disabled = true from hd)]
      refine ⟨h.range, h.ti, h.matched, h.stopped, fun hd' => ?_⟩
      exact absurd (hd'.symm.trans hd) (by decide)
  · exact h

theorem inv_mtc0Cause {s : TimerState} {m : Prop} (h : Inv c s m) (arg1 : Word) (hok : s.Ok c (.writeCause arg1)) :
    Inv c (mtc0Cause c arg1 s) (m ∨ Matches c (mtc0Cause c arg1 s) s.now) := by
  simp only [mtc0Cause]
  generalize hs' : ({ s with cpu := helperMtc0Cause arg1 s.cpu } : TimerState) = s'
  have hd' : s'.disabled = if s.isR2 then arg1.getLsbD caDC else s.disabled := by
    rw [← hs']
    exact disabled_mtc0Cause arg1 s
  have hisR2 : s'.isR2 = s.isR2 := by
    rw [← hs', isR2, isR2, mtc0Cause_insnFlags]
  have hti : s'.cpu.cp0Cause.getLsbD caTI = s.cpu.cp0Cause.getLsbD caTI := by
    rw [← hs']
    exact mtc0Cause_ti arg1 s.cpu
  have hline : s'.line = s.line := by rw [← hs']
  have hnow : s'.now = s.now := by rw [← hs']
  have hti' : s'.isR2 = true → s'.cpu.cp0Cause.getLsbD caTI = s'.line := by
    rw [hisR2, hti, hline]
    exact h.ti
  by_cases hne : s.disabled ≠ s'.disabled
  · have hr2 : s.isR2 = true := by
      by_contra hr
      exact hne (by rw [hd', if_neg hr])
    rw [hr2, if_pos rfl] at hd'
    rw [if_pos hne]
    cases hold : s.disabled
    · -- the counter stops
      have hnew : s'.disabled = true := by simpa [hold] using hne.symm
      have hstopped : m → s.line = true := by
        intro hm
        by_contra hl
        have hnot := (hok hr2 hold (hd'.symm.trans hnew)).resolve_left hl
        exact h.not_matched c (by simpa using hl) (Or.inr hnot) hm
      rw [if_pos hnew]
      refine Inv.or_matches c ⟨?_, ?_, ?_, ?_, ?_⟩ (by rw [stopCount, setCount_now, hnow])
      · rw [stopCount, setCount_now, hnow]
        exact h.range
      · rw [stopCount, setCount_isR2, setCount_cpu, setCount_line]
        exact hti'
      · rw [stopCount, setCount_line, hline]
        exact h.matched
      · rw [stopCount, setCount_line, hline]
        exact fun _ => hstopped
      · rw [stopCount, setCount_disabled, hnew]
        exact fun hf => Bool.noConfusion hf
    · -- the counter starts
      have hnew : s'.disabled = false := by simpa [hold] using hne.symm
      rw [if_neg (by simp [hnew]), startCount, ← hnow]
      refine inv_storeCount c hdvd _ (hnow ▸ h.range) hti' ?_ ?_ ?_
      · rw [hline]
        exact h.matched
      · rw [hnew]
        exact fun hf => Bool.noConfusion hf
      · rw [hline]
        exact fun _ hl => h.not_matched c hl (Or.inl hold)
  · have hsame : s'.disabled = s.disabled := (not_not.mp hne).symm
    rw [if_neg hne]
    refine Inv.or_matches c (h.same c ⟨?_, hsame, hnow, hisR2⟩ hline ?_ (fun _ => ?_) hti) hnow
    · rw [← hs']
    · rw [← hs']
    · rw [← hs']

theorem inv_step {s : TimerState} {m : Prop} (h : Inv c s m) (op : Op) (ha : s.Allowed op) (hok : s.Ok c op) :
    Inv c (s.step c op) (matchedAfter c s m op) := by
  cases op with
  | advance t => exact inv_advance c h ha hok
  | readCount => exact (inv_getCount c h hok).or_matches c (sameCount_getCount c s).now
  | writeCount v =>
    refine inv_storeCount c hdvd v h.range h.ti h.matched h.stopped fun hd hl => ?_
    have hnot : ¬s.Due := (hok hd).resolve_left (by simp [hl])
    exact h.not_matched c hl (Or.inr hnot)
  | writeCompare v => exact inv_storeCompare c hdvd v h.range
  | writeCause arg1 => exact inv_mtc0Cause c hdvd h arg1 hok
  | runTimer => exact (inv_runTimer c h).or_matches c (sameCount_runTimer c s).now

/-- The state that `cpu_mips_clock_init` finds: no interrupt is raised. -/
structure Fresh (s₀ : TimerState) : Prop where
  range : InRange c s₀.now
  line : s₀.line = false
  ti : s₀.isR2 = true → s₀.cpu.cp0Cause.getLsbD caTI = false

theorem inv_clockInit {s₀ : TimerState} (h : Fresh c s₀) : Inv c (clockInit c s₀) (Matches c (clockInit c s₀) s₀.now) := by
  have hinv := inv_storeCount c hdvd (m := False) 1 (s := { s₀ with timer := none, cp0Compare := 0 }) h.range
    (fun hr => (h.ti hr).trans h.line.symm) (fun hl => absurd (h.line.symm.trans hl) (by decide)) (fun _ hf => hf.elim) fun _ _ hf => hf
  rw [false_or] at hinv
  exact hinv

theorem inv_reaches {s₀ s : TimerState} {m : Prop} (h₀ : Fresh c s₀) (h : Reaches c (Ok c) s₀ s m) : Inv c s m := by
  induction h with
  | init => exact inv_clockInit c hdvd h₀
  | step op _ ha hp ih => exact inv_step c hdvd ih op ha hp

/-- In every run whose steps do not race with a due timer, whenever no timer is due, the interrupt is
raised if and only if the running Count has equalled Compare since Compare was written. -/
theorem timer_interrupt {s₀ s : TimerState} {m : Prop} (h₀ : Fresh c s₀) (h : Reaches c (Ok c) s₀ s m) (hd : ¬s.Due) : Signals s m :=
  (inv_reaches c hdvd h₀ h).signals c hd

end Steps

/-- Compare is set two ticks ahead, the ticks pass and the timer runs. -/
def fired : TimerState :=
  (((clockInit timerBase atPowerOn).step timerBase (.writeCompare 3)).step timerBase (.advance ⟨200, by decide⟩)).step timerBase .runTimer

theorem timer_interrupt_fired : fired.line = true ∧ ∃ m, Reaches timerBase (Ok timerBase) atPowerOn fired m ∧ Signals fired m := by
  have hfresh : Fresh timerBase atPowerOn := ⟨by decide +kernel, rfl, fun h => absurd h (by decide)⟩
  have htimer : ((clockInit timerBase atPowerOn).step timerBase (.writeCompare 3)).timer = some 200 := by decide +kernel
  have hrun : ∃ m, Reaches timerBase (Ok timerBase) atPowerOn fired m := by
    refine ⟨_, .step .runTimer (.step (.advance ⟨200, by decide⟩) (.step (.writeCompare 3) .init trivial trivial) (Nat.zero_le 200)
      ⟨by decide +kernel, fun _ _ e he _ => ?_⟩) trivial trivial⟩
    have heq : (200 : ℤ) = e.val := Option.some.inj (htimer.symm.trans he)
    change e.val ≤ 200
    omega
  obtain ⟨m, hm⟩ := hrun
  exact ⟨by decide +kernel, m, hm, timer_interrupt timerBase (by decide) hfresh hm (by decide +kernel)⟩

/-- Compare is set behind Count and Count is read. -/
def spurious : TimerState := ((clockInit timerBase atPowerOn).step timerBase (.writeCompare 0)).step timerBase .readCount

/-- The read raises the interrupt although Count has not been equal to Compare. -/
theorem read_raises_interrupt :
    ¬∀ s m, Reaches timerBase (fun _ _ => True) atPowerOn s m → ¬s.Due → Signals s m := by
  intro h
  have hinit : Reaches timerBase (fun _ _ => True) atPowerOn _ _ := .init
  have hsig := h spurious _ (.step .readCount (.step (.writeCompare 0) hinit trivial trivial) trivial trivial) (by decide +kernel)
  have hline : spurious.line = true := by decide +kernel
  have hwrite : ¬Matches timerBase (storeCompare timerBase 0 (clockInit timerBase atPowerOn)) atPowerOn.now := by decide +kernel
  rcases hsig.1.mp hline with hm | hm
  · exact hwrite hm
  · exact absurd hm (by decide +kernel)

end Ar7Qemu.Mips.TimerState
