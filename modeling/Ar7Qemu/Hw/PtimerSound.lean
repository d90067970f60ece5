import Ar7Qemu.Hw.Ptimer

/-! When the reads of a countdown timer are consistent. The divisor is the period rounded up at the scale of
the time that is left, unless it wraps; so a read is a scaled quotient, and the reads until the next event
are as monotone as that. -/

namespace Ar7Qemu.Ptimer

open Lib PtimerState

variable {period : BitVec 64} {periodFrac : BitVec 32} {count start now : BitVec 64} {s : PtimerState} {shift : ℕ}

/-! ### The divisor -/

theorem size_of_bounds {m n : ℕ} (hlow : 2 ^ n ≤ m) (hhigh : m < 2 ^ (n + 1)) : m.size = n + 1 :=
  Nat.le_antisymm (Nat.size_le.2 hhigh) (Nat.lt_size.2 hlow)

theorem period_shift (h : shift ≤ clz64 period) : period.toNat * 2 ^ shift + 2 ^ shift ≤ 2 ^ 64 := by
  have hlt := Nat.lt_size_self period.toNat
  have hsize : period.toNat.size ≤ 64 := Nat.size_le.2 period.isLt
  unfold clz64 at h
  calc period.toNat * 2 ^ shift + 2 ^ shift = (period.toNat + 1) * 2 ^ shift := by ring
    _ ≤ 2 ^ period.toNat.size * 2 ^ shift := Nat.mul_le_mul_right _ hlt
    _ = 2 ^ (period.toNat.size + shift) := (Nat.pow_add _ _ _).symm
    _ ≤ 2 ^ 64 := Nat.pow_le_pow_right Nat.two_pos (by omega)

theorem toNat_shiftLeft_or {x y : BitVec 64} (hx : x.toNat * 2 ^ shift < 2 ^ 64) (hy : y.toNat < 2 ^ shift) :
    (x <<< shift ||| y).toNat = x.toNat * 2 ^ shift + y.toNat := by
  rw [BitVec.toNat_or, BitVec.toNat_shiftLeft, Nat.mod_eq_of_lt (by rw [Nat.shiftLeft_eq]; exact hx),
    ← Nat.shiftLeft_add_eq_or_of_lt hy, Nat.shiftLeft_eq]

theorem divisor_exact (h : 32 ≤ shift) : ScaledDiv.divisor 32 (fixedPeriod period periodFrac) shift =
    period.toNat * 2 ^ shift + periodFrac.toNat * 2 ^ (shift - 32) := by
  have hpow : 2 ^ shift = 2 ^ 32 * 2 ^ (shift - 32) := by
    rw [← Nat.pow_add]
    congr 1
    omega
  have heq : fixedPeriod period periodFrac * 2 ^ shift =
      2 ^ 32 * (period.toNat * 2 ^ shift + periodFrac.toNat * 2 ^ (shift - 32)) := by
    unfold fixedPeriod
    rw [hpow]
    ring
  refine Nat.le_antisymm (ScaledDiv.divisor_le_iff.2 heq.le) ?_
  have hle := ScaledDiv.divisor_le_iff.1 (le_refl (ScaledDiv.divisor 32 (fixedPeriod period periodFrac) shift))
  rw [heq] at hle
  exact Nat.le_of_mul_le_mul_left hle (Nat.two_pow_pos 32)

theorem divisor_rounded (h : shift < 32) : ScaledDiv.divisor 32 (fixedPeriod period periodFrac) shift =
    period.toNat * 2 ^ shift + periodFrac.toNat / 2 ^ (32 - shift) +
      if periodFrac.toNat * 2 ^ shift % 2 ^ 32 = 0 then 0 else 1 := by
  have hdiv : periodFrac.toNat / 2 ^ (32 - shift) = periodFrac.toNat * 2 ^ shift / 2 ^ 32 := by
    have hpow : 2 ^ 32 = 2 ^ (32 - shift) * 2 ^ shift := by
      rw [← Nat.pow_add]
      congr 1
      omega
    rw [hpow, Nat.mul_div_mul_right _ _ (Nat.two_pow_pos shift)]
  have heq : fixedPeriod period periodFrac * 2 ^ shift =
      period.toNat * 2 ^ shift * 2 ^ 32 + periodFrac.toNat * 2 ^ shift := by
    unfold fixedPeriod
    ring
  rw [hdiv, ScaledDiv.divisor, heq, Nat.ceilDiv_eq_add_pred_div]
  split_ifs <;> omega

theorem toNat_scaledPeriod (h : shift ≤ clz64 period) :
    (scaledPeriod period periodFrac shift).toNat =
      ScaledDiv.divisor 32 (fixedPeriod period periodFrac) shift % 2 ^ 64 := by
  have hfit := period_shift h
  have hpos := Nat.two_pow_pos shift
  have hfrac := periodFrac.isLt
  have hx : period.toNat * 2 ^ shift < 2 ^ 64 := by omega
  unfold scaledPeriod
  dsimp only
  by_cases h32 : 32 ≤ shift
  · have hpow : 2 ^ shift = 2 ^ 32 * 2 ^ (shift - 32) := by
      rw [← Nat.pow_add]
      congr 1
      omega
    have hlow : periodFrac.toNat * 2 ^ (shift - 32) < 2 ^ shift := by
      rw [hpow]
      exact Nat.mul_lt_mul_of_pos_right hfrac (Nat.two_pow_pos _)
    have hy : (periodFrac.setWidth 64 <<< (shift - 32)).toNat = periodFrac.toNat * 2 ^ (shift - 32) := by
      have hset : (periodFrac.setWidth 64).toNat = periodFrac.toNat := by
        rw [BitVec.toNat_setWidth, Nat.mod_eq_of_lt (by omega)]
      rw [BitVec.toNat_shiftLeft, hset, Nat.shiftLeft_eq, Nat.mod_eq_of_lt (by omega)]
    rw [if_pos h32, toNat_shiftLeft_or hx (by rw [hy]; exact hlow), hy, divisor_exact h32, Nat.mod_eq_of_lt (by omega)]
  · have hlt : shift < 32 := not_le.1 h32
    have hlow : periodFrac.toNat / 2 ^ (32 - shift) < 2 ^ shift := by
      rw [Nat.div_lt_iff_lt_mul (Nat.two_pow_pos _), ← Nat.pow_add, show shift + (32 - shift) = 32 by omega]
      exact hfrac
    have hbase : (if shift ≠ 0 then period <<< shift ||| (periodFrac >>> (32 - shift)).setWidth 64 else period <<< shift).toNat =
        period.toNat * 2 ^ shift + periodFrac.toNat / 2 ^ (32 - shift) := by
      have hy : ((periodFrac >>> (32 - shift)).setWidth 64).toNat = periodFrac.toNat / 2 ^ (32 - shift) := by
        rw [BitVec.toNat_setWidth, BitVec.toNat_ushiftRight, Nat.shiftRight_eq_div_pow, Nat.mod_eq_of_lt (by omega)]
      split_ifs with hzero
      · rw [toNat_shiftLeft_or hx (by rw [hy]; exact hlow), hy]
      · rw [not_not] at hzero
        subst hzero
        rw [BitVec.toNat_shiftLeft, Nat.shiftLeft_eq, Nat.mod_eq_of_lt hx, Nat.div_eq_of_lt hfrac, Nat.add_zero]
    have hround : periodFrac <<< shift ≠ 0 ↔ ¬ periodFrac.toNat * 2 ^ shift % 2 ^ 32 = 0 := by
      rw [not_iff_not, ← BitVec.toNat_inj, BitVec.toNat_shiftLeft, Nat.shiftLeft_eq]
      rfl
    rw [if_neg h32, divisor_rounded hlt]
    by_cases hr : periodFrac.toNat * 2 ^ shift % 2 ^ 32 = 0
    · rw [if_neg (not_not.2 hr ∘ hround.1), if_pos hr, hbase, Nat.add_zero, Nat.mod_eq_of_lt (by omega)]
    · rw [if_pos (hround.2 hr), if_neg hr, BitVec.toNat_add, hbase]
      rfl

theorem divisor_le (h : shift ≤ clz64 period) : ScaledDiv.divisor 32 (fixedPeriod period periodFrac) shift ≤ 2 ^ 64 := by
  have hfit := period_shift h
  have hfrac := periodFrac.isLt
  rw [ScaledDiv.divisor_le_iff]
  calc fixedPeriod period periodFrac * 2 ^ shift ≤ (period.toNat * 2 ^ 32 + 2 ^ 32) * 2 ^ shift :=
        Nat.mul_le_mul_right _ (Nat.add_le_add_left hfrac.le _)
    _ = 2 ^ 32 * (period.toNat * 2 ^ shift + 2 ^ shift) := by ring
    _ ≤ 2 ^ 32 * 2 ^ 64 := Nat.mul_le_mul_left _ hfit

theorem divisor_lt (h : shift < clz64 period) : ScaledDiv.divisor 32 (fixedPeriod period periodFrac) shift < 2 ^ 64 := by
  have hfit := period_shift (show shift + 1 ≤ clz64 period from h)
  have hfrac := periodFrac.isLt
  have hle : ScaledDiv.divisor 32 (fixedPeriod period periodFrac) shift ≤ 2 ^ 63 := by
    rw [ScaledDiv.divisor_le_iff]
    calc fixedPeriod period periodFrac * 2 ^ shift ≤ (period.toNat * 2 ^ 32 + 2 ^ 32) * 2 ^ shift :=
          Nat.mul_le_mul_right _ (Nat.add_le_add_left hfrac.le _)
      _ = 2 ^ 32 * (period.toNat * 2 ^ shift + 2 ^ shift) := by ring
      _ ≤ 2 ^ 32 * 2 ^ 63 := by
        have hdouble : period.toNat * 2 ^ (shift + 1) + 2 ^ (shift + 1) = 2 * (period.toNat * 2 ^ shift + 2 ^ shift) := by
          ring
        exact Nat.mul_le_mul_left _ (by omega)
  omega

theorem divisor_lt_of_no_wrap (hwrap : ScaledDiv.divisor 32 (fixedPeriod period periodFrac) (clz64 period) < 2 ^ 64)
    (h : shift ≤ clz64 period) : ScaledDiv.divisor 32 (fixedPeriod period periodFrac) shift < 2 ^ 64 := by
  rcases Nat.lt_or_eq_of_le h with hlt | rfl
  · exact divisor_lt hlt
  · exact hwrap

theorem fixedPeriod_pos (h : period ≠ 0) : 0 < fixedPeriod period periodFrac := by
  have hpos : 0 < period.toNat := Nat.pos_of_ne_zero fun heq => h (BitVec.eq_of_toNat_eq heq)
  unfold fixedPeriod
  omega

/-! ### One read -/

theorem passed_iff (next now : BitVec 64) : 0 < (now - next).toInt ↔ 2 ^ 63 < (next - now).toNat := by
  have hneg : now - next = -(next - now) := (neg_sub next now).symm
  have hlt := (next - now).isLt
  rw [hneg, BitVec.toInt_eq_toNat_cond, BitVec.toNat_neg]
  split_ifs <;> omega

section Read

variable (henabled : s.enabled ≠ 0) (hperiod : s.period ≠ 0)

include henabled in
theorem read_passed (h : 2 ^ 63 < (s.nextEvent - now).toNat) : s.ptimerGetCount now = some 0 := by
  unfold ptimerGetCount
  rw [if_pos henabled, if_pos (.inl ((passed_iff _ _).2 h))]

include henabled hperiod

theorem read_eq (h : (s.nextEvent - now).toNat ≤ 2 ^ 63) : s.ptimerGetCount now =
    if scaledPeriod s.period s.periodFrac (ScaledDiv.scale 64 (clz64 s.period) (s.nextEvent - now).toNat) = 0 then none
    else some (((s.nextEvent - now) <<< ScaledDiv.scale 64 (clz64 s.period) (s.nextEvent - now).toNat) /
      scaledPeriod s.period s.periodFrac (ScaledDiv.scale 64 (clz64 s.period) (s.nextEvent - now).toNat)) := by
  have hpassed : ¬ (0 < (now - s.nextEvent).toInt ∨ s.period = 0) := by
    rintro (hlt | heq)
    · exact absurd ((passed_iff _ _).1 hlt) (not_lt.2 h)
    · exact hperiod heq
  have hshift : (if clz64 (s.nextEvent - now) < clz64 s.period then clz64 (s.nextEvent - now) else clz64 s.period) =
      ScaledDiv.scale 64 (clz64 s.period) (s.nextEvent - now).toNat := by
    unfold ScaledDiv.scale clz64
    split_ifs <;> omega
  unfold ptimerGetCount
  rw [if_pos henabled, if_neg hpassed]
  dsimp only
  rw [hshift]

variable (now) in
theorem read_quotient (h : (s.nextEvent - now).toNat ≤ 2 ^ 63)
    (hwrap : ScaledDiv.divisor 32 (fixedPeriod s.period s.periodFrac) (clz64 s.period) < 2 ^ 64) :
    ∃ c, s.ptimerGetCount now = some c ∧
      c.toNat = ScaledDiv.quotient 64 32 (fixedPeriod s.period s.periodFrac) (clz64 s.period) (s.nextEvent - now).toNat := by
  have hscale : ScaledDiv.scale 64 (clz64 s.period) (s.nextEvent - now).toNat ≤ clz64 s.period := Nat.min_le_right _ _
  have hscale' : ScaledDiv.scale 64 (clz64 s.period) (s.nextEvent - now).toNat ≤ clz64 (s.nextEvent - now) := Nat.min_le_left _ _
  have hlt := divisor_lt_of_no_wrap hwrap hscale
  have hdiv : (scaledPeriod s.period s.periodFrac _).toNat = _ := toNat_scaledPeriod hscale
  rw [Nat.mod_eq_of_lt hlt] at hdiv
  have hq : 0 < fixedPeriod s.period s.periodFrac := fixedPeriod_pos hperiod
  have hpos := ScaledDiv.divisor_pos (f := 32) (s := ScaledDiv.scale 64 (clz64 s.period) (s.nextEvent - now).toNat) hq
  have hne : ¬ scaledPeriod s.period s.periodFrac (ScaledDiv.scale 64 (clz64 s.period) (s.nextEvent - now).toNat) = 0 := by
    intro heq
    rw [heq] at hdiv
    exact absurd hpos (Nat.not_lt_of_le (Nat.le_of_eq hdiv.symm))
  have hfit := period_shift hscale'
  have hone := Nat.two_pow_pos (ScaledDiv.scale 64 (clz64 s.period) (s.nextEvent - now).toNat)
  refine ⟨_, (read_eq henabled hperiod h).trans (if_neg hne), ?_⟩
  rw [BitVec.toNat_udiv, hdiv, BitVec.toNat_shiftLeft, Nat.shiftLeft_eq, Nat.mod_eq_of_lt (by omega)]
  rfl

theorem read_event (h : s.nextEvent - now = 0) (hsome : s.ptimerGetCount now ≠ none) :
    ScaledDiv.divisor 32 (fixedPeriod s.period s.periodFrac) (clz64 s.period) < 2 ^ 64 := by
  have hzero : (s.nextEvent - now).toNat = 0 := by
    rw [h]
    rfl
  have hscale : ScaledDiv.scale 64 (clz64 s.period) 0 = clz64 s.period := by
    rw [ScaledDiv.scale, Nat.size_zero]
    exact Nat.min_eq_right (Nat.sub_le _ _)
  have hread : s.ptimerGetCount now = _ := read_eq henabled hperiod (by rw [hzero]; exact Nat.zero_le _)
  rw [hzero, hscale] at hread
  refine lt_of_le_of_ne (divisor_le le_rfl) fun heq => hsome ?_
  have hdiv : (scaledPeriod s.period s.periodFrac (clz64 s.period)).toNat = _ := toNat_scaledPeriod (le_refl _)
  rw [heq, Nat.mod_self] at hdiv
  rw [hread]
  exact if_pos (BitVec.eq_of_toNat_eq hdiv)

end Read

/-! ### A count that is set -/

/-- A reload of a count sets the next event. -/
theorem reload_eq (hdelta : s.delta ≠ 0) (hperiod : s.period ≠ 0) : s.ptimerReload =
    { s with
      lastEvent := s.nextEvent
      nextEvent := s.nextEvent + interval s.period s.periodFrac s.delta
      timer := some (s.nextEvent + interval s.period s.periodFrac s.delta) } := by
  have hnone : ¬ (s.delta = 0 ∨ s.period = 0) := not_or.2 ⟨hdelta, hperiod⟩
  unfold ptimerReload
  dsimp only
  rw [if_neg hdelta, if_neg hnone]
  by_cases hfrac : s.periodFrac = 0
  · have hshift : (BitVec.setWidth 64 (0 : BitVec 32) * s.delta) >>> 32 = 0 := by simp
    have hwhole : interval s.period s.periodFrac s.delta = s.delta * s.period := by
      unfold interval
      rw [hfrac, hshift, add_zero]
    rw [if_neg (not_not.2 hfrac), hwhole]
  · rw [if_pos hfrac]
    unfold interval
    rw [BitVec.add_assoc]

theorem setCount_eq (henabled : s.enabled ≠ 0) (hperiod : s.period ≠ 0) (hcount : count ≠ 0) :
    s.ptimerSetCount count start = { s with
      delta := count, lastEvent := start, nextEvent := start + interval s.period s.periodFrac count
      timer := some (start + interval s.period s.periodFrac count) } := by
  unfold ptimerSetCount
  dsimp only
  rw [if_pos henabled]
  exact reload_eq (s := { s with delta := count, nextEvent := start }) hcount hperiod

theorem toNat_interval (hwhole : count.toNat * period.toNat < 2 ^ 63) (hfrac : count.toNat * periodFrac.toNat < 2 ^ 63) :
    (interval period periodFrac count).toNat = count.toNat * period.toNat + count.toNat * periodFrac.toNat / 2 ^ 32 := by
  have hlt := periodFrac.isLt
  have hset : (periodFrac.setWidth 64).toNat = periodFrac.toNat := by
    rw [BitVec.toNat_setWidth, Nat.mod_eq_of_lt (by omega)]
  unfold interval
  rw [BitVec.toNat_add, BitVec.toNat_ushiftRight, BitVec.toNat_mul, BitVec.toNat_mul, hset, Nat.shiftRight_eq_div_pow,
    Nat.mul_comm periodFrac.toNat, Nat.mod_eq_of_lt (show count.toNat * period.toNat < 2 ^ 64 by omega),
    Nat.mod_eq_of_lt (show count.toNat * periodFrac.toNat < 2 ^ 64 by omega), Nat.mod_eq_of_lt (by omega)]

theorem mul_fixedPeriod (m : ℕ) (period : BitVec 64) (periodFrac : BitVec 32) :
    m * fixedPeriod period periodFrac = m * period.toNat * 2 ^ 32 + m * periodFrac.toNat := by
  unfold fixedPeriod
  ring

theorem interval_mul_le (hwhole : count.toNat * period.toNat < 2 ^ 63) (hfrac : count.toNat * periodFrac.toNat < 2 ^ 63) :
    (interval period periodFrac count).toNat * 2 ^ 32 ≤ count.toNat * fixedPeriod period periodFrac := by
  rw [toNat_interval hwhole hfrac, mul_fixedPeriod]
  omega

theorem interval_read_le (hperiod : period ≠ 0) (hwhole : count.toNat * period.toNat < 2 ^ 63)
    (hfrac : count.toNat * periodFrac.toNat < 2 ^ 63) {c : BitVec 64} {left : ℕ}
    (hleft : left ≤ (interval period periodFrac count).toNat)
    (hquot : c.toNat = ScaledDiv.quotient 64 32 (fixedPeriod period periodFrac) (clz64 period) left) :
    (interval period periodFrac c).toNat ≤ left := by
  have hq : 0 < fixedPeriod period periodFrac := fixedPeriod_pos hperiod
  have hmul := ScaledDiv.quotient_mul_le (w := 64) (f := 32) (c := clz64 period) (r := left) hq
  rw [← hquot] at hmul
  have hle : c.toNat ≤ count.toNat := by
    refine Nat.le_of_mul_le_mul_right ?_ hq
    exact hmul.trans ((Nat.mul_le_mul_right _ hleft).trans (interval_mul_le hwhole hfrac))
  rw [toNat_interval ((Nat.mul_le_mul_right _ hle).trans_lt hwhole) ((Nat.mul_le_mul_right _ hle).trans_lt hfrac)]
  rw [mul_fixedPeriod] at hmul
  omega

theorem left_eq (start interval : BitVec 64) {e : ℕ} (he : e ≤ interval.toNat) :
    (start + interval - (start + BitVec.ofNat 64 e)).toNat = interval.toNat - e := by
  have hlt := interval.isLt
  have hdiff : start + interval - (start + BitVec.ofNat 64 e) = interval - BitVec.ofNat 64 e := add_sub_add_left_eq_sub _ _ _
  rw [hdiff, BitVec.toNat_sub_of_le, BitVec.toNat_ofNat, Nat.mod_eq_of_lt (by omega)]
  rw [BitVec.le_def, BitVec.toNat_ofNat, Nat.mod_eq_of_lt (by omega)]
  exact he

section Count

variable (henabled : s.enabled ≠ 0) (hperiod : s.period ≠ 0) (hcount : count ≠ 0)

variable (start) in
include henabled hperiod hcount in
theorem read_after (hwrap : ScaledDiv.divisor 32 (fixedPeriod s.period s.periodFrac) (clz64 s.period) < 2 ^ 64)
    (hle : (interval s.period s.periodFrac count).toNat ≤ 2 ^ 63) {e : ℕ}
    (he : e ≤ (interval s.period s.periodFrac count).toNat) :
    ∃ c, (s.ptimerSetCount count start).ptimerGetCount (start + BitVec.ofNat 64 e) = some c ∧
      c.toNat = ScaledDiv.quotient 64 32 (fixedPeriod s.period s.periodFrac) (clz64 s.period)
        ((interval s.period s.periodFrac count).toNat - e) := by
  have hleft := left_eq start (interval s.period s.periodFrac count) he
  rw [setCount_eq henabled hperiod hcount, ← hleft]
  refine read_quotient _ henabled hperiod ?_ hwrap
  dsimp only
  rw [hleft]
  exact (Nat.sub_le _ _).trans hle

include henabled hperiod hcount in
/-- The reads after a count was set are consistent just where its interval is safe. -/
theorem reads_iff (hwhole : count.toNat * s.period.toNat < 2 ^ 63) (hfrac : count.toNat * s.periodFrac.toNat < 2 ^ 63) :
    Reads (s.ptimerSetCount count start) start count ↔ Safe s.period s.periodFrac count := by
  have hq : 0 < fixedPeriod s.period s.periodFrac := fixedPeriod_pos hperiod
  have hpos : 0 < count.toNat := Nat.pos_of_ne_zero fun heq => hcount (BitVec.eq_of_toNat_eq heq)
  have hset : s.ptimerSetCount count start = _ := setCount_eq henabled hperiod hcount
  have hnext : (s.ptimerSetCount count start).nextEvent - start = interval s.period s.periodFrac count := by
    rw [hset]
    exact add_sub_cancel_left _ _
  have hpred : (count - 1).toNat = count.toNat - 1 := by
    rw [BitVec.toNat_sub_of_le]
    · rfl
    · rw [BitVec.le_def]
      exact hpos
  have hstart : start + BitVec.ofNat 64 0 = start := BitVec.add_zero start
  constructor
  · intro h
    have hwrap : ScaledDiv.divisor 32 (fixedPeriod s.period s.periodFrac) (clz64 s.period) < 2 ^ 64 := by
      have hevent := h.defined _ (le_refl _)
      rw [hnext, BitVec.ofNat_toNat, BitVec.setWidth_eq, hset] at hevent
      exact read_event (s := { s with
        delta := count, lastEvent := start, nextEvent := start + interval s.period s.periodFrac count
        timer := some (start + interval s.period s.periodFrac count) }) henabled hperiod (BitVec.sub_self _) hevent
    have hle : (interval s.period s.periodFrac count).toNat ≤ 2 ^ 63 := by
      by_contra hlt
      have hread : (s.ptimerSetCount count start).ptimerGetCount start = some 0 := by
        rw [hset]
        refine read_passed henabled ?_
        dsimp only
        rw [add_sub_cancel_left]
        exact not_le.1 hlt
      have hone : count.toNat ≤ 1 := by
        rcases h.first with heq | heq
        · rw [hread] at heq
          exact absurd (Option.some.inj heq).symm hcount
        · rw [hread] at heq
          have hzero := congrArg BitVec.toNat (Option.some.inj heq)
          rw [hpred] at hzero
          change 0 = count.toNat - 1 at hzero
          omega
      have hlt' := s.periodFrac.isLt
      have heq : count.toNat = 1 := Nat.le_antisymm hone hpos
      rw [toNat_interval hwhole hfrac, heq] at hlt
      rw [heq] at hwhole
      omega
    have hread := fun e he => read_after start henabled hperiod hcount hwrap hle (e := e) he
    refine ⟨hle, hwrap, ?_, ?_⟩
    · obtain ⟨c, hc, hquot⟩ := hread 0 (Nat.zero_le _)
      rw [hstart] at hc
      rw [Nat.sub_zero] at hquot
      refine (ScaledDiv.le_quotient_iff hq).1 ?_
      rw [← hquot]
      rcases h.first with heq | heq
      · rw [hc] at heq
        rw [Option.some.inj heq]
        exact Nat.sub_le _ _
      · rw [hc] at heq
        rw [Option.some.inj heq, hpred]
    · intro j hj hpow
      have hmono := (ScaledDiv.quotient_mono_iff (w := 64) (f := 32) (c := clz64 s.period) hq hle).1 ?_
      · exact hmono j hj (hj.trans_le (Nat.sub_le _ _)) hpow
      · intro r r' hr hr'
        obtain ⟨c, hc, hquot⟩ := hread ((interval s.period s.periodFrac count).toNat - r) (Nat.sub_le _ _)
        obtain ⟨c', hc', hquot'⟩ := hread ((interval s.period s.periodFrac count).toNat - r') (Nat.sub_le _ _)
        rw [Nat.sub_sub_self (hr.trans hr')] at hquot
        rw [Nat.sub_sub_self hr'] at hquot'
        rw [← hquot, ← hquot', ← BitVec.le_def]
        refine h.antitone _ _ (Nat.sub_le_sub_left hr _) ?_ _ _ hc' hc
        rw [hnext]
        exact Nat.sub_le _ _
  · intro h
    have hread := fun e he => read_after start henabled hperiod hcount h.no_wrap h.interval_le (e := e) he
    have hmono := (ScaledDiv.quotient_mono_iff (w := 64) (f := 32) (c := clz64 s.period) hq h.interval_le).2
      fun j hj _ hpow => h.coarse j hj hpow
    have hupper : ScaledDiv.quotient 64 32 (fixedPeriod s.period s.periodFrac) (clz64 s.period)
        (interval s.period s.periodFrac count).toNat ≤ count.toNat :=
      Nat.le_of_mul_le_mul_right ((ScaledDiv.quotient_mul_le hq).trans (interval_mul_le hwhole hfrac)) hq
    refine ⟨fun e he => ?_, ?_, fun e e' he he' c c' hc hc' => ?_, fun e he c hc => ?_⟩
    · rw [hnext] at he
      obtain ⟨c, hc, -⟩ := hread e he
      rw [hc]
      exact nofun
    · obtain ⟨c, hc, hquot⟩ := hread 0 (Nat.zero_le _)
      have hlower := (ScaledDiv.le_quotient_iff hq).2 h.first
      rw [hstart] at hc
      rw [Nat.sub_zero] at hquot
      rw [hc, Option.some.injEq, Option.some.injEq, ← BitVec.toNat_inj, ← BitVec.toNat_inj, hpred]
      omega
    · rw [hnext] at he'
      obtain ⟨d, hd, hquot⟩ := hread e (he.trans he')
      obtain ⟨d', hd', hquot'⟩ := hread e' he'
      cases hd.symm.trans hc
      cases hd'.symm.trans hc'
      rw [BitVec.le_def, hquot, hquot']
      exact hmono _ _ (Nat.sub_le_sub_left he _) (Nat.sub_le _ _)
    · rw [hnext] at he
      obtain ⟨d, hd, hquot⟩ := hread e he
      cases hd.symm.trans hc
      rw [BitVec.le_def, hquot]
      exact (hmono _ _ (Nat.sub_le _ _) le_rfl).trans hupper

include henabled hperiod hcount in
/-- The count and the limit after a timer is stopped and restarted. -/
theorem restart_eq {c : BitVec 64} (oneshot : Bool) (hread : (s.ptimerSetCount count start).ptimerGetCount now = some c) :
    ∃ t, (s.ptimerSetCount count start).ptimerStop now = some t ∧
      t.ptimerRun oneshot now = ({ s with
        delta := c, lastEvent := start, nextEvent := now, timer := none
        enabled := if oneshot then 2 else 1 }).ptimerReload := by
  have hset : s.ptimerSetCount count start = _ := setCount_eq henabled hperiod hcount
  have hne : ¬ (s.ptimerSetCount count start).enabled = 0 := by
    rw [hset]
    exact henabled
  refine ⟨{ s.ptimerSetCount count start with delta := c, timer := none, enabled := 0 }, ?_, ?_⟩
  · unfold ptimerStop
    rw [if_neg hne, hread]
    rfl
  · unfold ptimerRun
    rw [hset]
    dsimp only
    rw [if_neg (not_not.2 rfl), if_neg hperiod]

end Count

def firstRead (period : BitVec 64) (periodFrac : BitVec 32) (count : BitVec 64) : ℕ :=
  if (interval period periodFrac count).toNat ≤ 2 ^ 63 then
    ScaledDiv.quotient 64 32 (fixedPeriod period periodFrac) (clz64 period) (interval period periodFrac count).toNat
  else 0

theorem firstRead_pos_iff (hperiod : period ≠ 0) : 0 < firstRead period periodFrac count ↔
    Whole period periodFrac (interval period periodFrac count).toNat := by
  unfold firstRead Whole
  split_ifs with hle
  · rw [ScaledDiv.quotient_pos_iff (fixedPeriod_pos hperiod)]
    exact (and_iff_right hle).symm
  · exact iff_of_false (Nat.lt_irrefl 0) fun hw => hle hw.1

theorem firstRead_zero (period : BitVec 64) (periodFrac : BitVec 32) : firstRead period periodFrac 0 = 0 := by
  simp [firstRead, interval, ScaledDiv.quotient]

theorem read_reload_count (henabled : s.enabled ≠ 0) (hperiod : s.period ≠ 0) (hdelta : s.delta ≠ 0)
    (hwrap : ScaledDiv.divisor 32 (fixedPeriod s.period s.periodFrac) (clz64 s.period) < 2 ^ 64) :
    ∃ c, s.ptimerReload.ptimerGetCount s.nextEvent = some c ∧ c.toNat = firstRead s.period s.periodFrac s.delta := by
  have hleft : s.nextEvent + interval s.period s.periodFrac s.delta - s.nextEvent = interval s.period s.periodFrac s.delta :=
    add_sub_cancel_left _ _
  rw [reload_eq hdelta hperiod, firstRead]
  by_cases hle : (interval s.period s.periodFrac s.delta).toNat ≤ 2 ^ 63
  · rw [if_pos hle]
    obtain ⟨c, hc, hquot⟩ := read_quotient (s := { s with
      lastEvent := s.nextEvent, nextEvent := s.nextEvent + interval s.period s.periodFrac s.delta
      timer := some (s.nextEvent + interval s.period s.periodFrac s.delta) }) s.nextEvent henabled hperiod
      (by rw [hleft]; exact hle) hwrap
    rw [hleft] at hquot
    exact ⟨c, hc, hquot⟩
  · rw [if_neg hle]
    refine ⟨0, read_passed henabled ?_, rfl⟩
    dsimp only
    rw [hleft]
    exact not_le.1 hle

/-- The first read after a reload, which starts from the limit when nothing is left. -/
theorem read_reload (henabled : s.enabled ≠ 0) (hperiod : s.period ≠ 0)
    (hwrap : ScaledDiv.divisor 32 (fixedPeriod s.period s.periodFrac) (clz64 s.period) < 2 ^ 64) :
    ∃ c, s.ptimerReload.ptimerGetCount s.nextEvent = some c ∧
      c.toNat = firstRead s.period s.periodFrac (if s.delta = 0 then s.limit else s.delta) := by
  by_cases hdelta : s.delta = 0
  · rw [if_pos hdelta]
    by_cases hlimit : s.limit = 0
    · -- a timer with nothing to count is disabled
      have hoff : s.ptimerReload = { s.ptimerTrigger with delta := s.limit, enabled := 0 } := by
        unfold ptimerReload
        dsimp only
        rw [if_pos hdelta, if_pos (.inl hlimit)]
      rw [hoff, hlimit, firstRead_zero]
      exact ⟨0, rfl, rfl⟩
    · have hreload : s.ptimerReload = ({ s.ptimerTrigger with delta := s.limit }).ptimerReload := by
        unfold ptimerReload
        dsimp only
        rw [if_pos hdelta, if_neg hlimit]
      rw [hreload]
      exact read_reload_count (s := { s.ptimerTrigger with delta := s.limit }) henabled hperiod hlimit hwrap
  · rw [if_neg hdelta]
    exact read_reload_count henabled hperiod hdelta hwrap

/-- A timer is restarted without gain just where a whole period is left, or its limit is less than one. -/
theorem restarts_iff (henabled : s.enabled ≠ 0) (hperiod : s.period ≠ 0) (hcount : count ≠ 0)
    (hwhole : count.toNat * s.period.toNat < 2 ^ 63) (hfrac : count.toNat * s.periodFrac.toNat < 2 ^ 63)
    (h : Safe s.period s.periodFrac count) {e : ℕ} (he : e ≤ (interval s.period s.periodFrac count).toNat) :
    Restarts (s.ptimerSetCount count start) (start + BitVec.ofNat 64 e) ↔
      (Whole s.period s.periodFrac (interval s.period s.periodFrac s.limit).toNat →
        Whole s.period s.periodFrac ((interval s.period s.periodFrac count).toNat - e)) := by
  have hq : 0 < fixedPeriod s.period s.periodFrac := fixedPeriod_pos hperiod
  obtain ⟨c, hread, hquot⟩ := read_after start henabled hperiod hcount h.no_wrap h.interval_le he
  have hleft : (interval s.period s.periodFrac count).toNat - e ≤ 2 ^ 63 := (Nat.sub_le _ _).trans h.interval_le
  have hpos : 0 < c.toNat ↔ Whole s.period s.periodFrac ((interval s.period s.periodFrac count).toNat - e) := by
    rw [hquot, ScaledDiv.quotient_pos_iff hq]
    exact (and_iff_right hleft).symm
  have hrestart : ∀ oneshot : Bool, ∃ t c', (s.ptimerSetCount count start).ptimerStop (start + BitVec.ofNat 64 e) = some t ∧
      (t.ptimerRun oneshot (start + BitVec.ofNat 64 e)).ptimerGetCount (start + BitVec.ofNat 64 e) = some c' ∧
        (c' ≤ c ↔ (Whole s.period s.periodFrac (interval s.period s.periodFrac s.limit).toNat →
          Whole s.period s.periodFrac ((interval s.period s.periodFrac count).toNat - e))) := by
    intro oneshot
    obtain ⟨t, hstop, hrun⟩ := restart_eq henabled hperiod hcount oneshot hread
    have hon : (if oneshot then 2 else 1) ≠ 0 := by
      split_ifs <;> decide
    obtain ⟨c', hc', hfirst⟩ := read_reload (s := { s with
      delta := c, lastEvent := start, nextEvent := start + BitVec.ofNat 64 e, timer := none
      enabled := if oneshot then 2 else 1 }) hon hperiod h.no_wrap
    refine ⟨t, c', hstop, by rw [hrun]; exact hc', ?_⟩
    dsimp only at hfirst
    rw [← hpos, ← firstRead_pos_iff hperiod, BitVec.le_def, hfirst]
    by_cases hc : c = 0
    · rw [if_pos hc, hc]
      refine ⟨fun hzero hw => absurd hw (Nat.not_lt_of_le hzero), fun hw => Nat.le_of_not_lt fun hlt => ?_⟩
      exact absurd (hw hlt) (Nat.lt_irrefl 0)
    · have hle := interval_read_le hperiod hwhole hfrac (Nat.sub_le _ e) hquot
      have hmono := (ScaledDiv.quotient_mono_iff (w := 64) (f := 32) (c := clz64 s.period) hq h.interval_le).2
        fun j hj _ hpow => h.coarse j hj hpow
      have hcpos : 0 < c.toNat := Nat.pos_of_ne_zero fun heq => hc (BitVec.eq_of_toNat_eq heq)
      rw [if_neg hc, firstRead, if_pos (hle.trans hleft)]
      refine iff_of_true ?_ fun _ => hcpos
      rw [hquot]
      exact hmono _ _ hle (Nat.sub_le _ _)
  constructor
  · intro hr
    obtain ⟨t, c', hstop, hrun, hiff⟩ := hrestart false
    obtain ⟨t', d, hstop', hrun', hle⟩ := hr false c hread
    cases hstop.symm.trans hstop'
    cases hrun.symm.trans hrun'
    exact hiff.1 hle
  · intro hw oneshot d hd
    cases hread.symm.trans hd
    obtain ⟨t, c', hstop, hrun, hiff⟩ := hrestart oneshot
    exact ⟨t, c', hstop, hrun, hiff.2 hw⟩

/-- After a count is set the reads up to the next event are consistent, and a restart at a moment loses
nothing to the count, just where the count's interval is safe and a whole period is left or in no limit. -/
theorem ptimer_consistent_iff (henabled : s.enabled ≠ 0) (hperiod : s.period ≠ 0) (hcount : count ≠ 0)
    (hwhole : count.toNat * s.period.toNat < 2 ^ 63) (hfrac : count.toNat * s.periodFrac.toNat < 2 ^ 63)
    {e : ℕ} (he : e ≤ (interval s.period s.periodFrac count).toNat) :
    (Reads (s.ptimerSetCount count start) start count ∧
        Restarts (s.ptimerSetCount count start) (start + BitVec.ofNat 64 e)) ↔
      Safe s.period s.periodFrac count ∧
        (Whole s.period s.periodFrac (interval s.period s.periodFrac s.limit).toNat →
          Whole s.period s.periodFrac ((interval s.period s.periodFrac count).toNat - e)) := by
  rw [reads_iff henabled hperiod hcount hwhole hfrac]
  exact and_congr_right fun h => restarts_iff henabled hperiod hcount hwhole hfrac h he

/-- A timer of 1 MHz. -/
def megahertz : PtimerState := ⟨1, 0, 0, 0, 1000, 0, 0, 0, none⟩

theorem ptimer_consistent_megahertz : megahertz.enabled ≠ 0 ∧
    ((Reads (megahertz.ptimerSetCount 5 0) 0 5 ∧ Restarts (megahertz.ptimerSetCount 5 0) (0 + BitVec.ofNat 64 1500)) ↔
      Safe 1000 0 5 ∧ (Whole 1000 0 (interval 1000 0 0).toNat → Whole 1000 0 ((interval 1000 0 5).toNat - 1500))) :=
  ⟨by decide, ptimer_consistent_iff (s := megahertz) (by decide) (by decide) (by decide) (by decide) (by decide) (by decide)⟩

/-- A timer of 300 MHz reads two less than the count that was set. -/
theorem ptimer_reads_low : ¬ ∀ (s : PtimerState) (start count : BitVec 64), s.enabled ≠ 0 → s.period ≠ 0 → count ≠ 0 →
    count.toNat * s.period.toNat < 2 ^ 63 → count.toNat * s.periodFrac.toNat < 2 ^ 63 →
      Reads (s.ptimerSetCount count start) start count := by
  intro h
  have hreads := h ⟨1, 0, 0, 0x55555555, 3, 0, 0, 0, none⟩ 0 4294967295 (by decide) (by decide) (by decide) (by decide) (by decide)
  have hfirst := ((reads_iff (s := ⟨1, 0, 0, 0x55555555, 3, 0, 0, 0, none⟩) (by decide) (by decide) (by decide) (by decide)
    (by decide)).1 hreads).first
  have hinterval : (interval 3 0x55555555 4294967295).toNat = 14316557649 := by decide
  have hperiod : Nat.size 3 = 2 := size_of_bounds (by decide) (by decide)
  have hsize : Nat.size 14316557649 = 34 := size_of_bounds (by decide) (by decide)
  have hscale : ScaledDiv.scale 64 (clz64 3) 14316557649 = 30 := by
    have hclz : clz64 3 = 62 := by
      show 64 - Nat.size 3 = 62
      rw [hperiod]
    rw [hclz, ScaledDiv.scale, hsize]
    rfl
  dsimp only at hfirst
  rw [hinterval, hscale] at hfirst
  exact absurd hfirst (by decide)

end Ar7Qemu.Ptimer
