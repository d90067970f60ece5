import Ar7Qemu.Lib.ScaledDiv
import Mathlib.Data.BitVec

/-! The countdown timer of `ptimer.c`. The count is the time to the next event over the period, which has
32 fractional bits. Both are scaled to 64 bits and the period is rounded up, so that the count changes with
the scale, and for a period of all ones the divisor wraps to zero. A timer that is stopped when less than
a period is left is restarted from its limit. -/

namespace Ar7Qemu.Ptimer

open Lib

/-- `ptimer_state`, with the triggers of the bottom half and the time that the timer is set to. Times and
the period are of type `int64_t`. -/
structure PtimerState where
  /-- 0 is disabled, 1 periodic and 2 one shot. -/
  enabled : ℕ
  limit : BitVec 64
  delta : BitVec 64
  periodFrac : BitVec 32
  period : BitVec 64
  lastEvent : BitVec 64
  nextEvent : BitVec 64
  triggers : ℕ
  timer : Option (BitVec 64)

def clz64 (val : BitVec 64) : ℕ := 64 - val.toNat.size

/-- The divisor of `ptimer_get_count`. -/
def scaledPeriod (period : BitVec 64) (periodFrac : BitVec 32) (shift : ℕ) : BitVec 64 :=
  let div := period <<< shift
  if 32 ≤ shift then div ||| (periodFrac.setWidth 64 <<< (shift - 32))
  else
    let div := if shift ≠ 0 then div ||| (periodFrac >>> (32 - shift)).setWidth 64 else div
    -- look at the remaining bits of the fraction and round up if necessary
    if periodFrac <<< shift ≠ 0 then div + 1 else div

namespace PtimerState

variable (s : PtimerState)

def ptimerTrigger : PtimerState := { s with triggers := s.triggers + 1 }

def ptimerReload : PtimerState :=
  let s := if s.delta = 0 then { s.ptimerTrigger with delta := s.limit } else s
  if s.delta = 0 ∨ s.period = 0 then { s with enabled := 0 }
  else
    let s := { s with lastEvent := s.nextEvent }
    let s := { s with nextEvent := s.lastEvent + s.delta * s.period }
    let s := if s.periodFrac ≠ 0 then { s with nextEvent := s.nextEvent + (s.periodFrac.setWidth 64 * s.delta) >>> 32 } else s
    { s with timer := some s.nextEvent }

def ptimerTick : PtimerState :=
  let s := { s.ptimerTrigger with delta := 0 }
  if s.enabled = 2 then { s with enabled := 0 } else s.ptimerReload

/-- `ptimer_get_count`. It fails when it divides by zero. -/
def ptimerGetCount (now : BitVec 64) : Option (BitVec 64) :=
  if s.enabled ≠ 0 then
    -- prevent underflow if it should already have triggered
    if 0 < (now - s.nextEvent).toInt ∨ s.period = 0 then some 0
    else
      let rem := s.nextEvent - now
      let clz1 := clz64 rem
      let clz2 := clz64 s.period
      let shift := if clz1 < clz2 then clz1 else clz2
      let div := scaledPeriod s.period s.periodFrac shift
      if div = 0 then none else some ((rem <<< shift) / div)
  else some s.delta

def ptimerSetCount (count now : BitVec 64) : PtimerState :=
  let s := { s with delta := count }
  if s.enabled ≠ 0 then ({ s with nextEvent := now }).ptimerReload else s

def ptimerRun (oneshot : Bool) (now : BitVec 64) : PtimerState :=
  if s.enabled ≠ 0 then s
  else if s.period = 0 then s
  else ({ s with enabled := if oneshot then 2 else 1, nextEvent := now }).ptimerReload

def ptimerStop (now : BitVec 64) : Option PtimerState :=
  if s.enabled = 0 then some s
  else (s.ptimerGetCount now).map fun count => { s with delta := count, timer := none, enabled := 0 }

end PtimerState

/-! ### What is read -/

open PtimerState

/-- The values read while the time runs from one moment to the next event. -/
structure Reads (s : PtimerState) (start count : BitVec 64) : Prop where
  /-- No read divides by zero, which is what a divisor wraps to. -/
  defined : ∀ e ≤ (s.nextEvent - start).toNat, s.ptimerGetCount (start + BitVec.ofNat 64 e) ≠ none
  first : s.ptimerGetCount start = some count ∨ s.ptimerGetCount start = some (count - 1)
  antitone : ∀ e e', e ≤ e' → e' ≤ (s.nextEvent - start).toNat → ∀ c c',
    s.ptimerGetCount (start + BitVec.ofNat 64 e) = some c → s.ptimerGetCount (start + BitVec.ofNat 64 e') = some c' → c' ≤ c
  le : ∀ e ≤ (s.nextEvent - start).toNat, ∀ c, s.ptimerGetCount (start + BitVec.ofNat 64 e) = some c → c ≤ count

/-- The count does not increase when the timer is stopped and restarted at a moment. -/
def Restarts (s : PtimerState) (now : BitVec 64) : Prop :=
  ∀ (oneshot : Bool) (c : BitVec 64), s.ptimerGetCount now = some c →
    ∃ t c', s.ptimerStop now = some t ∧ (t.ptimerRun oneshot now).ptimerGetCount now = some c' ∧ c' ≤ c

/-- The period and its fraction as one number. -/
def fixedPeriod (period : BitVec 64) (periodFrac : BitVec 32) : ℕ := period.toNat * 2 ^ 32 + periodFrac.toNat

/-- The time that a count takes, as `ptimer_reload` computes it. -/
def interval (period : BitVec 64) (periodFrac : BitVec 32) (count : BitVec 64) : BitVec 64 :=
  count * period + (periodFrac.setWidth 64 * count) >>> 32

/-- The interval of the count has 63 bits, no scaled period wraps, rounding it up costs the first read at
most one, and no change of the scale up to the interval loses a quotient. -/
structure Safe (period : BitVec 64) (periodFrac : BitVec 32) (count : BitVec 64) : Prop where
  interval_le : (interval period periodFrac count).toNat ≤ 2 ^ 63
  no_wrap : ScaledDiv.divisor 32 (fixedPeriod period periodFrac) (clz64 period) < 2 ^ 64
  first : (count.toNat - 1) * ScaledDiv.divisor 32 (fixedPeriod period periodFrac)
      (ScaledDiv.scale 64 (clz64 period) (interval period periodFrac count).toNat) ≤
    (interval period periodFrac count).toNat * 2 ^ ScaledDiv.scale 64 (clz64 period) (interval period periodFrac count).toNat
  coarse : ∀ j < clz64 period, 2 ^ (63 - j) ≤ (interval period periodFrac count).toNat →
    ScaledDiv.Coarse 64 32 (fixedPeriod period periodFrac) j

/-- A whole period is left in a time to the next event that has not passed. -/
def Whole (period : BitVec 64) (periodFrac : BitVec 32) (rem : ℕ) : Prop :=
  rem ≤ 2 ^ 63 ∧ fixedPeriod period periodFrac ≤ rem * 2 ^ 32

end Ar7Qemu.Ptimer
