import Ar7Qemu.Ar7.Reg
import Ar7Qemu.Lib.Run

/-! The watchdog of the AR7. Four registers have a lock each, which is meant to open when its
keys are written in order. The source keeps the last key that it knows in the lock register and
looks at that alone, so the last key opens a lock without the others before it, and a wrong
value leaves an open lock open. The time of expiry is a product of 64 bits. -/

namespace Ar7Qemu.Ar7

/-! ### Time -/

/-- `ticks_per_sec`, as `init_timers` sets it. -/
def ticksPerSec : ℤ := 1000000000

def ioFrequency : ℤ := 125000000 / 2

/-- `ticks_per_sec / io_frequency`. -/
def ticksPerIoClock : ℤ := ticksPerSec / ioFrequency

abbrev VmTime := { t : ℕ // t < 2 ^ 63 }

def expiry (now : VmTime) (t : BitVec 64) : BitVec 64 := BitVec.ofNat 64 now.val + t

theorem now_le_expiry_iff (now : VmTime) (t : BitVec 64) :
    (now.val : ℤ) ≤ (expiry now t).toInt ↔ now.val + t.toNat < 2 ^ 63 := by
  have hnow := now.2
  have ht := t.isLt
  have hsum : (expiry now t).toNat = (now.val + t.toNat) % 2 ^ 64 := by
    rw [expiry, BitVec.toNat_add, BitVec.toNat_ofNat, Nat.mod_add_mod]
  rw [BitVec.toInt_eq_toNat_cond, hsum]
  split_ifs <;> omega

/-! ### The registers -/

def kickValue : Word := 1

def kickLock1stStage : Word := 0x5555
def kickLock2ndStage : Word := 0xaaaa
def prescaleLock1stStage : Word := 0x5a5a
def prescaleLock2ndStage : Word := 0xa5a5
def changeLock1stStage : Word := 0x6666
def changeLock2ndStage : Word := 0xbbbb
def disableLock1stStage : Word := 0x7777
def disableLock2ndStage : Word := 0xcccc
def disableLock3rdStage : Word := 0xdddd

/-- `wdtimer_t`, less the kick register, which nothing is stored in, and the timer. -/
structure Watchdog where
  kickLock : Word
  changeLock : Word
  change : Word
  disableLock : Word
  disable : Word
  prescaleLock : Word
  prescale : Word
  /-- The expire time of `wd_timer` while it is armed. -/
  timer : Option (BitVec 64)

def watchdogTrigger (now : VmTime) (wdt : Watchdog) : Watchdog :=
  if wdt.disable = 0 then { wdt with timer := none }
  else
    let t := wdt.change.setWidth 64 * wdt.prescale.setWidth 64 * BitVec.ofInt 64 ticksPerIoClock
    { wdt with timer := some (expiry now t) }

def wdVal (val bits : BitVec 16) : BitVec 16 := (val &&& ~~~ 0x3) ||| bits

/-- What a lock register keeps of a key of a stage. -/
def stageVal (key : Word) (bits : BitVec 16) : Word := (wdVal (key.setWidth 16) bits).setWidth 32

/-- A write to a lock register with its keys and the bits of their stages; other values change
nothing. -/
def lockWrite : List (Word × BitVec 16) → Word → Word → Word
  | [], lock, _ => lock
  | (key, bits) :: stages, lock, val => if val = key then stageVal val bits else lockWrite stages lock val

def kickStages : List (Word × BitVec 16) := [(kickLock1stStage, 1), (kickLock2ndStage, 3)]
def changeStages : List (Word × BitVec 16) := [(changeLock1stStage, 1), (changeLock2ndStage, 3)]
def disableStages : List (Word × BitVec 16) :=
  [(disableLock1stStage, 1), (disableLock2ndStage, 2), (disableLock3rdStage, 3)]
def prescaleStages : List (Word × BitVec 16) := [(prescaleLock1stStage, 1), (prescaleLock2ndStage, 3)]

/-- The registers with a lock. -/
inductive Guarded where
  | kick | change | disable | prescale
  deriving DecidableEq

/-- A write to the block, with the guarded register that it took effect on. -/
def ar7WdtWrite (now : VmTime) (offset : ℕ) (val : Word) (wdt : Watchdog) : Watchdog × Option Guarded :=
  if offset = 0x00 then ({ wdt with kickLock := lockWrite kickStages wdt.kickLock val }, none)
  else if offset = 0x04 then
    if wdt.kickLock ≠ stageVal kickLock2ndStage 3 then (wdt, none)
    else if val = kickValue then (watchdogTrigger now wdt, some .kick)
    else (wdt, none)
  else if offset = 0x08 then ({ wdt with changeLock := lockWrite changeStages wdt.changeLock val }, none)
  else if offset = 0x0c then
    if wdt.changeLock ≠ stageVal changeLock2ndStage 3 then (wdt, none)
    else ({ wdt with change := val }, some .change)
  else if offset = 0x10 then ({ wdt with disableLock := lockWrite disableStages wdt.disableLock val }, none)
  else if offset = 0x14 then
    if wdt.disableLock ≠ stageVal disableLock3rdStage 3 then (wdt, none)
    else (watchdogTrigger now { wdt with disable := val }, some .disable)
  else if offset = 0x18 then ({ wdt with prescaleLock := lockWrite prescaleStages wdt.prescaleLock val }, none)
  else if offset = 0x1c then
    if wdt.prescaleLock ≠ stageVal prescaleLock2ndStage 3 then (wdt, none)
    else ({ wdt with prescale := val }, some .prescale)
  else (wdt, none)

def Watchdog.zeroed : Watchdog := ⟨0, 0, 0, 0, 0, 0, 0, none⟩

/-! ### Histories -/

namespace Guarded

def lockOffset : Guarded → ℕ
  | .kick => 0x00
  | .change => 0x08
  | .disable => 0x10
  | .prescale => 0x18

def offset : Guarded → ℕ
  | .kick => 0x04
  | .change => 0x0c
  | .disable => 0x14
  | .prescale => 0x1c

def stages : Guarded → List (Word × BitVec 16)
  | .kick => kickStages
  | .change => changeStages
  | .disable => disableStages
  | .prescale => prescaleStages

/-- The key sequence of a lock. -/
def keys (g : Guarded) : List Word := g.stages.map Prod.fst

def lock (g : Guarded) (wdt : Watchdog) : Word :=
  match g with
  | .kick => wdt.kickLock
  | .change => wdt.changeLock
  | .disable => wdt.disableLock
  | .prescale => wdt.prescaleLock

def openVal : Guarded → Word
  | .kick => stageVal kickLock2ndStage 3
  | .change => stageVal changeLock2ndStage 3
  | .disable => stageVal disableLock3rdStage 3
  | .prescale => stageVal prescaleLock2ndStage 3

/-- The last writes to a lock register were its complete key sequence. -/
def Unlocked (g : Guarded) (written : List Word) : Prop := g.keys <:+ written

/-- The last key of the lock that was written to it is the last one of the sequence. -/
def LastKeyLast (g : Guarded) (written : List Word) : Prop :=
  (written.filter (· ∈ g.keys)).getLast? = g.keys.getLast?

end Guarded

/-- A 32-bit write to the block. -/
structure WdtWrite where
  now : VmTime
  offset : ℕ
  val : Word

/-- The watchdog with the values that were written to each lock register, in their order. -/
structure WdtLog where
  wdt : Watchdog
  written : Guarded → List Word

def WdtLog.step (l : WdtLog) (w : WdtWrite) : WdtLog :=
  ⟨(ar7WdtWrite w.now w.offset w.val l.wdt).1,
    fun g => if w.offset = g.lockOffset then l.written g ++ [w.val] else l.written g⟩

def WdtLog.start : WdtLog := ⟨.zeroed, fun _ => []⟩

/-- A write takes effect only on an unlocked register, and an expiry that it programs is not
before the current time. -/
structure WriteRight (l : WdtLog) (w : WdtWrite) : Prop where
  unlocked : ∀ g, (ar7WdtWrite w.now w.offset w.val l.wdt).2 = some g → g.Unlocked (l.written g)
  not_early : ∀ g t, (ar7WdtWrite w.now w.offset w.val l.wdt).2 = some g → g = .kick ∨ g = .disable →
    (ar7WdtWrite w.now w.offset w.val l.wdt).1.timer = some t → (w.now.val : ℤ) ≤ t.toInt

/-- The write is one that a guarded register takes when it is open. -/
def WdtWrite.Uses (w : WdtWrite) (g : Guarded) : Prop := w.offset = g.offset ∧ (g = .kick → w.val = kickValue)

def WdtWrite.Arms (w : WdtWrite) (wdt : Watchdog) : Guarded → Prop
  | .kick => wdt.disable ≠ 0
  | .disable => w.val ≠ 0
  | _ => False

/-- If the last key was the last one of the sequence, the whole sequence was written before; and
the product, taken modulo `2 ^ 64`, is a time from now. -/
def WriteSafe (l : WdtLog) (w : WdtWrite) : Prop :=
  ∀ g, w.Uses g → g.LastKeyLast (l.written g) → g.Unlocked (l.written g) ∧
    (w.Arms l.wdt g → w.now.val + l.wdt.change.toNat * l.wdt.prescale.toNat * 16 % 2 ^ 64 < 2 ^ 63)

/-! ### The locks -/

section Locks

theorem lockWrite_of_notMem (stages : List (Word × BitVec 16)) (lock val : Word) (h : val ∉ stages.map Prod.fst) :
    lockWrite stages lock val = lock := by
  induction stages with
  | nil => rfl
  | cons s stages ih =>
    rw [List.map_cons, List.mem_cons, not_or] at h
    rw [lockWrite, if_neg h.1]
    exact ih h.2

theorem lockWrite_of_mem (stages : List (Word × BitVec 16)) (lock lock' val : Word) (h : val ∈ stages.map Prod.fst) :
    lockWrite stages lock val = lockWrite stages lock' val := by
  induction stages with
  | nil => simp at h
  | cons s stages ih =>
    rw [lockWrite, lockWrite]
    split_ifs with hs
    · rfl
    · rw [List.map_cons, List.mem_cons, or_iff_right hs] at h
      exact ih h

theorem lockWrite_eq_openVal (g : Guarded) (lock : Word) {val : Word} (h : val ∈ g.keys) :
    lockWrite g.stages lock val = g.openVal ↔ some val = g.keys.getLast? := by
  have hkeys : (g.keys.all fun val => lockWrite g.stages 0 val = g.openVal ↔ some val = g.keys.getLast?) = true := by
    cases g <;> decide
  rw [lockWrite_of_mem _ lock 0 val h]
  exact of_decide_eq_true (List.all_eq_true.1 hkeys val h)

/-- A lock register shows whether the last key was the last one of the sequence. -/
theorem lock_eq_openVal_iff (g : Guarded) (written : List Word) :
    written.foldl (lockWrite g.stages) 0 = g.openVal ↔ g.LastKeyLast written := by
  unfold Guarded.LastKeyLast
  induction written using List.reverseRecOn with
  | nil =>
    cases g <;> decide
  | append_singleton vs v ih =>
    rw [List.foldl_append, List.filter_append]
    by_cases hv : v ∈ g.keys
    · have hfilter : [v].filter (· ∈ g.keys) = [v] := by simp [hv]
      rw [hfilter, List.getLast?_concat]
      exact lockWrite_eq_openVal g _ hv
    · have hfilter : [v].filter (· ∈ g.keys) = [] := by simp [hv]
      rw [hfilter, List.append_nil, ← ih]
      show lockWrite g.stages _ v = _ ↔ _
      rw [lockWrite_of_notMem _ _ _ hv]

end Locks

/-! ### What a write does -/

section Write

variable (now : VmTime) (val : Word) (wdt : Watchdog)

def Guarded.setLock (g : Guarded) (lock : Word) (wdt : Watchdog) : Watchdog :=
  match g with
  | .kick => { wdt with kickLock := lock }
  | .change => { wdt with changeLock := lock }
  | .disable => { wdt with disableLock := lock }
  | .prescale => { wdt with prescaleLock := lock }

/-- What a write to an open register does. -/
def Guarded.act (g : Guarded) (now : VmTime) (val : Word) (wdt : Watchdog) : Watchdog :=
  match g with
  | .kick => watchdogTrigger now wdt
  | .change => { wdt with change := val }
  | .disable => watchdogTrigger now { wdt with disable := val }
  | .prescale => { wdt with prescale := val }

theorem write_lock (g : Guarded) :
    ar7WdtWrite now g.lockOffset val wdt = (g.setLock (lockWrite g.stages (g.lock wdt) val) wdt, none) := by
  cases g <;> rfl

theorem write_guarded (g : Guarded) : ar7WdtWrite now g.offset val wdt =
    if g.lock wdt = g.openVal ∧ (g = .kick → val = kickValue) then (g.act now val wdt, some g) else (wdt, none) := by
  cases g with
  | kick =>
    show (if wdt.kickLock ≠ stageVal kickLock2ndStage 3 then (wdt, none)
      else if val = kickValue then (watchdogTrigger now wdt, some Guarded.kick) else (wdt, none)) = _
    by_cases hopen : wdt.kickLock = stageVal kickLock2ndStage 3
    · by_cases hval : val = kickValue
      · rw [if_neg (not_not.2 hopen), if_pos hval, if_pos ⟨hopen, fun _ => hval⟩]
        rfl
      · rw [if_neg (not_not.2 hopen), if_neg hval, if_neg fun h => hval (h.2 rfl)]
    · rw [if_pos hopen, if_neg fun h => hopen h.1]
  | change =>
    show (if wdt.changeLock ≠ stageVal changeLock2ndStage 3 then (wdt, none)
      else ({ wdt with change := val }, some Guarded.change)) = _
    by_cases hopen : wdt.changeLock = stageVal changeLock2ndStage 3
    · rw [if_neg (not_not.2 hopen), if_pos ⟨hopen, fun h => nomatch h⟩]
      rfl
    · rw [if_pos hopen, if_neg fun h => hopen h.1]
  | disable =>
    show (if wdt.disableLock ≠ stageVal disableLock3rdStage 3 then (wdt, none)
      else (watchdogTrigger now { wdt with disable := val }, some Guarded.disable)) = _
    by_cases hopen : wdt.disableLock = stageVal disableLock3rdStage 3
    · rw [if_neg (not_not.2 hopen), if_pos ⟨hopen, fun h => nomatch h⟩]
      rfl
    · rw [if_pos hopen, if_neg fun h => hopen h.1]
  | prescale =>
    show (if wdt.prescaleLock ≠ stageVal prescaleLock2ndStage 3 then (wdt, none)
      else ({ wdt with prescale := val }, some Guarded.prescale)) = _
    by_cases hopen : wdt.prescaleLock = stageVal prescaleLock2ndStage 3
    · rw [if_neg (not_not.2 hopen), if_pos ⟨hopen, fun h => nomatch h⟩]
      rfl
    · rw [if_pos hopen, if_neg fun h => hopen h.1]

theorem write_other {offset : ℕ} (hlock : ∀ g : Guarded, offset ≠ g.lockOffset) (hreg : ∀ g : Guarded, offset ≠ g.offset) :
    ar7WdtWrite now offset val wdt = (wdt, none) := by
  have h₀ : offset ≠ 0x00 := hlock .kick
  have h₁ : offset ≠ 0x04 := hreg .kick
  have h₂ : offset ≠ 0x08 := hlock .change
  have h₃ : offset ≠ 0x0c := hreg .change
  have h₄ : offset ≠ 0x10 := hlock .disable
  have h₅ : offset ≠ 0x14 := hreg .disable
  have h₆ : offset ≠ 0x18 := hlock .prescale
  have h₇ : offset ≠ 0x1c := hreg .prescale
  rw [ar7WdtWrite, if_neg h₀, if_neg h₁, if_neg h₂, if_neg h₃, if_neg h₄, if_neg h₅, if_neg h₆, if_neg h₇]

theorem offset_injective {g g' : Guarded} (h : g.offset = g'.offset) : g = g' := by
  cases g <;> cases g' <;> first | rfl | exact absurd h (by decide)

theorem lockOffset_injective {g g' : Guarded} (h : g.lockOffset = g'.lockOffset) : g = g' := by
  cases g <;> cases g' <;> first | rfl | exact absurd h (by decide)

/-- A write takes effect on a register exactly when the register takes it and is open. -/
theorem effect_iff (offset : ℕ) (g : Guarded) : (ar7WdtWrite now offset val wdt).2 = some g ↔
    WdtWrite.Uses ⟨now, offset, val⟩ g ∧ g.lock wdt = g.openVal := by
  by_cases hreg : ∃ g', offset = Guarded.offset g'
  · obtain ⟨g', rfl⟩ := hreg
    rw [write_guarded]
    constructor
    · intro h
      split_ifs at h with hopen
      cases h
      exact ⟨⟨rfl, hopen.2⟩, hopen.1⟩
    · rintro ⟨⟨hoff, hkick⟩, hopen⟩
      cases offset_injective hoff
      rw [if_pos ⟨hopen, hkick⟩]
  · have hne : ∀ g', offset ≠ Guarded.offset g' := fun g' h => hreg ⟨g', h⟩
    refine iff_of_false ?_ fun h => hne g h.1.1
    by_cases hlock : ∃ g', offset = Guarded.lockOffset g'
    · obtain ⟨g', rfl⟩ := hlock
      rw [write_lock]
      simp
    · rw [write_other now val wdt (fun g' h => hlock ⟨g', h⟩) hne]
      simp

@[simp] theorem lock_setLock (g g' : Guarded) (lock : Word) :
    g'.lock (g.setLock lock wdt) = if g' = g then lock else g'.lock wdt := by
  cases g <;> cases g' <;> rfl

@[simp] theorem lock_act (g g' : Guarded) : g'.lock (g.act now val wdt) = g'.lock wdt := by
  have htrigger : ∀ u : Watchdog, g'.lock (watchdogTrigger now u) = g'.lock u := by
    intro u
    unfold watchdogTrigger
    split_ifs <;> cases g' <;> rfl
  cases g with
  | kick => exact htrigger wdt
  | change => cases g' <;> rfl
  | disable => exact (htrigger { wdt with disable := val }).trans (by cases g' <;> rfl)
  | prescale => cases g' <;> rfl

theorem lock_write (offset : ℕ) (g : Guarded) : g.lock (ar7WdtWrite now offset val wdt).1 =
    if offset = g.lockOffset then lockWrite g.stages (g.lock wdt) val else g.lock wdt := by
  by_cases hlock : ∃ g', offset = Guarded.lockOffset g'
  · obtain ⟨g', rfl⟩ := hlock
    rw [write_lock]
    dsimp only
    rw [lock_setLock]
    by_cases hg : g = g'
    · subst hg
      rw [if_pos rfl, if_pos rfl]
    · rw [if_neg hg, if_neg fun h => hg (lockOffset_injective h).symm]
  · have hne : ∀ g', offset ≠ Guarded.lockOffset g' := fun g' h => hlock ⟨g', h⟩
    rw [if_neg (hne g)]
    by_cases hreg : ∃ g', offset = Guarded.offset g'
    · obtain ⟨g', rfl⟩ := hreg
      rw [write_guarded]
      split_ifs
      · exact lock_act now val wdt g' g
      · rfl
    · rw [write_other now val wdt hne fun g' h => hreg ⟨g', h⟩]

theorem toNat_trigger : (wdt.change.setWidth 64 * wdt.prescale.setWidth 64 * BitVec.ofInt 64 ticksPerIoClock).toNat =
    wdt.change.toNat * wdt.prescale.toNat * 16 % 2 ^ 64 := by
  have hticks : (BitVec.ofInt 64 ticksPerIoClock).toNat = 16 := by decide
  have hchange := wdt.change.isLt
  have hprescale := wdt.prescale.isLt
  rw [BitVec.toNat_mul, BitVec.toNat_mul, hticks, BitVec.toNat_setWidth_of_le (by decide),
    BitVec.toNat_setWidth_of_le (by decide), Nat.mod_mul_mod]

theorem trigger_not_early_iff : (∀ t, (watchdogTrigger now wdt).timer = some t → (now.val : ℤ) ≤ t.toInt) ↔
    (wdt.disable ≠ 0 → now.val + wdt.change.toNat * wdt.prescale.toNat * 16 % 2 ^ 64 < 2 ^ 63) := by
  rw [← toNat_trigger, ← now_le_expiry_iff, watchdogTrigger]
  by_cases hdis : wdt.disable = 0
  · rw [if_pos hdis]
    exact iff_of_true (fun t h => (nomatch h)) fun h => absurd hdis h
  · rw [if_neg hdis]
    constructor
    · exact fun h _ => h _ rfl
    · rintro h t ht
      cases ht
      exact h hdis

end Write

/-! ### Runs -/

/-- The lock registers are what the history of their writes makes of them. -/
def Recorded (l : WdtLog) : Prop := ∀ g : Guarded, g.lock l.wdt = (l.written g).foldl (lockWrite g.stages) 0

theorem recorded_start : Recorded WdtLog.start := by
  intro g
  cases g <;> rfl

theorem recorded_step (l : WdtLog) (w : WdtWrite) (h : Recorded l) : Recorded (l.step w) := by
  intro g
  show g.lock (ar7WdtWrite w.now w.offset w.val l.wdt).1 =
    (if w.offset = g.lockOffset then l.written g ++ [w.val] else l.written g).foldl (lockWrite g.stages) 0
  rw [lock_write]
  split_ifs
  · rw [List.foldl_append, ← h g]
    rfl
  · exact h g

/-- A write takes effect on a register that it uses exactly when the last key was the last one of
the sequence. -/
theorem effect_iff_lastKey {l : WdtLog} (h : Recorded l) (w : WdtWrite) (g : Guarded) :
    (ar7WdtWrite w.now w.offset w.val l.wdt).2 = some g ↔ w.Uses g ∧ g.LastKeyLast (l.written g) := by
  rw [effect_iff, ← lock_eq_openVal_iff, ← h g]

theorem writeRight_iff (l : WdtLog) (w : WdtWrite) (h : Recorded l) : WriteRight l w ↔ WriteSafe l w := by
  have hact : ∀ g, (ar7WdtWrite w.now w.offset w.val l.wdt).2 = some g →
      (ar7WdtWrite w.now w.offset w.val l.wdt).1 = g.act w.now w.val l.wdt := by
    intro g hg
    obtain ⟨⟨hoff, hkick⟩, hopen⟩ := (effect_iff _ _ _ _ _).1 hg
    have hoff' : w.offset = g.offset := hoff
    rw [hoff', write_guarded, if_pos ⟨hopen, hkick⟩]
  have hearly : ∀ g, g = .kick ∨ g = .disable → ((∀ t, (g.act w.now w.val l.wdt).timer = some t → (w.now.val : ℤ) ≤ t.toInt) ↔
      (w.Arms l.wdt g → w.now.val + l.wdt.change.toNat * l.wdt.prescale.toNat * 16 % 2 ^ 64 < 2 ^ 63)) := by
    rintro g (rfl | rfl)
    · exact trigger_not_early_iff w.now l.wdt
    · exact trigger_not_early_iff w.now { l.wdt with disable := w.val }
  constructor
  · intro hright g huses hlast
    have hg := (effect_iff_lastKey h w g).2 ⟨huses, hlast⟩
    refine ⟨hright.unlocked g hg, fun harms => ?_⟩
    have htimed : g = .kick ∨ g = .disable := by
      cases g with
      | kick => exact Or.inl rfl
      | disable => exact Or.inr rfl
      | change => exact absurd harms id
      | prescale => exact absurd harms id
    refine (hearly g htimed).1 (fun t ht => ?_) harms
    exact hright.not_early g t hg htimed ((congrArg Watchdog.timer (hact g hg)).trans ht)
  · intro hsafe
    refine ⟨fun g hg => ?_, fun g t hg htimed ht => ?_⟩
    · obtain ⟨huses, hlast⟩ := (effect_iff_lastKey h w g).1 hg
      exact (hsafe g huses hlast).1
    · obtain ⟨huses, hlast⟩ := (effect_iff_lastKey h w g).1 hg
      rw [hact g hg] at ht
      exact (hearly g htimed).2 (hsafe g huses hlast).2 t ht

/-- In every sequence of writes the locks are right and no expiry is early exactly when the writes
that find the last key last were unlocked, and the times they compute are times from now. -/
theorem watchdog_right_iff (ws : List WdtWrite) :
    Lib.Meets WdtLog.step WriteRight WdtLog.start ws ↔ Lib.Meets WdtLog.step WriteSafe WdtLog.start ws :=
  Lib.meets_congr recorded_step writeRight_iff ws _ recorded_start

theorem zero_lt_two_pow_63 : 0 < 2 ^ 63 := by decide

/-- The second key opens a lock without the first. -/
theorem second_key_opens : ¬ ∀ ws : List WdtWrite, Lib.Meets WdtLog.step WriteRight WdtLog.start ws := by
  intro h
  have hright := (h [⟨⟨0, zero_lt_two_pow_63⟩, 0x08, 0xbbbb⟩, ⟨⟨0, zero_lt_two_pow_63⟩, 0x0c, 5⟩]).2.1
  exact absurd (hright.unlocked .change rfl) (by unfold Guarded.Unlocked; decide)

end Ar7Qemu.Ar7
