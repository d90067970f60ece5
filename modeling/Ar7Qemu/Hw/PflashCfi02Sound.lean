import Ar7Qemu.Lib.Run
import Ar7Qemu.Hw.PflashCfi02

/-! When the flash of `pflash_cfi02.c` keeps the AMD command protocol. The number of the write cycle,
the command and the bypass flag say which writes came last; from that every change of the storage is
the end of a program or of an erase, and the storage that was changed is written back around the
change. -/

namespace Ar7Qemu.PflashCfi02

open Lib

variable {c : Config} {s p q : Pflash} {h : List Cycle} {k : Cycle}

/-! ### Offsets -/

theorem chipLen_pos (c : Config) : 0 < c.chipLen := Nat.two_pow_pos _

theorem place_eq (c : Config) (k : Cycle) : k.place c = k.offset % c.chipLen := by
  unfold Cycle.place Config.chipLen
  rw [Nat.and_two_pow_sub_one_eq_mod]

theorem bytes_dvd_chipLen {t : Width} (hw : t.bytes ≤ c.chipLen) : t.bytes ∣ c.chipLen := by
  have hpow : ∃ n, t.bytes = 2 ^ n := by
    cases t with
    | b => exact ⟨0, rfl⟩
    | w => exact ⟨1, rfl⟩
    | l => exact ⟨2, rfl⟩
  obtain ⟨n, hn⟩ := hpow
  unfold Config.chipLen at hw ⊢
  rw [hn] at hw ⊢
  exact Nat.pow_dvd_pow 2 ((Nat.pow_le_pow_iff_right (by decide)).1 hw)

theorem access_le {a : Access} (hw : a.width.bytes ≤ c.chipLen) :
    (a.offset &&& (c.chipLen - 1)) + a.width.bytes ≤ c.chipLen := by
  have hplace : a.offset &&& (c.chipLen - 1) = a.offset % c.chipLen := Nat.and_two_pow_sub_one_eq_mod _ _
  have hlt := Nat.mod_lt a.offset (chipLen_pos c)
  rw [hplace]
  obtain ⟨m, hm⟩ := bytes_dvd_chipLen hw
  obtain ⟨n, hn⟩ : a.width.bytes ∣ a.offset % c.chipLen := (Nat.dvd_mod_iff (bytes_dvd_chipLen hw)).2 a.aligned
  have hnm : n < m := by
    rw [hn, hm] at hlt
    exact Nat.lt_of_mul_lt_mul_left hlt
  calc a.offset % c.chipLen + a.width.bytes = a.width.bytes * (n + 1) := by rw [hn, Nat.mul_succ]
    _ ≤ a.width.bytes * m := Nat.mul_le_mul_left _ hnm
    _ = c.chipLen := hm.symm

theorem sector_start (c : Config) (offset : ℕ) :
    offset - (offset &&& (c.sectorLen - 1)) = offset / c.sectorLen * c.sectorLen := by
  have hand : offset &&& (c.sectorLen - 1) = offset % c.sectorLen := Nat.and_two_pow_sub_one_eq_mod _ _
  have hdiv := Nat.div_add_mod offset c.sectorLen
  rw [hand, Nat.mul_comm]
  omega

theorem sector_le {offset : ℕ} (hlt : offset < c.chipLen) :
    offset / c.sectorLen * c.sectorLen + c.sectorLen ≤ c.chipLen := by
  have hchip : c.chipLen = c.nbBlocs * c.sectorLen := by
    unfold Config.chipLen Config.nbBlocs Config.sectorLen
    rw [← Nat.pow_add, Nat.sub_add_cancel c.sector_le]
  have hpos : 0 < c.sectorLen := Nat.two_pow_pos _
  rw [hchip] at hlt ⊢
  rw [← Nat.succ_mul]
  exact Nat.mul_le_mul_right _ ((Nat.div_lt_iff_lt_mul hpos).2 hlt)

theorem place_lt (c : Config) (k : Cycle) : k.place c < c.chipLen := by
  rw [place_eq]
  exact Nat.mod_lt _ (chipLen_pos c)

/-! ### Writing back -/

theorem pflashUpdate_spec {ok : Bool} {off n : ℕ} {before : Bytes} (hback : Backed c s ok) (hend : off + n ≤ c.chipLen)
    (hsame : Bytes.SameOutside s.storage before off n)
    (hmirror : ∀ disk, s.bs = some disk → Bytes.Mirrors disk before c.chipLen) :
    ∃ bs, pflashUpdate c ok off n s = some { s with bs := bs } ∧
      ∀ disk, bs = some disk → Bytes.Mirrors disk s.storage c.chipLen := by
  unfold pflashUpdate
  cases hbs : s.bs with
  | none =>
    refine ⟨none, ?_, fun disk hdisk => by cases hdisk⟩
    dsimp only
    rw [← hbs]
  | some disk =>
    obtain ⟨hbits, hok⟩ := hback (by rw [hbs]; exact Option.some_ne_none _)
    have hunits : 512 ∣ c.chipLen := Nat.pow_dvd_pow 2 hbits
    dsimp only
    rw [if_pos (Bytes.unit_end_le (by decide) hunits hend), if_pos hok]
    refine ⟨_, rfl, fun disk' hdisk' => ?_⟩
    cases hdisk'
    exact (hmirror disk hbs).writeBack (by decide) hsame

/-! ### The writes that came last -/

/-- The device may take a command: the guest unlocked it, or it is in bypass mode. -/
def Ready (c : Config) (bypass : Bool) (h : List Cycle) : Prop := if bypass then InBypass c h else Unlocked c h

/-- The command of the third cycle. -/
structure Command (c : Config) (bypass : Bool) (cmd : UInt8) (k : Cycle) (h : List Cycle) : Prop where
  cmd : k.cmd = cmd
  addr : bypass = false → k.boff c = c.unlockAddr0
  ready : Ready c bypass h

/-- What the write cycle says of the writes. -/
def TrackedAt (c : Config) (wcycle : ℕ) (p : Pflash) (h : List Cycle) : Prop :=
  match wcycle with
  | 0 => p.cmd = 0 ∧ p.bypass = false
  | 1 => p.cmd = 0 ∧ p.bypass = false ∧ ∃ u₀ h', h = u₀ :: h' ∧ Unlock0 c u₀
  | 2 => p.cmd = 0 ∧ Ready c p.bypass h
  | 3 => (p.cmd = 0x80 ∨ p.cmd = 0x90 ∨ p.cmd = 0xa0) ∧ ∃ k h', h = k :: h' ∧ Command c p.bypass p.cmd k h'
  | 4 => p.cmd = 0x80 ∧ ∃ u₀ k h', h = u₀ :: k :: h' ∧ Unlock0 c u₀ ∧ Command c p.bypass p.cmd k h'
  | 5 => p.cmd = 0x80 ∧ ∃ u₁ u₀ k h', h = u₁ :: u₀ :: k :: h' ∧ Unlock1 c u₁ ∧ Unlock0 c u₀ ∧ Command c p.bypass p.cmd k h'
  | 6 => (p.cmd = 0x10 ∨ p.cmd = 0x30) ∧ p.bypass = false
  | 7 => p.cmd = 0x98 ∧ (p.bypass = true → InBypass c h)
  | _ => False

def Tracked (c : Config) (p : Pflash) (h : List Cycle) : Prop := TrackedAt c p.wcycle p h

theorem tracked_iff {n : ℕ} (hw : p.wcycle = n) : Tracked c p h ↔ TrackedAt c n p h := by
  rw [Tracked, hw]

theorem Command.inBypass (hk : Command c p.bypass p.cmd k h) (hb : p.bypass = true)
    (hcmd : p.cmd = 0x80 ∨ p.cmd = 0x90 ∨ p.cmd = 0xa0) : InBypass c (k :: h) := by
  have hready := hk.ready
  unfold Ready at hready
  rw [if_pos hb] at hready
  rw [← hk.cmd] at hcmd
  exact hready.command (.inr hcmd)

theorem Tracked.inBypass (ht : Tracked c p h) (hb : p.bypass = true) : InBypass c h := by
  unfold Tracked TrackedAt at ht
  split at ht
  · exact absurd (hb.symm.trans ht.2) (by decide)
  · exact absurd (hb.symm.trans ht.2.1) (by decide)
  · have hready := ht.2
    unfold Ready at hready
    rwa [if_pos hb] at hready
  · obtain ⟨hcmd, k, h', rfl, hk⟩ := ht
    exact hk.inBypass hb hcmd
  · obtain ⟨hcmd, u₀, k, h', rfl, hu₀, hk⟩ := ht
    exact (hk.inBypass hb (.inl hcmd)).continued (.inr (.inl ⟨hk.cmd.trans hcmd, hu₀⟩))
  · obtain ⟨hcmd, u₁, u₀, k, h', rfl, hu₁, hu₀, hk⟩ := ht
    have hunlock := (hk.inBypass hb (.inl hcmd)).continued (.inr (.inl ⟨hk.cmd.trans hcmd, hu₀⟩))
    exact hunlock.continued (.inr (.inr (.inl ⟨hu₀, hu₁⟩)))
  · exact absurd (hb.symm.trans ht.2) (by decide)
  · exact ht.2 hb
  · exact ht.elim

/-- The commands that a read can find. -/
theorem Tracked.cmd_cases (ht : Tracked c p h) :
    (p.cmd = 0x00 ∨ p.cmd = 0x80) ∨ p.cmd = 0x90 ∨ (p.cmd = 0xa0 ∨ p.cmd = 0x10 ∨ p.cmd = 0x30) ∨ p.cmd = 0x98 := by
  unfold Tracked TrackedAt at ht
  split at ht
  · exact .inl (.inl ht.1)
  · exact .inl (.inl ht.1)
  · exact .inl (.inl ht.1)
  · rcases ht.1 with hcmd | hcmd | hcmd
    · exact .inl (.inr hcmd)
    · exact .inr (.inl hcmd)
    · exact .inr (.inr (.inl (.inl hcmd)))
  · exact .inl (.inr ht.1)
  · exact .inl (.inr ht.1)
  · exact .inr (.inr (.inl (.inr ht.1)))
  · exact .inr (.inr (.inr ht.1))
  · exact ht.elim

theorem tracked_resetFlash (p : Pflash) (h : List Cycle) : Tracked c (resetFlash p) h := ⟨rfl, rfl⟩

/-! ### One write -/

/-- The block device agrees with the storage. -/
def Mirrored (c : Config) (p : Pflash) : Prop := ∀ disk, p.bs = some disk → Bytes.Mirrors disk p.storage c.chipLen

/-- What a write may leave. -/
structure Outcome (c : Config) (s p : Pflash) (h : List Cycle) : Prop where
  tracked : Tracked c p h
  changes : p.storage = s.storage ∨ Programs c h s.storage p.storage ∨ Erases c h s.storage p.storage
  mirrored : Mirrored c p

theorem Outcome.quiet (hm : Mirrored c s) (ht : Tracked c p h) (hst : p.storage = s.storage) (hbs : p.bs = s.bs) :
    Outcome c s p h := by
  refine ⟨ht, .inl hst, fun disk hdisk => ?_⟩
  rw [hst]
  exact hm disk (hbs.symm.trans hdisk)

theorem outcome_reset (hm : Mirrored c s) : Outcome c s (resetFlash s) h :=
  .quiet hm (tracked_resetFlash s h) rfl rfl

theorem outcome_checkUnlock0 (hm : Mirrored c s)
    (hquery : k.boff c = 0x55 → k.cmd = 0x98 → s.bypass = true → InBypass c (k :: h))
    (hnext : Unlock0 c k → Tracked c (nextCycle s) (k :: h)) :
    Outcome c s (checkUnlock0 c (k.boff c) k.cmd s) (k :: h) := by
  unfold checkUnlock0
  split_ifs with hcfi hfail
  · exact .quiet hm ⟨rfl, hquery hcfi.1 hcfi.2⟩ rfl rfl
  · exact outcome_reset hm
  · rw [not_or, not_not, not_not] at hfail
    exact .quiet hm (hnext hfail) rfl rfl

theorem outcome_checkUnlock1 (hm : Mirrored c s) (hnext : Unlock1 c k → Tracked c (nextCycle s) (k :: h)) :
    Outcome c s (checkUnlock1 c (k.boff c) k.cmd s) (k :: h) := by
  unfold checkUnlock1
  split_ifs with hfail
  · exact outcome_reset hm
  · rw [not_or, not_not, not_not] at hfail
    exact .quiet hm (hnext hfail) rfl rfl

theorem outcome_startCommand (hw : s.wcycle = 2) (hr : Ready c s.bypass h) (hm : Mirrored c s) :
    Outcome c s (startCommand c (k.boff c) k.cmd s) (k :: h) := by
  unfold startCommand
  split_ifs with haddr hbypass hcmd
  · exact outcome_reset hm
  · refine .quiet hm ⟨rfl, ?_⟩ rfl rfl
    show InBypass c (k :: h)
    unfold Ready at hr
    by_cases hb : s.bypass = true
    · rw [if_pos hb] at hr
      exact hr.command (.inl hbypass)
    · rw [if_neg hb] at hr
      have haddr' : k.boff c = c.unlockAddr0 := by
        by_contra hne
        exact haddr ⟨Bool.eq_false_iff.2 hb, hne⟩
      exact .enter hr haddr' hbypass
  · refine .quiet hm ?_ rfl rfl
    have hthree : (nextCycle { s with cmd := k.cmd }).wcycle = 3 := congrArg (· + 1) hw
    refine (tracked_iff hthree).2 ⟨hcmd, k, h, rfl, rfl, fun hb => ?_, hr⟩
    by_contra hne
    exact haddr ⟨hb, hne⟩
  · exact outcome_reset hm

/-- The data of a program command is written, and the device is reset or goes on in bypass mode. -/
theorem outcome_writeData {a : Access} {value : ℕ} {ok : Bool} (hw : s.wcycle = 3) (hcmd : s.cmd = 0xa0)
    (ht : Tracked c s h) (hm : Mirrored c s) (hwidth : a.width.bytes ≤ c.chipLen) (hback : Backed c s ok)
    (hk : k = ⟨a.offset, a.width.bytes, value⟩) :
    ∃ p, ((writeData c ok (k.place c) value a.width.bytes s).map fun s =>
        let s := { s with status := ~~~(UInt8.ofNat value &&& 0x80) }
        if s.bypass then doBypass s else resetFlash s) = some p ∧ Outcome c s p (k :: h) := by
  have hend : k.place c + a.width.bytes ≤ c.chipLen := by
    rw [hk]
    exact access_le hwidth
  have hprog : Programs c (k :: h) s.storage (s.storage.clear (k.place c) a.width.bytes (Bytes.ofValue c.bigEndian a.width.bytes value)) := by
    obtain ⟨-, p, h', rfl, hp⟩ := (tracked_iff hw).1 ht
    refine ⟨k, p, h', rfl, hp.cmd.trans hcmd, ?_, by rw [hk]⟩
    have hready := hp.ready
    unfold Ready at hready
    by_cases hb : s.bypass = true
    · rw [if_pos hb] at hready
      exact .inr hready
    · rw [if_neg hb] at hready
      exact .inl ⟨hready, hp.addr (Bool.eq_false_iff.2 hb)⟩
  have hin : s.bypass = true → InBypass c (k :: h) := by
    intro hb
    have hbefore := ht.inBypass hb
    obtain ⟨-, p, h', rfl, hp⟩ := (tracked_iff hw).1 ht
    exact hbefore.continued (.inl (hp.cmd.trans hcmd))
  unfold writeData
  rw [if_pos hend]
  generalize hst : s.storage.clear (k.place c) a.width.bytes (Bytes.ofValue c.bigEndian a.width.bytes value) = storage at *
  have hsame : Bytes.SameOutside storage s.storage (k.place c) a.width.bytes := by
    rw [← hst]
    exact Bytes.sameOutside_clear _ _ _ _
  obtain ⟨bs, hupdate, hmirror⟩ :=
    @pflashUpdate_spec c { s with storage := storage } ok _ _ s.storage hback hend hsame hm
  rw [hupdate]
  refine ⟨_, rfl, ?_⟩
  dsimp only
  split_ifs with hb
  · have hready : Ready c s.bypass (k :: h) := by
      unfold Ready
      rw [if_pos hb]
      exact hin hb
    exact ⟨⟨rfl, hready⟩, .inr (.inl hprog), hmirror⟩
  · exact ⟨tracked_resetFlash _ _, .inr (.inl hprog), hmirror⟩

theorem outcome_eraseCycle {ok : Bool} (hw : s.wcycle = 5) (ht : Tracked c s h) (hm : Mirrored c s)
    (hsafe : k.cmd = 0x10 ∨ k.cmd = 0x30 → s.bypass = false ∧ Backed c s ok) :
    ∃ p, eraseCycle c ok (k.place c) (k.boff c) k.cmd s = some p ∧ Outcome c s p (k :: h) := by
  have herase : ∀ off n, off + n ≤ c.chipLen → (k.cmd = 0x10 ∨ k.cmd = 0x30) →
      (s.bypass = false → Erases c (k :: h) s.storage (s.storage.fill off n 0xff)) →
      ∃ p, (if off + n ≤ c.chipLen then
        (pflashUpdate c ok off n { s with storage := s.storage.fill off n 0xff }).map fun s =>
          nextCycle { s with status := 0, timer := true, cmd := k.cmd }
        else none) = some p ∧ Outcome c s p (k :: h) := by
    intro off n hend hcmd her
    obtain ⟨hb, hback⟩ := hsafe hcmd
    obtain ⟨bs, hupdate, hmirror⟩ :=
      @pflashUpdate_spec c { s with storage := s.storage.fill off n 0xff } ok off n s.storage hback hend
        (Bytes.sameOutside_fill _ _ _ _) hm
    rw [if_pos hend, hupdate]
    refine ⟨_, rfl, ?_, .inr (.inr (her hb)), hmirror⟩
    exact (tracked_iff (n := 6) (congrArg (· + 1) hw)).2 ⟨hcmd, hb⟩
  have hsix : s.bypass = false → ∃ u₁ u₀ p h', h = u₁ :: u₀ :: p :: h' ∧ Unlock1 c u₁ ∧ Unlock0 c u₀ ∧
      p.cmd = 0x80 ∧ p.boff c = c.unlockAddr0 ∧ Unlocked c h' := by
    intro hb
    obtain ⟨hcmd, u₁, u₀, p, h', hh, hu₁, hu₀, hp⟩ := (tracked_iff hw).1 ht
    have hready := hp.ready
    unfold Ready at hready
    rw [hb] at hready
    exact ⟨u₁, u₀, p, h', hh, hu₁, hu₀, hp.cmd.trans hcmd, hp.addr hb, hready⟩
  unfold eraseCycle
  dsimp only
  by_cases hchip : k.cmd = 0x10
  · rw [if_pos hchip]
    by_cases haddr : k.boff c = c.unlockAddr0
    · rw [if_neg (not_not.2 haddr)]
      refine herase 0 c.chipLen (by omega) (.inl hchip) fun hb => ?_
      obtain ⟨u₁, u₀, p, h', rfl, hu₁, hu₀, hcmd, hp, hun⟩ := hsix hb
      exact ⟨k, u₁, u₀, p, h', rfl, hu₁, hu₀, hcmd, hp, hun, .inl ⟨hchip, haddr, rfl⟩⟩
    · rw [if_pos haddr]
      exact ⟨_, rfl, outcome_reset hm⟩
  · rw [if_neg hchip]
    by_cases hsector : k.cmd = 0x30
    · rw [if_pos hsector, sector_start]
      refine herase _ _ (sector_le (place_lt c k)) (.inr hsector) fun hb => ?_
      obtain ⟨u₁, u₀, p, h', rfl, hu₁, hu₀, hcmd, hp, hun⟩ := hsix hb
      exact ⟨k, u₁, u₀, p, h', rfl, hu₁, hu₀, hcmd, hp, hun, .inr ⟨hsector, rfl⟩⟩
    · rw [if_neg hsector]
      exact ⟨_, rfl, outcome_reset hm⟩

/-- One write, in whatever cycle it comes. -/
theorem pflashWrite_spec {a : Access} {value : ℕ} {ok : Bool} {before : Bytes} {fault : Bool} (ht : Tracked c s h)
    (hm : Mirrored c s) (hsafe : OpSafe c ⟨s, h, before, fault⟩ (.write a value ok)) :
    ∃ p, pflashWrite c ok a.offset value a.width.bytes s = some p ∧
      Outcome c s p (⟨a.offset, a.width.bytes, value⟩ :: h) := by
  generalize hk : (⟨a.offset, a.width.bytes, value⟩ : Cycle) = k
  have hcmd : UInt8.ofNat value = k.cmd := by rw [← hk]; rfl
  have hplace : a.offset &&& (c.chipLen - 1) = k.place c := by rw [← hk]; rfl
  have hboff : c.unit (k.place c &&& (c.sectorLen - 1)) = k.boff c := rfl
  obtain ⟨hprog, her⟩ := hsafe
  unfold pflashWrite
  dsimp only
  by_cases hreset : s.cmd ≠ 0xa0 ∧ UInt8.ofNat value = 0xf0
  · rw [if_pos hreset]
    exact ⟨_, rfl, outcome_reset hm⟩
  rw [if_neg hreset, hplace, hboff, hcmd]
  rw [hcmd] at hreset
  split
  case h_1 hw =>
    obtain ⟨hzero, hb⟩ := (tracked_iff hw).1 ht
    have hout := @outcome_checkUnlock0 c { s with romMode := false } h k hm
      (fun _ _ hb' => absurd (hb.symm.trans hb') (by decide))
      fun hu => (tracked_iff (n := 1) (congrArg (· + 1) hw)).2 ⟨hzero, hb, k, h, rfl, hu⟩
    exact ⟨_, rfl, hout.tracked, hout.changes, hout.mirrored⟩
  case h_2 hw =>
    obtain ⟨hzero, hb, u₀, h', rfl, hu₀⟩ := (tracked_iff hw).1 ht
    refine ⟨_, rfl, outcome_checkUnlock1 hm fun hu => ?_⟩
    refine (tracked_iff (n := 2) (congrArg (· + 1) hw)).2 ⟨hzero, ?_⟩
    show Ready c s.bypass _
    rw [hb]
    exact ⟨k, u₀, h', rfl, hu, hu₀⟩
  case h_3 hw => exact ⟨_, rfl, outcome_startCommand hw ((tracked_iff hw).1 ht).2 hm⟩
  case h_4 hw =>
    have hquery : s.cmd = 0x80 ∨ s.cmd = 0x90 → k.boff c = 0x55 → k.cmd = 0x98 → s.bypass = true → InBypass c (k :: h) := by
      intro hcmd' hboff hcfi hb
      have hbefore := ht.inBypass hb
      obtain ⟨-, p, h', rfl, hp⟩ := (tracked_iff hw).1 ht
      exact hbefore.continued (.inr (.inr (.inr ⟨hp.cmd ▸ hcmd', hboff, hcfi⟩)))
    by_cases herase : s.cmd = 0x80
    · rw [if_pos herase]
      refine ⟨_, rfl, outcome_checkUnlock0 hm (hquery (.inl herase)) fun hu => ?_⟩
      obtain ⟨-, p, h', rfl, hp⟩ := (tracked_iff hw).1 ht
      exact (tracked_iff (n := 4) (congrArg (· + 1) hw)).2 ⟨herase, k, p, h', rfl, hu, hp⟩
    · rw [if_neg herase]
      by_cases hprogram : s.cmd = 0xa0
      · obtain ⟨hwidth, hback⟩ := hprog hw hprogram
        rw [if_pos hprogram, ← hcmd]
        exact outcome_writeData hw hprogram ht hm hwidth hback hk.symm
      · rw [if_neg hprogram]
        split_ifs with hcfi
        · exact ⟨_, rfl, .quiet hm ⟨rfl, hquery (.inr hcfi.1) hcfi.2.2.1 hcfi.2.2.2⟩ rfl rfl⟩
        · exact ⟨_, rfl, outcome_reset hm⟩
  case h_5 hw =>
    obtain ⟨herase, u₀, p, h', rfl, hu₀, hp⟩ := (tracked_iff hw).1 ht
    rw [if_neg (by rw [herase]; decide), if_pos herase]
    refine ⟨_, rfl, outcome_checkUnlock1 hm fun hu => ?_⟩
    exact (tracked_iff (n := 5) (congrArg (· + 1) hw)).2 ⟨herase, k, u₀, p, h', rfl, hu, hu₀, hp⟩
  case h_6 hw => exact outcome_eraseCycle hw ht hm (hcmd ▸ her hw)
  case h_7 hw =>
    obtain ⟨hcmd', hb⟩ := (tracked_iff hw).1 ht
    rw [if_pos hcmd']
    exact ⟨_, rfl, .quiet hm ((tracked_iff hw).2 ⟨hcmd', hb⟩) rfl rfl⟩
  case h_8 => exact ⟨_, rfl, outcome_reset hm⟩

/-! ### Reads and the timer -/

theorem length_cfiTable (c : Config) : (cfiTable c).length = cfiLen := rfl

/-- A read leaves the storage and the automaton. -/
theorem pflashRead_spec {a : Access} (ht : Tracked c s h) (hwidth : a.width.bytes ≤ c.chipLen)
    (hcfi : s.cmd = 0x98 → c.unit (a.offset &&& (c.chipLen - 1) &&& 0xff) ≠ cfiLen) :
    ∃ ret status, pflashRead c a.offset a.width.bytes s = some (ret, { s with status := status }) := by
  have harray : ∃ ret, flashRead c (a.offset &&& (c.chipLen - 1)) a.width.bytes s = some ret := by
    unfold flashRead
    rw [if_pos (access_le hwidth)]
    exact ⟨_, rfl⟩
  obtain ⟨ret, hret⟩ := harray
  unfold pflashRead
  dsimp only
  split_ifs with harray hident hstatus hquery hbeyond
  · rw [hret]
    exact ⟨ret, s.status, rfl⟩
  · split
    · exact ⟨_, s.status, rfl⟩
    · rw [hret]
      exact ⟨ret, s.status, rfl⟩
  · exact ⟨_, _, rfl⟩
  · exact ⟨0, s.status, rfl⟩
  · have hlt : c.unit (a.offset &&& (c.chipLen - 1) &&& 0xff) < (cfiTable c).length := by
      have hne := hcfi hquery
      rw [length_cfiTable]
      omega
    rw [List.getElem?_eq_getElem hlt]
    exact ⟨_, s.status, rfl⟩
  · rcases ht.cmd_cases with hcmd | hcmd | hcmd | hcmd
    · exact absurd hcmd harray
    · exact absurd hcmd hident
    · exact absurd hcmd hstatus
    · exact absurd hcmd hquery

theorem tracked_pflashTimer (ht : Tracked c s h) : Tracked c (pflashTimer { s with timer := false }) h := by
  unfold pflashTimer
  dsimp only
  split_ifs with hb
  · refine ⟨rfl, ?_⟩
    unfold Ready
    rw [if_pos hb]
    exact ht.inBypass hb
  · exact ⟨rfl, Bool.eq_false_iff.2 hb⟩

theorem storage_pflashTimer (s : Pflash) : (pflashTimer s).storage = s.storage ∧ (pflashTimer s).bs = s.bs := by
  unfold pflashTimer
  dsimp only
  split_ifs <;> exact ⟨rfl, rfl⟩

/-! ### Runs -/

/-- An operation that meets its condition keeps the protocol. -/
theorem right_step {s : Sys} {op : Op} (hr : Right c s) (ht : Tracked c s.pfl s.cycles) (hsafe : OpSafe c s op) :
    Right c (s.step c op) ∧ Tracked c (s.step c op).pfl (s.step c op).cycles := by
  cases op with
  | read a =>
    dsimp only [Sys.step]
    by_cases hrom : s.pfl.romMode = true
    · rw [if_pos hrom]
      exact ⟨⟨hr.inside, .inl rfl, hr.mirrors⟩, ht⟩
    · obtain ⟨hwidth, hcfi⟩ := hsafe (Bool.eq_false_iff.2 hrom)
      obtain ⟨ret, status, hread⟩ := pflashRead_spec ht hwidth hcfi
      rw [if_neg hrom, hread]
      exact ⟨⟨hr.inside, .inl rfl, hr.mirrors⟩, ht⟩
  | write a value ok =>
    dsimp only [Sys.step]
    obtain ⟨p, hwrite, hout⟩ := pflashWrite_spec ht hr.mirrors hsafe
    rw [hwrite]
    exact ⟨⟨hr.inside, hout.changes, hout.mirrored⟩, hout.tracked⟩
  | timer =>
    dsimp only [Sys.step]
    by_cases htimer : s.pfl.timer = true
    · rw [if_pos htimer]
      obtain ⟨hst, hbs⟩ := storage_pflashTimer { s.pfl with timer := false }
      refine ⟨⟨hr.inside, .inl hst, fun disk hdisk => ?_⟩, tracked_pflashTimer ht⟩
      show Bytes.Mirrors disk (pflashTimer { s.pfl with timer := false }).storage c.chipLen
      rw [hst]
      exact hr.mirrors disk (hbs.symm.trans hdisk)
    · rw [if_neg htimer]
      exact ⟨⟨hr.inside, .inl rfl, hr.mirrors⟩, ht⟩

theorem right_init (c : Config) (ram : Bytes) {bs : Option Bytes} {ok : Bool}
    (hbs : bs ≠ none → 9 ≤ c.chipBits ∧ ok = true) : Right c (Sys.init c ram bs ok) := by
  refine ⟨rfl, .inl rfl, fun disk hdisk => ?_⟩
  have hdisk' : bs = some disk := hdisk
  subst hdisk'
  obtain ⟨hbits, rfl⟩ := hbs (Option.some_ne_none _)
  have hunits : c.chipLen / 512 * 512 = c.chipLen := Nat.div_mul_cancel (Nat.pow_dvd_pow 2 hbits)
  intro i hi
  show disk i = ram.write 0 (c.chipLen / 512 * 512) disk i
  have hwrite := @Bytes.write_apply_of_mem ram disk 0 (c.chipLen / 512 * 512) i (by omega)
  rw [Nat.zero_add] at hwrite
  exact hwrite.symm

/-- A chip of four sectors of 512 bytes. -/
def Config.small : Config where
  sectorBits := 9
  chipBits := 11
  sector_le := by decide
  chip_lt := by decide
  width := 1
  id0 := 0
  id1 := 0
  id2 := 0
  id3 := 0
  unlockAddr0 := 0xaa
  unlockAddr1 := 0x55
  bigEndian := false

def byteAt (offset : ℕ) : Access := ⟨.b, offset, one_dvd _⟩

def programByte : List Op :=
  [.write (byteAt 0xaa) 0xaa true, .write (byteAt 0x55) 0x55 true, .write (byteAt 0xaa) 0xa0 true,
    .write (byteAt 0x300) 0x5a true]

end Ar7Qemu.PflashCfi02
