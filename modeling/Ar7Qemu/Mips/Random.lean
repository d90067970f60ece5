import Ar7Qemu.Lib.Redraw
import Ar7Qemu.Mips.Interrupts
import Ar7Qemu.Mips.Mmu

/-! The random replacement of TLB entries: `cpu_mips_get_random` with its shift register and the
index it remembers, writes to Wired, `tlbwr` and reads of Random. A draw is repeated until it gives
another index than the last, so that it does not end where only one index is left and was the last
one. -/

namespace Ar7Qemu.Mips

open Lib

/-- One step of the shift register. -/
def lfsrNext (lfsr : Word) : Word := (lfsr >>> 1) ^^^ (-(lfsr &&& 1) &&& 0xd0000001)

structure RandomState where
  lfsr : Word
  prevIdx : ℕ
  mmu : MmuState

/-- `cpu_mips_get_random`, with so many steps of its loop: the index and the state after. -/
def RandomState.getRandom (fuel : ℕ) (s : RandomState) : Option (ℕ × RandomState) :=
  (redraw lfsrNext (fun x => s.mmu.cpuMipsGetRandom x.toNat) s.prevIdx fuel s.lfsr).map fun x =>
    (s.mmu.cpuMipsGetRandom x.toNat, { s with lfsr := x, prevIdx := s.mmu.cpuMipsGetRandom x.toNat })

inductive RandomOp where
  /-- `helper_mtc0_wired`. -/
  | mtc0Wired (arg1 : Word)
  /-- `helper_mfc0_random`. -/
  | mfc0Random
  /-- `r4k_helper_tlbwr`. -/
  | tlbwr

/-- One operation, when its draw ends in so many steps. -/
def RandomState.step (fuel : ℕ) (s : RandomState) : RandomOp → Option RandomState
  | .mtc0Wired arg1 => some { s with mmu := s.mmu.helperMtc0Wired arg1 }
  | .mfc0Random => (s.getRandom fuel).map Prod.snd
  | .tlbwr => (s.getRandom fuel).map fun r => { r.2 with mmu := s.mmu.r4kHelperTlbwr r.2.lfsr.toNat }

/-- The states that sequences of operations reach, each of which has ended. -/
inductive RandomState.Reaches (s : RandomState) : List RandomOp → RandomState → Prop
  | nil : Reaches s [] s
  | snoc {ops : List RandomOp} {t t' : RandomState} (op : RandomOp) (fuel : ℕ) (hops : Reaches s ops t)
    (hstep : t.step fuel op = some t') : Reaches s (ops ++ [op]) t'

/-- The generator is as at the start, and Wired within the TLB. -/
structure RandomState.Initial (s : RandomState) : Prop where
  lfsr : s.lfsr = 1
  prevIdx : s.prevIdx = 0
  wired : s.mmu.cp0Wired = 0
  inUse : s.mmu.tlbInUse = s.mmu.nbTlb

/-! ### The shift register -/

theorem getLsbD_lfsrNext (x : Word) {i : ℕ} (hi : i < 32) :
    (lfsrNext x).getLsbD i = (x.getLsbD (1 + i) ^^ (x.getLsbD 0 && (0xd0000001 : Word).getLsbD i)) := by
  have hmask : -(x &&& 1) = if x.getLsbD 0 then BitVec.allOnes 32 else 0 := by
    have hand : x &&& 1 = if x.getLsbD 0 then 1 else 0 := by
      apply BitVec.eq_of_getLsbD_eq
      intro j hj
      have hone : (1 : Word).getLsbD j = decide (j = 0) := by simp
      rw [BitVec.getLsbD_and, hone]
      by_cases h0 : j = 0
      · subst h0
        cases x.getLsbD 0 <;> rfl
      · cases x.getLsbD 0 <;> simp [h0]
    rw [hand]
    cases x.getLsbD 0 <;> rfl
  rw [lfsrNext, hmask, BitVec.getLsbD_xor, BitVec.getLsbD_ushiftRight, BitVec.getLsbD_and]
  cases x.getLsbD 0 with
  | false => simp
  | true => rw [if_pos rfl, BitVec.getLsbD_allOnes, decide_eq_true hi]

/-- The top bit tells which bit was shifted out. -/
theorem lfsrNext_injective : Function.Injective lfsrNext := by
  intro x y heq
  have hbit : ∀ i < 32, (x.getLsbD (1 + i) ^^ (x.getLsbD 0 && (0xd0000001 : Word).getLsbD i)) =
      (y.getLsbD (1 + i) ^^ (y.getLsbD 0 && (0xd0000001 : Word).getLsbD i)) := by
    intro i hi
    rw [← getLsbD_lfsrNext x hi, ← getLsbD_lfsrNext y hi, heq]
  have h0 : x.getLsbD 0 = y.getLsbD 0 := by
    have htop := hbit 31 (by decide)
    rw [BitVec.getLsbD_of_ge x _ (by decide), BitVec.getLsbD_of_ge y _ (by decide)] at htop
    simpa using htop
  apply BitVec.eq_of_getLsbD_eq
  intro i hi
  cases i with
  | zero => exact h0
  | succ i =>
    have hnext := hbit i (by omega)
    rw [h0] at hnext
    rw [Nat.add_comm i 1]
    exact Bool.xor_left_inj.1 hnext

theorem lfsrNext_zero : lfsrNext 0 = 0 := by decide

theorem lfsrNext_two : lfsrNext 2 = 1 := by decide

instance : Finite Word := Finite.of_injective BitVec.toFin fun _ _ heq => BitVec.eq_of_toFin_eq heq

theorem iterate_lfsrNext_ne_zero (n : ℕ) : lfsrNext^[n] 1 ≠ 0 := by
  induction n with
  | zero => decide
  | succ n ih =>
    rw [Function.iterate_succ_apply']
    intro hzero
    exact ih (lfsrNext_injective (hzero.trans lfsrNext_zero.symm))

theorem exists_iterate_two_one (n : ℕ) :
    (∃ k, lfsrNext^[k + 1] (lfsrNext^[n] 1) = 2) ∧ ∃ k, lfsrNext^[k + 1] (lfsrNext^[n] 1) = 1 := by
  have htwo := exists_iterate_back lfsrNext_injective 2 (n + 1)
  rw [Function.iterate_succ_apply, lfsrNext_two] at htwo
  exact ⟨htwo, exists_iterate_back lfsrNext_injective 1 n⟩

/-! ### What an operation keeps -/

namespace RandomState

variable {s s' : RandomState}

/-- The generator is on its orbit, Wired within the TLB, and the shadow entries behind it. -/
structure Ok (s : RandomState) : Prop where
  orbit : ∃ n, s.lfsr = lfsrNext^[n] 1
  wired : s.mmu.cp0Wired < s.mmu.nbTlb
  shadow : s.mmu.nbTlb ≤ s.mmu.tlbInUse

theorem Initial.ok (h : s.Initial) (hnb : 2 ≤ s.mmu.nbTlb) : s.Ok :=
  ⟨⟨0, h.lfsr⟩, by rw [h.wired]; omega, h.inUse.ge⟩

theorem cpuMipsGetRandom_mem (σ : MmuState) (hwired : σ.cp0Wired < σ.nbTlb) (lfsr : ℕ) :
    σ.cp0Wired ≤ σ.cpuMipsGetRandom lfsr ∧ σ.cpuMipsGetRandom lfsr < σ.nbTlb := by
  have hlt := Nat.mod_lt lfsr (show 0 < σ.nbTlb - σ.cp0Wired by omega)
  unfold MmuState.cpuMipsGetRandom
  omega

theorem getRandom_eq_some {fuel r : ℕ} (h : s.getRandom fuel = some (r, s')) :
    ∃ k, s' = { s with lfsr := lfsrNext^[k + 1] s.lfsr, prevIdx := r } ∧
      r = s.mmu.cpuMipsGetRandom (lfsrNext^[k + 1] s.lfsr).toNat := by
  unfold getRandom at h
  obtain ⟨x, hx, hr⟩ := Option.map_eq_some_iff.1 h
  obtain ⟨⟨k, rfl⟩, -⟩ := redraw_eq_some hx
  obtain ⟨rfl, rfl⟩ := Prod.mk.inj hr
  exact ⟨k, rfl, rfl⟩

theorem Ok.getRandom {fuel r : ℕ} (hok : s.Ok) (h : s.getRandom fuel = some (r, s')) : s'.Ok ∧ s'.mmu = s.mmu := by
  obtain ⟨k, rfl, -⟩ := getRandom_eq_some h
  obtain ⟨n, hn⟩ := hok.orbit
  have horbit : lfsrNext^[k + 1] s.lfsr = lfsrNext^[k + 1 + n] 1 := by rw [hn, ← Function.iterate_add_apply]
  exact ⟨⟨⟨k + 1 + n, horbit⟩, hok.wired, hok.shadow⟩, rfl⟩

theorem r4kHelperTlbwr_keeps (σ : MmuState) (hwired : σ.cp0Wired < σ.nbTlb) (hshadow : σ.nbTlb ≤ σ.tlbInUse) (lfsr : ℕ) :
    (σ.r4kHelperTlbwr lfsr).nbTlb = σ.nbTlb ∧ (σ.r4kHelperTlbwr lfsr).cp0Wired = σ.cp0Wired ∧
      σ.tlbInUse ≤ (σ.r4kHelperTlbwr lfsr).tlbInUse ∧ ∀ j < σ.cp0Wired, (σ.r4kHelperTlbwr lfsr).tlb j = σ.tlb j := by
  have hr := cpuMipsGetRandom_mem σ hwired lfsr
  unfold MmuState.r4kHelperTlbwr MmuState.r4kInvalidateTlb MmuState.r4kFillTlb
  dsimp only
  split_ifs
  · refine ⟨rfl, rfl, le_rfl, fun j hj => ?_⟩
    exact Function.update_of_ne (by omega) ..
  · refine ⟨rfl, rfl, Nat.le_succ _, fun j hj => ?_⟩
    exact (Function.update_of_ne (by omega) ..).trans (Function.update_of_ne (by omega) ..)
  · refine ⟨rfl, rfl, le_rfl, fun j hj => ?_⟩
    exact Function.update_of_ne (by omega) ..

theorem Ok.step {fuel : ℕ} {op : RandomOp} (hok : s.Ok) (h : s.step fuel op = some s') :
    s'.Ok ∧ s'.mmu.nbTlb = s.mmu.nbTlb := by
  cases op with
  | mtc0Wired arg1 =>
    obtain rfl := Option.some.inj h
    have hpos : 0 < s.mmu.nbTlb := Nat.zero_lt_of_lt hok.wired
    exact ⟨⟨hok.orbit, Nat.mod_lt _ hpos, hok.shadow⟩, rfl⟩
  | mfc0Random =>
    obtain ⟨⟨r, t⟩, hr, rfl⟩ := Option.map_eq_some_iff.1 h
    obtain ⟨hok', hmmu⟩ := hok.getRandom hr
    exact ⟨hok', by rw [hmmu]⟩
  | tlbwr =>
    obtain ⟨⟨r, t⟩, hr, rfl⟩ := Option.map_eq_some_iff.1 h
    obtain ⟨hok', hmmu⟩ := hok.getRandom hr
    obtain ⟨hnb, hwired, hshadow, -⟩ := r4kHelperTlbwr_keeps s.mmu hok.wired hok.shadow t.lfsr.toNat
    refine ⟨⟨hok'.orbit, ?_, ?_⟩, hnb⟩
    · exact hwired.trans_lt (hok.wired.trans_eq hnb.symm)
    · exact hnb.le.trans (hok.shadow.trans hshadow)

theorem Reaches.ok {ops : List RandomOp} (hok : s.Ok) (h : s.Reaches ops s') :
    s'.Ok ∧ s'.mmu.nbTlb = s.mmu.nbTlb := by
  induction h with
  | nil => exact ⟨hok, rfl⟩
  | snoc op fuel hops hstep ih =>
    obtain ⟨hok', hnb⟩ := ih.1.step hstep
    exact ⟨hok', hnb.trans ih.2⟩

/-! ### When a draw ends -/

/-- More than one index is left, or the last one was another. -/
def Free (s : RandomState) : Prop := s.mmu.cp0Wired + 1 < s.mmu.nbTlb ∨ s.prevIdx ≠ s.mmu.cp0Wired

theorem cpuMipsGetRandom_two_ne_one {σ : MmuState} (hroom : σ.cp0Wired + 1 < σ.nbTlb) :
    σ.cpuMipsGetRandom 2 ≠ σ.cpuMipsGetRandom 1 := by
  unfold MmuState.cpuMipsGetRandom
  rw [Nat.mod_eq_of_lt (show 1 < σ.nbTlb - σ.cp0Wired by omega)]
  by_cases hrange : σ.nbTlb - σ.cp0Wired = 2
  · rw [hrange]
    omega
  · rw [Nat.mod_eq_of_lt (show 2 < σ.nbTlb - σ.cp0Wired by omega)]
    omega

theorem Ok.exists_getRandom_iff (hok : s.Ok) : (∃ fuel r s', s.getRandom fuel = some (r, s')) ↔ s.Free := by
  have hends : (∃ fuel r s', s.getRandom fuel = some (r, s')) ↔
      ∃ k, s.mmu.cpuMipsGetRandom (lfsrNext^[k + 1] s.lfsr).toNat ≠ s.prevIdx := by
    rw [← exists_redraw_iff (f := lfsrNext) (g := fun x => s.mmu.cpuMipsGetRandom x.toNat)]
    constructor
    · rintro ⟨fuel, r, s', h⟩
      obtain ⟨x, hx, -⟩ := Option.map_eq_some_iff.1 h
      exact ⟨fuel, x, hx⟩
    · rintro ⟨fuel, x, hx⟩
      exact ⟨fuel, _, _, Option.map_eq_some_iff.2 ⟨x, hx, rfl⟩⟩
  have hwired := hok.wired
  rw [hends]
  constructor
  · rintro ⟨k, hne⟩
    by_contra hstuck
    unfold Free at hstuck
    have hone : s.mmu.nbTlb - s.mmu.cp0Wired = 1 := by omega
    unfold MmuState.cpuMipsGetRandom at hne
    rw [hone, Nat.mod_one] at hne
    omega
  · intro hfree
    by_cases hroom : s.mmu.cp0Wired + 1 < s.mmu.nbTlb
    · obtain ⟨n, hn⟩ := hok.orbit
      obtain ⟨⟨k, htwo⟩, k', hone⟩ := exists_iterate_two_one n
      rw [← hn] at htwo hone
      by_cases heq : s.mmu.cpuMipsGetRandom 2 = s.prevIdx
      · refine ⟨k', ?_⟩
        rw [hone]
        exact fun h => cpuMipsGetRandom_two_ne_one hroom (heq.trans h.symm)
      · refine ⟨k, ?_⟩
        rw [htwo]
        exact heq
    · refine ⟨0, ?_⟩
      have hone : s.mmu.nbTlb - s.mmu.cp0Wired = 1 := by omega
      unfold MmuState.cpuMipsGetRandom
      rw [hone, Nat.mod_one, Nat.zero_add]
      exact (hfree.resolve_left hroom).symm

end RandomState

/-- In every state that writes to Wired, reads of Random and `tlbwr` reach, the register is not zero,
and a draw ends with an index of the TLB that is not wired exactly when more than one index is left
or the last draw gave another; `tlbwr` then keeps the wired entries. -/
theorem random_draws (s t : RandomState) (ops : List RandomOp) (hinit : s.Initial) (hnb : 2 ≤ s.mmu.nbTlb)
    (hreach : s.Reaches ops t) :
    t.lfsr ≠ 0 ∧
      ((∃ fuel r t', t.getRandom fuel = some (r, t') ∧ t.mmu.cp0Wired ≤ r ∧ r < s.mmu.nbTlb) ↔ t.Free) ∧
      ∀ lfsr, ∀ j < t.mmu.cp0Wired, (t.mmu.r4kHelperTlbwr lfsr).tlb j = t.mmu.tlb j := by
  obtain ⟨hok, hsize⟩ := RandomState.Reaches.ok (hinit.ok hnb) hreach
  refine ⟨?_, ?_, fun lfsr j hj => ?_⟩
  · obtain ⟨n, hn⟩ := hok.orbit
    rw [hn]
    exact iterate_lfsrNext_ne_zero n
  · rw [← hok.exists_getRandom_iff]
    constructor
    · rintro ⟨fuel, r, t', h, -⟩
      exact ⟨fuel, r, t', h⟩
    · rintro ⟨fuel, r, t', h⟩
      obtain ⟨k, -, rfl⟩ := RandomState.getRandom_eq_some h
      have hmem := RandomState.cpuMipsGetRandom_mem t.mmu hok.wired (lfsrNext^[k + 1] t.lfsr).toNat
      exact ⟨fuel, _, t', h, hmem.1, hmem.2.trans_eq hsize⟩
  · exact (RandomState.r4kHelperTlbwr_keeps t.mmu hok.wired hok.shadow lfsr).2.2.2 j hj

/-- A CPU with sixteen TLB entries, at power on. -/
def randomStart : RandomState := ⟨1, 0, MmuState.powerOn powerOn 0x1e000000⟩

theorem randomStart_initial : randomStart.Initial := ⟨rfl, rfl, rfl, rfl⟩

/-- Three entries are wired, and entry 4 was drawn. -/
def fourDrawn : RandomState := ⟨0xd0000001, 4, (MmuState.powerOn powerOn 0x1e000000).helperMtc0Wired 3⟩

theorem random_draws_again : ∃ fuel r t', fourDrawn.getRandom fuel = some (r, t') ∧ 3 ≤ r ∧ r < 16 :=
  (random_draws randomStart fourDrawn [.mtc0Wired 3, .mfc0Random] randomStart_initial (by decide)
    (.snoc .mfc0Random 1 (.snoc (.mtc0Wired 3) 0 .nil rfl) rfl)).2.1.2 (.inl (by decide))

/-- All entries but the last are wired, and the last one was drawn. -/
def lastDrawn : RandomState := ⟨0xd0000001, 15, (MmuState.powerOn powerOn 0x1e000000).helperMtc0Wired 15⟩

/-- The second draw from a single index does not end. -/
theorem lastDrawn_hangs : randomStart.Reaches [.mtc0Wired 15, .mfc0Random] lastDrawn ∧
    ¬∃ fuel r t', lastDrawn.getRandom fuel = some (r, t') := by
  have hreach : randomStart.Reaches [.mtc0Wired 15, .mfc0Random] lastDrawn :=
    .snoc .mfc0Random 1 (.snoc (.mtc0Wired 15) 0 .nil rfl) rfl
  refine ⟨hreach, ?_⟩
  rw [(RandomState.Reaches.ok (randomStart_initial.ok (by decide)) hreach).1.exists_getRandom_iff]
  rintro (hroom | hprev)
  · exact absurd hroom (by decide)
  · exact hprev rfl

end Ar7Qemu.Mips
