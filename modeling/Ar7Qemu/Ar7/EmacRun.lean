import Ar7Qemu.Ar7.EmacVector

/-! Runs of the MAC: the effect of every event on the signals of the channels, and the
steps that leave the vector right. -/

namespace Ar7Qemu.Ar7

open Lib

/-! ### Every event -/

/-- An offset whose write changes neither a status bit nor a mask of a channel. -/
def PlainReg (offset : ℕ) : Prop :=
  (∀ d : Dir, offset ≠ d.teardown ∧ offset ≠ d.mask ∧ offset ≠ d.maskClear ∧
    ¬ (d.cp ≤ offset ∧ offset ≤ d.cp + 28)) ∧ ¬ (cpmacTx0hdp ≤ offset ∧ offset ≤ cpmacTx7hdp)

/-- What a write does that completes, by the kind of the register. -/
inductive WriteStep (fuel : ℕ) (s : Emac) (offset : ℕ) (val : Word) (s' : Emac) : Prop where
  | teardown (d : Dir) (hdp : ℕ) (hoff : offset = d.teardown) (hhdp : cpmacTx0hdp ≤ hdp)
      (h : Ar7.teardown s hdp d.cp d.raw val = some s')
  | maskSet (d : Dir) (hoff : offset = d.mask) (h : Ar7.maskSet s d.mask (bits 7 0) val = s')
  | maskClear (d : Dir) (hoff : offset = d.maskClear) (h : Ar7.maskClear s d.mask val = s')
  | macMask (v : Word) (hoff : offset = cpmacMacintmaskset ∨ offset = cpmacMacintmaskclear)
      (h : emacUpdateInterrupt (s.set cpmacMacintmaskset v) = s')
  | address (phys : List (BitVec 8)) (hoff : offset = cpmacMacaddrhi)
      (h : { s.set cpmacMacaddrhi val with phys := phys } = s')
  | send (hlo : cpmacTx0hdp ≤ offset) (hhi : offset ≤ cpmacTx7hdp) (h : emacTransmit fuel s offset val = some s')
  | cp (d : Dir) (hlo : d.cp ≤ offset) (hhi : offset ≤ d.cp + 28) (h : completionPointer s d.cp d.raw offset val = s')
  | set (a : ℕ) (v : Word) (ha : a = offset ∨ a = cpmacRxunicastset) (hplain : PlainReg offset)
      (hmac : offset ≠ cpmacMacintmaskset) (h : s.set a v = s')

theorem writeStep {fuel : ℕ} {s s' : Emac} {offset : ℕ} {val : Word} (h : ar7CpmacWrite fuel s offset val = some s') :
    WriteStep fuel s offset val s' := by
  rw [ar7CpmacWrite] at h
  by_cases h₀ : ¬ offset % 4 = 0
  · rw [if_pos h₀] at h
    cases h
  rw [if_neg h₀] at h
  by_cases htx : offset = cpmacTxteardown
  · rw [if_pos htx] at h
    exact .teardown .tx _ htx (by decide) h
  rw [if_neg htx] at h
  by_cases hrx : offset = cpmacRxteardown
  · rw [if_pos hrx] at h
    exact .teardown .rx _ hrx (by decide) h
  rw [if_neg hrx] at h
  by_cases h₁ : offset = cpmacRxmbpenable
  · rw [if_pos h₁] at h
    subst h₁
    exact .set _ _ (.inl rfl) ⟨fun d => by cases d <;> decide, by decide⟩ (by decide) (Option.some.inj h)
  rw [if_neg h₁] at h
  by_cases h₂ : offset = cpmacRxunicastset
  · rw [if_pos h₂] at h
    subst h₂
    exact .set _ _ (.inl rfl) ⟨fun d => by cases d <;> decide, by decide⟩ (by decide) (Option.some.inj h)
  rw [if_neg h₂] at h
  by_cases h₃ : offset = cpmacRxunicastclear
  · rw [if_pos h₃] at h
    subst h₃
    exact .set _ _ (.inr rfl) ⟨fun d => by cases d <;> decide, by decide⟩ (by decide) (Option.some.inj h)
  rw [if_neg h₃] at h
  by_cases h₄ : offset = cpmacRxmaxlen
  · rw [if_pos h₄] at h
    subst h₄
    exact .set _ _ (.inl rfl) ⟨fun d => by cases d <;> decide, by decide⟩ (by decide) (Option.some.inj h)
  rw [if_neg h₄] at h
  by_cases htm : offset = cpmacTxintmaskset
  · rw [if_pos htm] at h
    subst htm
    exact .maskSet .tx rfl (Option.some.inj h)
  rw [if_neg htm] at h
  by_cases htc : offset = cpmacTxintmaskclear
  · rw [if_pos htc] at h
    exact .maskClear .tx htc (Option.some.inj h)
  rw [if_neg htc] at h
  by_cases hrm : offset = cpmacRxintmaskset
  · rw [if_pos hrm] at h
    subst hrm
    exact .maskSet .rx rfl (Option.some.inj h)
  rw [if_neg hrm] at h
  by_cases hrc : offset = cpmacRxintmaskclear
  · rw [if_pos hrc] at h
    exact .maskClear .rx hrc (Option.some.inj h)
  rw [if_neg hrc] at h
  by_cases hmm : offset = cpmacMacintmaskset
  · rw [if_pos hmm] at h
    subst hmm
    exact .macMask _ (.inl rfl) (Option.some.inj h)
  rw [if_neg hmm] at h
  by_cases hmc : offset = cpmacMacintmaskclear
  · rw [if_pos hmc] at h
    exact .macMask _ (.inr hmc) (Option.some.inj h)
  rw [if_neg hmc] at h
  by_cases hhi : offset = cpmacMacaddrhi
  · rw [if_pos hhi] at h
    subst hhi
    exact .address _ rfl (Option.some.inj h)
  rw [if_neg hhi] at h
  by_cases hstat : cpmacRxgoodframes ≤ offset ∧ offset ≤ cpmacRxdmaoverruns
  · rw [if_pos hstat] at h
    have hplain : PlainReg offset := by
      refine ⟨fun d => ?_, ?_⟩
      · have : d.teardown < cpmacRxgoodframes ∧ d.mask < cpmacRxgoodframes ∧ d.maskClear < cpmacRxgoodframes ∧
          cpmacRxdmaoverruns < d.cp := by cases d <;> decide
        omega
      · have : cpmacRxdmaoverruns < cpmacTx0hdp := by decide
        omega
    by_cases hmii : s.get cpmacMaccontrol &&& maccontrolGmiien ≠ 0
    · rw [if_pos hmii] at h
      exact .set _ _ (.inl rfl) hplain hmm (Option.some.inj h)
    · rw [if_neg hmii] at h
      exact .set _ _ (.inl rfl) hplain hmm (Option.some.inj h)
  rw [if_neg hstat] at h
  by_cases hthdp : cpmacTx0hdp ≤ offset ∧ offset ≤ cpmacTx7hdp
  · rw [if_pos hthdp] at h
    exact .send hthdp.1 hthdp.2 h
  rw [if_neg hthdp] at h
  by_cases hrhdp : cpmacRx0hdp ≤ offset ∧ offset ≤ cpmacRx7hdp
  · rw [if_pos hrhdp] at h
    refine .set _ _ (.inl rfl) ⟨fun d => ?_, hthdp⟩ hmm (Option.some.inj h)
    have : d.teardown < cpmacRx0hdp ∧ d.mask < cpmacRx0hdp ∧ d.maskClear < cpmacRx0hdp ∧ cpmacRx7hdp < d.cp := by
      cases d <;> decide
    omega
  rw [if_neg hrhdp] at h
  by_cases htcp : cpmacTx0cp ≤ offset ∧ offset ≤ cpmacTx7cp
  · rw [if_pos htcp] at h
    exact .cp .tx htcp.1 htcp.2 (Option.some.inj h)
  rw [if_neg htcp] at h
  by_cases hrcp : cpmacRx0cp ≤ offset ∧ offset ≤ cpmacRx7cp
  · rw [if_pos hrcp] at h
    exact .cp .rx hrcp.1 hrcp.2 (Option.some.inj h)
  rw [if_neg hrcp] at h
  refine .set _ _ (.inl rfl) ⟨fun d => ?_, hthdp⟩ hmm (Option.some.inj h)
  cases d with
  | tx => exact ⟨htx, htm, htc, htcp⟩
  | rx => exact ⟨hrx, hrm, hrc, hrcp⟩

abbrev EventEffect (s s' : Emac) (e : EmacEvent) : Prop :=
  Effect s s' (fun d => e.raw s d) (fun d => e.mask s d) fun d => e.num s d

section Write

variable {s s' : Emac} {offset : ℕ} {ho : offset ∉ statusRegs} {val : Word}

theorem effect_plain (hp : PlainReg offset) (h : Quiet s s') :
    EventEffect s s' (.write offset ho val) := by
  have hsend : ¬ s.Sends offset val := fun hn => hp.2 ⟨hn.1, hn.2.1⟩
  refine h.congr (fun d => ?_) (fun d => ?_) fun d => ?_
  · obtain ⟨h₁, _, _, h₄⟩ := hp.1 d
    rw [EmacEvent.raw, if_neg h₁, if_neg h₄, if_neg fun hn => hsend hn.2]
  · obtain ⟨_, h₂, h₃, _⟩ := hp.1 d
    rw [EmacEvent.mask, if_neg h₂, if_neg h₃]
  · rw [EmacEvent.num, if_neg fun hn => hsend hn.2]

theorem effect_rawWrite (d : Dir) {v : Word}
    (h : Effect s s' (fun d' => if d' = d then v else s.get d'.raw) (fun d' => s.get d'.mask) fun _ => 0)
    (hv : (EmacEvent.write offset ho val).raw s d = v)
    (hother : ∀ d', d' ≠ d → (EmacEvent.write offset ho val).raw s d' = s.get d'.raw)
    (hmask : ∀ d' : Dir, offset ≠ d'.mask ∧ offset ≠ d'.maskClear)
    (hhdp : ¬ (cpmacTx0hdp ≤ offset ∧ offset ≤ cpmacTx7hdp)) :
    EventEffect s s' (.write offset ho val) := by
  have hsend : ¬ s.Sends offset val := fun hn => hhdp ⟨hn.1, hn.2.1⟩
  refine h.congr (fun d' => ?_) (fun d' => ?_) fun d' => ?_
  · split_ifs with hd
    · rw [hd, hv]
    · rw [hother d' hd]
  · rw [EmacEvent.mask, if_neg (hmask d').1, if_neg (hmask d').2]
  · rw [EmacEvent.num, if_neg fun hn => hsend hn.2]

theorem effect_maskWrite (d : Dir) {v : Word}
    (h : Effect s s' (fun d' => s.get d'.raw) (fun d' => if d' = d then v else s.get d'.mask) fun _ => 0)
    (hv : (EmacEvent.write offset ho val).mask s d = v)
    (hother : ∀ d', d' ≠ d → (EmacEvent.write offset ho val).mask s d' = s.get d'.mask)
    (hraw : ∀ d' : Dir, offset ≠ d'.teardown ∧ ¬ (d'.cp ≤ offset ∧ offset ≤ d'.cp + 28))
    (hhdp : ¬ (cpmacTx0hdp ≤ offset ∧ offset ≤ cpmacTx7hdp)) :
    EventEffect s s' (.write offset ho val) := by
  have hsend : ¬ s.Sends offset val := fun hn => hhdp ⟨hn.1, hn.2.1⟩
  refine h.congr (fun d' => ?_) (fun d' => ?_) fun d' => ?_
  · rw [EmacEvent.raw, if_neg (hraw d').1, if_neg (hraw d').2, if_neg fun hn => hsend hn.2]
  · split_ifs with hd
    · rw [hd, hv]
    · rw [hother d' hd]
  · rw [EmacEvent.num, if_neg fun hn => hsend hn.2]

theorem effect_teardownWrite (d : Dir) {hdp : ℕ} (hoff : offset = d.teardown) (hhdp : cpmacTx0hdp ≤ hdp)
    (h : teardown s hdp d.cp d.raw val = some s') :
    EventEffect s s' (.write offset ho val) := by
  subst hoff
  have hlow : 0x200 ≤ hdp := Nat.le_trans (by decide) hhdp
  refine effect_rawWrite d (effect_teardown d hlow (by cases d <;> decide) h) (if_pos rfl) (fun d' hd => ?_)
    (fun d' => by cases d <;> cases d' <;> decide) (by cases d <;> decide)
  have h₁ : d.teardown ≠ d'.teardown := by cases d <;> cases d' <;> first | decide | exact absurd rfl hd
  have h₂ : ¬ (d'.cp ≤ d.teardown ∧ d.teardown ≤ d'.cp + 28) := by cases d <;> cases d' <;> decide
  have h₃ : ¬ s.Sends d.teardown val := fun hn => absurd hn.1 (by cases d <;> decide)
  rw [EmacEvent.raw, if_neg h₁, if_neg h₂, if_neg fun hn => h₃ hn.2]

theorem effect_cpWrite (hs : s.Settled) (d : Dir) (hlo : d.cp ≤ offset) (hhi : offset ≤ d.cp + 28) :
    EventEffect s (completionPointer s d.cp d.raw offset val) (.write offset ho val) := by
  have hbig : 0x640 ≤ offset := Nat.le_trans (by cases d <;> decide) hlo
  have htear : ∀ d' : Dir, offset ≠ d'.teardown := fun d' hn => by
    have : d'.teardown < 0x640 := by cases d' <;> decide
    omega
  have hmask : ∀ d' : Dir, offset ≠ d'.mask ∧ offset ≠ d'.maskClear := fun d' => by
    have h₁ : d'.mask < 0x640 := by cases d' <;> decide
    have h₂ : d'.maskClear < 0x640 := by cases d' <;> decide
    omega
  have hhdp : ¬ (cpmacTx0hdp ≤ offset ∧ offset ≤ cpmacTx7hdp) := fun hn => by
    have : cpmacTx7hdp < 0x640 := by decide
    omega
  have hsend : ¬ s.Sends offset val := fun hn => hhdp ⟨hn.1, hn.2.1⟩
  refine effect_rawWrite d (effect_completionPointer hs d.cp offset val d) ?_ (fun d' hd => ?_) hmask hhdp
  · rw [EmacEvent.raw, if_neg (htear d), if_pos ⟨hlo, hhi⟩]
  · have hcp : ¬ (d'.cp ≤ offset ∧ offset ≤ d'.cp + 28) := by
      have : d.cp + 28 < d'.cp ∨ d'.cp + 28 < d.cp := by
        cases d <;> cases d' <;> first | decide | exact absurd rfl hd
      omega
    rw [EmacEvent.raw, if_neg (htear d'), if_neg hcp, if_neg fun hn => hsend hn.2]

theorem effect_maskSetWrite (d : Dir) (hoff : offset = d.mask)
    (h : maskSet s d.mask (bits 7 0) val = s') :
    EventEffect s s' (.write offset ho val) := by
  subst hoff
  cases h
  refine effect_maskWrite d (effect_mask d _) (if_pos rfl) (fun d' hd => ?_)
    (fun d' => by cases d <;> cases d' <;> decide) (by cases d <;> decide)
  have h₁ : d.mask ≠ d'.mask := by cases d <;> cases d' <;> first | exact absurd rfl hd | decide
  have h₂ : d.mask ≠ d'.maskClear := by cases d <;> cases d' <;> decide
  rw [EmacEvent.mask, if_neg h₁, if_neg h₂]

theorem effect_maskClearWrite (d : Dir) (hoff : offset = d.maskClear) (h : maskClear s d.mask val = s') :
    EventEffect s s' (.write offset ho val) := by
  subst hoff
  cases h
  have h₁ : ∀ d' : Dir, d.maskClear ≠ d'.mask := fun d' => by cases d <;> cases d' <;> decide
  refine effect_maskWrite d (effect_mask d _) ?_ (fun d' hd => ?_)
    (fun d' => by cases d <;> cases d' <;> decide) (by cases d <;> decide)
  · rw [EmacEvent.mask, if_neg (h₁ d), if_pos rfl]
  · have h₂ : d.maskClear ≠ d'.maskClear := by cases d <;> cases d' <;> first | exact absurd rfl hd | decide
    rw [EmacEvent.mask, if_neg (h₁ d'), if_neg h₂]

theorem effect_hdpWrite (hs : s.Settled) {fuel : ℕ} (hlo : cpmacTx0hdp ≤ offset) (hhi : offset ≤ cpmacTx7hdp)
    (h : emacTransmit fuel s offset val = some s') :
    EventEffect s s' (.write offset ho val) := by
  have hrange : ∀ d : Dir, offset ≠ d.teardown ∧ ¬ (d.cp ≤ offset ∧ offset ≤ d.cp + 28) ∧ offset ≠ d.mask ∧
      offset ≠ d.maskClear := fun d => by
    have : d.teardown < cpmacTx0hdp ∧ cpmacTx7hdp < d.cp ∧ d.mask < cpmacTx0hdp ∧ d.maskClear < cpmacTx0hdp := by
      cases d <;> decide
    omega
  have hmask : ∀ d : Dir, s.get d.mask = (EmacEvent.write offset ho val).mask s d := fun d => by
    rw [EmacEvent.mask, if_neg (hrange d).2.2.1, if_neg (hrange d).2.2.2]
  have htx := effect_emacTransmit hs hlo hhi h
  by_cases hsend : s.Sends offset val
  · rw [if_pos hsend] at htx
    refine htx.congr (fun d => ?_) hmask fun d => ?_
    · rw [EmacEvent.raw, if_neg (hrange d).1, if_neg (hrange d).2.1]
      cases d with
      | tx => rw [if_pos rfl, if_pos ⟨rfl, hsend⟩]
      | rx => rfl
    · cases d with
      | tx => rw [EmacEvent.num, if_pos rfl, if_pos ⟨rfl, hsend⟩]
      | rx => rfl
  · rw [if_neg hsend] at htx
    refine htx.congr (fun d => ?_) hmask fun d => ?_
    · rw [EmacEvent.raw, if_neg (hrange d).1, if_neg (hrange d).2.1, if_neg fun hn => hsend hn.2]
    · rw [EmacEvent.num, if_neg fun hn => hsend hn.2]

end Write

theorem effect_write {s s' : Emac} (hs : s.Settled) {fuel offset : ℕ} (ho : offset ∉ statusRegs) {val : Word}
    (h : ar7CpmacWrite fuel s offset val = some s') :
    EventEffect s s' (.write offset ho val) := by
  cases writeStep h with
  | teardown d hdp hoff hhdp h => exact effect_teardownWrite d hoff hhdp h
  | maskSet d hoff h => exact effect_maskSetWrite d hoff h
  | maskClear d hoff h => exact effect_maskClearWrite d hoff h
  | macMask v hoff h =>
    subst h
    refine effect_plain ?_ (quiet_macMask _)
    rcases hoff with rfl | rfl <;> exact ⟨fun d => by cases d <;> decide, by decide⟩
  | address phys hoff hstep =>
    subst hoff
    subst hstep
    have hset := SameSignals.set s (a := cpmacMacaddrhi) (by decide) val
    have hphys : SameSignals s { s.set cpmacMacaddrhi val with phys := phys } := ⟨hset.irq, hset.get⟩
    exact effect_plain ⟨fun d => by cases d <;> decide, by decide⟩ (hphys.quiet hs)
  | send hlo hhi h => exact effect_hdpWrite hs hlo hhi h
  | cp d hlo hhi h =>
    subst h
    exact effect_cpWrite hs d hlo hhi
  | set a v ha hplain hmac h =>
    subst h
    -- the offset is neither a status register nor a mask
    have hsig : offset ∉ signalRegs := by
      have htm := (hplain.1 .tx).2.1
      have hrm := (hplain.1 .rx).2.1
      simp only [statusRegs, List.mem_cons, not_or, List.not_mem_nil, not_false_eq_true, and_true] at ho
      simp only [signalRegs, List.mem_cons, not_or, List.not_mem_nil, not_false_eq_true, and_true]
      exact ⟨ho.1, htm, ho.2.1, hrm, ho.2.2.1, hmac, ho.2.2.2⟩
    have hstored : a ∉ signalRegs := by
      rcases ha with rfl | rfl
      · exact hsig
      · decide
    exact effect_plain hplain ((SameSignals.set s hstored v).quiet hs)

theorem effect_handle {s s' : Emac} (hs : s.Settled) {fuel : ℕ} {e : EmacEvent} (h : s.handle fuel e = some s') :
    EventEffect s s' e := by
  cases e with
  | write offset ho val => exact effect_write hs ho h
  | receive buf =>
    have hrec := effect_receive hs h
    cases hst : s.stores buf with
    | none =>
      rw [hst] at hrec
      refine hrec.congr (fun d => ?_) (fun d => rfl) fun d => ?_ <;>
        cases d <;> simp only [EmacEvent.raw, EmacEvent.num, hst]
    | some channel =>
      rw [hst] at hrec
      refine hrec.congr (fun d => ?_) (fun d => rfl) fun d => ?_ <;>
        cases d <;> simp only [EmacEvent.raw, EmacEvent.num, hst, if_true, reduceCtorEq, if_false]
  | memory mem =>
    cases h
    have hmem : SameSignals s { s with mem := mem } := SameSignals.of_cpmac rfl rfl
    exact hmem.quiet hs

/-! ### Every run -/

section Init

variable (reset : Bool) (mem : GuestMem) (phys : List (BitVec 8)) (vc bigEndian : Bool)

theorem get_init : ∀ a ∈ signalRegs, (Emac.init reset mem phys vc bigEndian).get a = 0 := by
  cases reset <;> simp [signalRegs, Emac.init, Emac.get, emacReset, cpmacTxidver, cpmacRxidver, cpmacRxmaxlen,
    cpmacTxintstatraw, cpmacTxintmaskset, cpmacRxintstatraw, cpmacRxintmaskset, cpmacMacintstatraw,
    cpmacMacintmaskset, cpmacMacinvector, regRead, regWrite]

theorem stat_init (d : Dir) : (Emac.init reset mem phys vc bigEndian).stat d = 0 := by
  rw [Emac.stat, get_init _ _ _ _ _ _ (by cases d <;> decide)]
  simp

theorem settled_init : (Emac.init reset mem phys vc bigEndian).Settled := by
  have hmac : (Emac.init reset mem phys vc bigEndian).macStat = 0 := by
    rw [Emac.macStat, get_init _ _ _ _ _ _ (by decide)]
    simp
  refine ⟨?_, fun d => ?_, fun d _ => ?_⟩
  · rw [Emac.IrqRight, stat_init, stat_init, hmac]
    simp [Emac.init]
  · rw [Emac.intOr, get_init _ _ _ _ _ _ (by decide), stat_init]
    simp
  · rw [Emac.vec, get_init _ _ _ _ _ _ (by decide)]
    simp

end Init

theorem step_vecRight {s s' : Emac} (hs : s.Settled) {fuel : ℕ} {e : EmacEvent} (h : s.handle fuel e = some s') :
    s'.Settled ∧ ((∀ d, s'.VecRight d) ↔ VectorSafe s e) := by
  have he := effect_handle hs h
  refine ⟨he.settled, forall_congr' fun d => ?_⟩
  have hstat : s'.stat d = e.raw s d &&& e.mask s d := by rw [Emac.stat, he.raw, he.mask]
  rw [Emac.VecRight, he.settled.intOr, hstat, he.vec, decide_eq_true_iff]
  by_cases hz : e.raw s d &&& e.mask s d = 0
  · simp [hz]
  · rw [if_pos hz, imp_iff_right hz]
    exact (or_iff_right hz).symm

/-- The interrupt request of the MAC is right in every state. Both vector fields are right
in every state of a run exactly when every step of it is safe. -/
theorem emac_vector_iff (fuel : ℕ) (reset : Bool) (mem : GuestMem) (phys : List (BitVec 8)) (vc bigEndian : Bool)
    (es : List EmacEvent) :
    (∀ n s, (es.take n).foldlM (Emac.handle fuel) (Emac.init reset mem phys vc bigEndian) = some s →
        s.IrqRight ∧ ∀ d, s.VecRight d) ↔
      MeetsDone (Emac.handle fuel) VectorSafe (Emac.init reset mem phys vc bigEndian) es := by
  have hinit := settled_init reset mem phys vc bigEndian
  have hright : ∀ d, (Emac.init reset mem phys vc bigEndian).VecRight d := fun d h => by
    rw [hinit.intOr, decide_eq_true_iff] at h
    exact absurd (stat_init reset mem phys vc bigEndian d) h
  have hset : ∀ n s, (es.take n).foldlM (Emac.handle fuel) (Emac.init reset mem phys vc bigEndian) = some s → s.Settled :=
    fun n s h => foldlM_invariant (fun s e s' hs hstep => (step_vecRight hs hstep).1) _ _ _ hinit h
  rw [← foldlM_take_iff_meetsDone (P := fun s => s.Settled ∧ ∀ d, s.VecRight d)
    (fun s e s' hs hstep => ?_) es _ ⟨hinit, hright⟩]
  · refine forall_congr' fun n => forall_congr' fun s => imp_congr_right fun h => ?_
    exact ⟨fun hc => ⟨hset n s h, hc.2⟩, fun hc => ⟨hc.1.irq, hc.2⟩⟩
  · obtain ⟨h₁, h₂⟩ := step_vecRight hs.1 hstep
    exact (and_iff_right h₁).trans h₂

/-- A teardown of transmit channel 1 with all channels unmasked: the channel is pending, and
the vector still names channel 0. -/
theorem emac_teardown_stale_vector :
    ¬ ∀ n s, ([EmacEvent.write cpmacTxintmaskset (by decide) 0xff, .write cpmacTxteardown (by decide) 1].take n).foldlM
        (Emac.handle 1) (Emac.init true (fun _ => 0) [] false false) = some s → s.IrqRight ∧ ∀ d, s.VecRight d := by
  intro h
  have hright := (h 2 _ rfl).2 .tx
  exact absurd (hright (by decide)) (by decide)

end Ar7Qemu.Ar7
