import Ar7Qemu.Hw.EepromProtocol

/-! The bounds of the EEPROM. Whatever the pins do, every access to the array is below its
size: writes are only ever enabled for 64 and 256 words, where all values of the address
bits are words of the array. But the end of a cycle looks at the number of bits received
only before it writes data. A cycle that is given up inside the address of an erase command
still erases the word with the part of the address that has arrived. -/

namespace Ar7Qemu.Hw

/-! ### The accesses to the array -/

namespace Eeprom

/-- The words that the end of a chip select cycle reads or writes. -/
def endCycleAccesses (e : Eeprom) : List ℕ :=
  if e.writeable then
    let subcommand := e.address >>> (e.addrbits - 2) % 256
    if e.command = 0 ∧ subcommand = 2 then List.range e.size
    else if e.command = 3 then [e.address]
    else if 2 + 2 + e.addrbits + 16 ≤ e.tick then
      if e.command = 1 then [e.address]
      else if e.command = 0 ∧ subcommand = 1 then List.range e.size
      else []
    else []
  else []

/-- The words that the raising edge of the clock reads: the last address bit of a command
that is not an extended one fetches the word. -/
def shiftInAccesses (e : Eeprom) (eedi : Bool) : List ℕ :=
  if e.tick = 0 then []
  else if e.tick < 1 + 2 then []
  else if e.tick < 1 + 2 + e.addrbits then
    if e.tick + 1 = 1 + 2 + e.addrbits ∧ e.command ≠ 0 then
      [(2 * e.address + eedi.toNat) % 65536 % e.size]
    else []
  else []

/-- The words of the array that a change of the pins reads or writes. -/
def accesses (e : Eeprom) (p : Pins) : List ℕ :=
  if !e.eecs && p.eecs then []
  else if e.eecs && !p.eecs then e.endCycleAccesses
  else if p.eecs && !e.eesk && p.eesk then e.shiftInAccesses p.eedi
  else []

def accessesOf (e : Eeprom) : List Pins → List ℕ
  | [] => []
  | p :: ps => e.accesses p ++ (eeprom93xxWrite e p).accessesOf ps

/-! ### The invariant -/

/-- What every sequence of pin changes keeps: only the sizes that use all values of the
address bits become writeable, and the address has as many bits as have been clocked in. -/
structure InRange (e : Eeprom) : Prop where
  supported : e.Supported
  size_writeable : e.writeable = true → e.size = 64 ∨ e.size = 256
  address_lt : e.eecs = true → e.address < 2 ^ min (e.tick - 3) e.addrbits

theorem inRange_new {nwords : ℕ} {e : Eeprom} (h : eeprom93xxNew nwords = some e) (contents : ℕ → BitVec 16) :
    InRange { e with contents := contents } := by
  obtain ⟨addrbits, ha, rfl⟩ := Option.map_eq_some_iff.1 h
  exact ⟨ha, fun h => absurd h (by simp), fun h => absurd h (by simp)⟩

theorem inRange_mono {e e' : Eeprom} (h : e.InRange) (hs : e'.size = e.size) (hb : e'.addrbits = e.addrbits)
    (hw : e'.writeable = e.writeable) (ha : e'.address = e.address) (ht : e.tick ≤ e'.tick) (hcs : e.eecs = true) :
    e'.InRange := by
  refine ⟨?_, ?_, fun _ => ?_⟩
  · rw [Supported, hs, hb]
    exact h.supported
  · rw [hw, hs]
    exact h.size_writeable
  · rw [ha, hb]
    apply (h.address_lt hcs).trans_le
    apply Nat.pow_le_pow_right (by decide)
    omega

theorem size_pos {e : Eeprom} (h : e.Supported) : 0 < e.size := by
  rcases h.cases with ⟨hs, _⟩ | ⟨hs, _⟩ | ⟨hs, _⟩ | ⟨hs, _⟩ <;> rw [hs] <;> decide

theorem size_of_write_enable {e : Eeprom} (h : e.Supported) {v : ℕ} (hv : (v % e.size) >>> (e.addrbits - 2) = 3) :
    e.size = 64 ∨ e.size = 256 := by
  rw [Nat.shiftRight_eq_div_pow] at hv
  rcases h.cases with ⟨hs, ha⟩ | ⟨hs, _⟩ | ⟨hs, ha⟩ | ⟨hs, _⟩
  · rw [hs, ha] at hv
    omega
  · exact Or.inl hs
  · rw [hs, ha] at hv
    omega
  · exact Or.inr hs

theorem inRange_gotAddress {e : Eeprom} (h : e.InRange) {v : ℕ} (ht : e.tick = 1 + 2 + e.addrbits)
    (hv : v < 2 ^ e.addrbits) : (e.gotAddress v).InRange := by
  have haddr : v % e.size % 256 < 2 ^ min (e.tick - 3) e.addrbits := by
    have hmin : min (e.tick - 3) e.addrbits = e.addrbits := by omega
    rw [hmin]
    exact (Nat.mod_le _ _).trans_lt ((Nat.mod_le _ _).trans_lt hv)
  by_cases hc : e.command = 0
  · simp only [gotAddress, hc, if_true]
    refine ⟨h.supported, fun hw => ?_, fun _ => haddr⟩
    dsimp only at hw ⊢
    split_ifs at hw with h₀ h₃
    · exact size_of_write_enable h.supported h₃
    · exact h.size_writeable hw
  · simp only [gotAddress, hc, if_false]
    exact ⟨h.supported, h.size_writeable, fun _ => haddr⟩

theorem inRange_shiftIn {e : Eeprom} (h : e.InRange) (hcs : e.eecs = true) (d : Bool) : (e.shiftIn d).InRange := by
  have hd := Bool.toNat_lt d
  unfold shiftIn
  dsimp only
  split_ifs with h₀ _ h₁ h₂ h₃ h₄
  · exact inRange_mono h rfl rfl rfl rfl (Nat.le_succ _) hcs
  · exact h
  · exact inRange_mono h rfl rfl rfl rfl (Nat.le_succ _) hcs
  · have hlt := h.address_lt hcs
    have hmin : min (e.tick - 3) e.addrbits = e.addrbits - 1 := by omega
    have hpow : 2 ^ e.addrbits = 2 * 2 ^ (e.addrbits - 1) := by
      rw [← pow_succ']
      congr 1
      omega
    rw [hmin] at hlt
    have hticked : InRange { e with tick := e.tick + 1 } := inRange_mono h rfl rfl rfl rfl (Nat.le_succ _) hcs
    apply inRange_gotAddress hticked h₃
    show (2 * e.address + d.toNat) % 65536 < 2 ^ e.addrbits
    have := Nat.mod_le (2 * e.address + d.toNat) 65536
    omega
  · have hlt := h.address_lt hcs
    have hmin : min (e.tick - 3) e.addrbits = e.tick - 3 := by omega
    have hmin' : min (e.tick + 1 - 3) e.addrbits = e.tick - 3 + 1 := by omega
    refine ⟨h.supported, h.size_writeable, fun _ => ?_⟩
    show (2 * e.address + d.toNat) % 65536 % 256 < 2 ^ min (e.tick + 1 - 3) e.addrbits
    rw [hmin', pow_succ']
    rw [hmin] at hlt
    have := Nat.mod_le ((2 * e.address + d.toNat) % 65536) 256
    have := Nat.mod_le (2 * e.address + d.toNat) 65536
    omega
  · exact inRange_mono h rfl rfl rfl rfl (Nat.le_succ _) hcs
  · exact inRange_mono h rfl rfl rfl rfl (Nat.le_succ _) hcs
  · exact h

theorem endCycle_config (e : Eeprom) :
    e.endCycle.size = e.size ∧ e.endCycle.addrbits = e.addrbits ∧ e.endCycle.writeable = e.writeable := by
  simp only [endCycle, apply_ite Eeprom.size, apply_ite Eeprom.addrbits, apply_ite Eeprom.writeable, ite_self, and_self]

theorem inRange_write {e : Eeprom} (h : e.InRange) (p : Pins) : (eeprom93xxWrite e p).InRange := by
  have hsup := supported_write h.supported p
  unfold eeprom93xxWrite at hsup ⊢
  dsimp only at hsup ⊢
  split_ifs at hsup ⊢ with hstart hend hedge
  · exact ⟨hsup, h.size_writeable, fun _ => by simp⟩
  · obtain ⟨hs, -, hw⟩ := endCycle_config e
    refine ⟨hsup, fun h' => ?_, fun hcs => ?_⟩
    · rw [hs]
      exact h.size_writeable (hw ▸ h')
    · have : p.eecs = true := hcs
      simp [this] at hend
  · have hcs : e.eecs = true := by
      have hp : p.eecs = true := by simp_all
      cases he : e.eecs
      · simp [he, hp] at hstart
      · rfl
    have hshift := inRange_shiftIn h hcs p.eedi
    exact ⟨hsup, hshift.size_writeable, fun _ => hshift.address_lt (by rw [eecs_shiftIn, hcs])⟩
  · refine ⟨hsup, h.size_writeable, fun hp => h.address_lt ?_⟩
    have hp' : p.eecs = true := hp
    cases he : e.eecs
    · simp [he, hp'] at hstart
    · rfl

/-- Every access of a change of the pins is inside the array. -/
theorem accesses_lt {e : Eeprom} (h : e.InRange) (p : Pins) : ∀ a ∈ e.accesses p, a < e.size := by
  intro a ha
  unfold accesses at ha
  split_ifs at ha with _ hend _
  · simp at ha
  · have hcs : e.eecs = true := by
      simp only [Bool.and_eq_true] at hend
      exact hend.1
    have haddr : e.writeable = true → e.address < e.size := by
      intro hw
      have hlt : e.address < 2 ^ e.addrbits :=
        (h.address_lt hcs).trans_le (Nat.pow_le_pow_right (by decide) (Nat.min_le_right _ _))
      have hsize : e.size = 2 ^ e.addrbits := by
        have := h.size_writeable hw
        rcases h.supported.cases with ⟨hs, hb⟩ | ⟨hs, hb⟩ | ⟨hs, hb⟩ | ⟨hs, hb⟩ <;> rw [hb] <;> omega
      rw [hsize]
      exact hlt
    unfold endCycleAccesses at ha
    dsimp only at ha
    split_ifs at ha with hw <;> simp at ha
    · exact ha
    · rw [ha]
      exact haddr hw
    · rw [ha]
      exact haddr hw
    · exact ha
  · unfold shiftInAccesses at ha
    split_ifs at ha <;> simp at ha
    rw [ha]
    exact Nat.mod_lt _ (size_pos h.supported)
  · simp at ha

theorem size_write (e : Eeprom) (p : Pins) : (eeprom93xxWrite e p).size = e.size := by
  simp only [eeprom93xxWrite, endCycle, shiftIn, gotAddress, apply_ite Eeprom.size, ite_self]

theorem accessesOf_lt {e : Eeprom} (h : e.InRange) (ps : List Pins) : ∀ a ∈ e.accessesOf ps, a < e.size := by
  induction ps generalizing e with
  | nil => simp [accessesOf]
  | cons p ps ih =>
    intro a ha
    rw [accessesOf, List.mem_append] at ha
    rcases ha with ha | ha
    · exact accesses_lt h p a ha
    · have hlt := ih (inRange_write h p) a ha
      rwa [size_write] at hlt

theorem inRange_foldl {e : Eeprom} (h : e.InRange) (ps : List Pins) : (ps.foldl eeprom93xxWrite e).InRange := by
  induction ps generalizing e with
  | nil => exact h
  | cons p ps ih => exact ih (inRange_write h p)

end Eeprom

/-! ### Cycles that are given up -/

def Cycle.command (c : Cycle) : List Bool := (clocked c.first.1 c.body).dropWhile (!·)

/-- The cycle ends before all bits of the address have been clocked in. -/
def Cycle.Aborted (c : Cycle) (addrbits : ℕ) : Prop := c.command.length < 1 + 2 + addrbits

/-- Writing is enabled, the bits that have arrived are those of an erase command, and the word
that the bits of its address stand for so far is not erased. -/
def Cycle.ErasesPart (c : Cycle) (e : Eeprom) : Prop :=
  e.writeable = true ∧ c.command.take 3 = [true, true, true] ∧ e.contents (valFrom 0 (c.command.drop 3)) ≠ 0xffff

section Aborted

variable {e : Eeprom}

theorem exists_zeros (ds : List Bool) : ∃ n, ds = List.replicate n false ++ ds.dropWhile (!·) := by
  induction ds with
  | nil => exact ⟨0, rfl⟩
  | cons d ds ih =>
    cases d with
    | true => exact ⟨0, rfl⟩
    | false =>
      obtain ⟨n, hn⟩ := ih
      refine ⟨n + 1, ?_⟩
      rw [List.replicate_succ, List.cons_append]
      exact congrArg _ hn

theorem dropWhile_start (ds : List Bool) : ds.dropWhile (!·) = [] ∨ ∃ rest, ds.dropWhile (!·) = true :: rest := by
  induction ds with
  | nil => exact Or.inl rfl
  | cons d ds ih =>
    cases d with
    | true => exact Or.inr ⟨ds, rfl⟩
    | false => exact ih

/-- The state inside a command, while its address is not complete. -/
theorem foldl_part (hsup : e.Supported) (sk : Bool) {bits : List Bool} (hlen : bits.length < 1 + 2 + e.addrbits)
    (hstart : bits = [] ∨ ∃ rest, bits = true :: rest) :
    bits.foldl Eeprom.shiftIn (started e sk) =
      { started e sk with
        tick := bits.length
        command := valFrom 0 ((bits.drop 1).take 2)
        address := valFrom 0 (bits.drop 3) } := by
  have hb : e.addrbits ≤ 8 := by
    rcases hsup.cases with h | h | h | h <;> omega
  rcases hstart with rfl | ⟨rest, rfl⟩
  · rfl
  rw [List.foldl_cons, Eeprom.shiftIn_start rfl]
  rcases rest with _ | ⟨o₁, _ | ⟨o₀, ds⟩⟩
  · rfl
  · cases o₁ <;> rfl
  · have hop := Eeprom.foldl_opcode (e := { started e sk with tick := 1 }) rfl rfl o₁ o₀
    have hpart := Eeprom.foldl_address_part ds
      (e := { started e sk with tick := 3, command := 2 * o₁.toNat + o₀.toNat }) (k := 0) rfl Nat.one_pos hb
      (by simp at hlen; show 0 + ds.length < e.addrbits; omega)
    show ds.foldl Eeprom.shiftIn ([o₁, o₀].foldl Eeprom.shiftIn { started e sk with tick := 1 }) = _
    rw [hop, hpart]
    simp only [List.length_cons, List.drop_succ_cons, List.drop_zero, List.take_succ_cons, List.take_zero, valFrom,
      List.foldl_cons, List.foldl_nil]
    congr 1
    · omega
    · omega

theorem opcode_eq_three (bits : List Bool) :
    valFrom 0 ((bits.drop 1).take 2) = 3 ↔ (bits.drop 1).take 2 = [true, true] := by
  rcases bits.drop 1 with _ | ⟨o₁, _ | ⟨o₀, ds⟩⟩
  · decide
  · cases o₁ <;> decide
  · cases o₁ <;> cases o₀ <;> simp [valFrom]

theorem take_three_iff {bits : List Bool} (hstart : bits = [] ∨ ∃ rest, bits = true :: rest) :
    bits.take 3 = [true, true, true] ↔ (bits.drop 1).take 2 = [true, true] := by
  rcases hstart with rfl | ⟨rest, rfl⟩ <;> simp

theorem part_lt (hsup : e.Supported) {bits : List Bool} (hlen : bits.length < 1 + 2 + e.addrbits) :
    valFrom 0 (bits.drop 3) >>> (e.addrbits - 2) % 256 < 2 := by
  have hlt := valFrom_lt (bits.drop 3) (v := 0) (k := 0) (by decide)
  have hpow : 2 ^ (0 + (bits.drop 3).length) ≤ 2 ^ (e.addrbits - 1) := by
    apply Nat.pow_le_pow_right (by decide)
    rw [List.length_drop]
    rcases hsup.cases with h | h | h | h <;> omega
  have hdiv : valFrom 0 (bits.drop 3) >>> (e.addrbits - 2) < 2 := by
    rw [Nat.shiftRight_eq_div_pow]
    rcases hsup.cases with ⟨_, hb⟩ | ⟨_, hb⟩ | ⟨_, hb⟩ | ⟨_, hb⟩ <;> rw [hb] at hpow ⊢ <;> omega
  exact (Nat.mod_le _ _).trans_lt hdiv

/-- The contents after a cycle that was given up inside its command. -/
theorem contents_run_aborted (hsup : e.Supported) (hidle : e.eecs = false) {c : Cycle} (hab : c.Aborted e.addrbits) :
    (c.run e).contents = if e.writeable = true ∧ c.command.take 3 = [true, true, true] then
      Function.update e.contents (valFrom 0 (c.command.drop 3)) 0xffff else e.contents := by
  obtain ⟨n, hn⟩ := exists_zeros (clocked c.first.1 c.body)
  have hstart := dropWhile_start (clocked c.first.1 c.body)
  have hbits : (clocked c.first.1 c.body).foldl Eeprom.shiftIn (started e c.first.1) =
      { started e c.first.1 with
        tick := c.command.length
        command := valFrom 0 ((c.command.drop 1).take 2)
        address := valFrom 0 (c.command.drop 3) } := by
    rw [hn, List.foldl_append, Eeprom.foldl_zeros rfl]
    exact foldl_part hsup c.first.1 hab hstart
  obtain ⟨b, hcontents, -⟩ := run_eq hidle c
  have hsub := part_lt hsup hab
  rw [hcontents, hbits, contents_endCycle]
  · show (if e.writeable = true then
      if valFrom 0 ((c.command.drop 1).take 2) = 0 ∧ valFrom 0 (c.command.drop 3) >>> (e.addrbits - 2) % 256 = 2 then _
      else if valFrom 0 ((c.command.drop 1).take 2) = 3 then _ else e.contents else e.contents) = _
    rw [if_neg (by omega : ¬ (valFrom 0 ((c.command.drop 1).take 2) = 0 ∧
      valFrom 0 (c.command.drop 3) >>> (e.addrbits - 2) % 256 = 2)), ite_and]
    refine if_congr Iff.rfl (if_congr ?_ rfl rfl) rfl
    exact (opcode_eq_three c.command).trans (take_three_iff hstart).symm
  · show c.command.length < 2 + 2 + e.addrbits + 16
    have : c.command.length < 1 + 2 + e.addrbits := hab
    omega

theorem contents_run_iff (hsup : e.Supported) (hidle : e.eecs = false) {c : Cycle} (hab : c.Aborted e.addrbits) :
    (c.run e).contents = e.contents ↔ ¬ c.ErasesPart e := by
  rw [contents_run_aborted hsup hidle hab]
  by_cases h : e.writeable = true ∧ c.command.take 3 = [true, true, true]
  · rw [if_pos h, Function.update_eq_self_iff, Cycle.ErasesPart, ← and_assoc, and_iff_right h, not_not]
    exact eq_comm
  · rw [if_neg h]
    exact iff_of_true rfl fun hpart => h ⟨hpart.1, hpart.2.1⟩

end Aborted

/-! ### Sequences of pin changes -/

def Cycle.pins (c : Cycle) : List Pins := ⟨true, c.first.1, c.first.2⟩ :: selected c.body ++ [⟨false, c.last.1, c.last.2⟩]

theorem foldl_pins (c : Cycle) (e : Eeprom) : c.pins.foldl eeprom93xxWrite e = c.run e := by
  simp [Cycle.pins, Cycle.run, Cycle.opening]

/-- `P` holds of every cycle of a sequence of pin changes that is given up inside its command, and
of the state before it. -/
def EachAborted (e : Eeprom) (ps : List Pins) (P : Eeprom → Cycle → Prop) : Prop :=
  ∀ before c after, ps = before ++ c.pins ++ after → (before.foldl eeprom93xxWrite e).eecs = false →
    c.Aborted e.addrbits → P (before.foldl eeprom93xxWrite e) c

/-- Accesses stay inside the array, and cycles that are given up inside their command leave the
contents unchanged. -/
def StaysInRange (e : Eeprom) (ps : List Pins) : Prop :=
  (∀ a ∈ e.accessesOf ps, a < e.size) ∧ EachAborted e ps fun e c => (c.pins.foldl eeprom93xxWrite e).contents = e.contents

theorem addrbits_foldl (e : Eeprom) (ps : List Pins) : (ps.foldl eeprom93xxWrite e).addrbits = e.addrbits := by
  induction ps generalizing e with
  | nil => rfl
  | cons p ps ih =>
    rw [List.foldl_cons, ih]
    simp only [eeprom93xxWrite, Eeprom.endCycle, Eeprom.shiftIn, Eeprom.gotAddress, apply_ite Eeprom.addrbits, ite_self]

/-- The EEPROM stays in range, in every sequence of pin changes, exactly when no cycle erases a
word by a part of an address. -/
theorem eeprom_stays_in_range_iff (nwords : ℕ) (e : Eeprom) (hnew : eeprom93xxNew nwords = some e)
    (contents : ℕ → BitVec 16) (ps : List Pins) :
    StaysInRange { e with contents := contents } ps ↔
      EachAborted { e with contents := contents } ps fun e c => ¬ c.ErasesPart e := by
  have hinv := Eeprom.inRange_new hnew contents
  refine (and_iff_right (Eeprom.accessesOf_lt hinv ps)).trans ?_
  refine forall_congr' fun before => forall_congr' fun c => forall_congr' fun after =>
    forall_congr' fun _ => forall_congr' fun hidle => forall_congr' fun hab => ?_
  dsimp only
  rw [foldl_pins]
  apply contents_run_iff (Eeprom.inRange_foldl hinv before).supported hidle
  rw [addrbits_foldl]
  exact hab

def new64 : Eeprom := ⟨0, 0, 0, false, false, false, true, 6, 64, 0, fun _ => 0⟩

/-- The opcode of an erase command, and nothing more. -/
def eraseGivenUp : Cycle := Cycle.ofBits [true, true, true]

theorem stays_in_range_disabled : StaysInRange new64 eraseGivenUp.pins := by
  have hdisabled : ∀ n < 9, ((eraseGivenUp.pins.take n).foldl eeprom93xxWrite new64).writeable = false := by decide
  refine (eeprom_stays_in_range_iff 64 new64 rfl (fun _ => 0) eraseGivenUp.pins).2 fun before c after hps _ _ hpart => ?_
  have hbefore : before = eraseGivenUp.pins.take before.length := by
    rw [hps, List.append_assoc, List.take_left]
  have hlen : before.length < 9 := by
    have := congrArg List.length hps
    simp only [List.length_append] at this
    have h8 : eraseGivenUp.pins.length = 8 := rfl
    omega
  have hw := hpart.1
  rw [hbefore] at hw
  exact absurd ((hdisabled before.length hlen).symm.trans hw) (by decide)

def enable64 : Cycle := Cycle.ofBits (true :: EepromCmd.encode 6 (.ewen 0))

/-- With writing enabled, the opcode of an erase command without any address erases word 0. -/
theorem erases_word_zero : ¬ ∀ (nwords : ℕ) (e : Eeprom) (contents : ℕ → BitVec 16) (ps : List Pins),
    eeprom93xxNew nwords = some e → StaysInRange { e with contents := contents } ps := by
  intro h
  obtain ⟨_, hcycles⟩ := h 64 new64 (fun _ => 0) (enable64.pins ++ eraseGivenUp.pins) rfl
  have heq := hcycles enable64.pins eraseGivenUp [] (by rw [List.append_nil]) (by decide) (by unfold Cycle.Aborted; decide)
  exact absurd (congrFun heq 0) (by decide)

end Ar7Qemu.Hw
