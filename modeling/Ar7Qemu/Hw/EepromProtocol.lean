import Ar7Qemu.Hw.Eeprom93xx

/-! What a complete command does to an EEPROM. Reading, erasing a word and disabling writes
are right for every size. The end of the cycle waits for one tick more than the protocol
has, so no data is ever written; and the extended commands are decoded after the address
has been reduced modulo the size, so with 16 or 128 words they are taken for others. -/

namespace Ar7Qemu.Hw

/-- Size and address bits belong together, as `eeprom93xx_new` sets them. -/
def Eeprom.Supported (e : Eeprom) : Prop := addrbitsOf e.size = some e.addrbits

/-- After `j` clocks of data the pin has bit `16 - j` of the word, after a zero. -/
def ReadsOut (e : Eeprom) (c : Cycle) (zeros a : ℕ) : Prop :=
  ∀ n j, j ≤ 16 → (clocked c.first.1 (c.body.take n)).length = zeros + 1 + 2 + e.addrbits + j →
    eeprom93xxRead ((selected (c.body.take n)).foldl eeprom93xxWrite (c.opening e)) =
      if j = 0 then false else (e.contents (a % e.size)).getLsbD (16 - j)

/-- The protocol: what a cycle that clocks a command has to do. -/
def Obeys (e : Eeprom) (c : Cycle) (zeros : ℕ) : EepromCmd → Prop
  | .read a _ =>
    (c.run e).contents = e.contents ∧ (c.run e).writeable = e.writeable ∧ ReadsOut e c zeros a
  | .write a d =>
    (c.run e).writeable = e.writeable ∧ (∀ b, b ≠ a % e.size → (c.run e).contents b = e.contents b) ∧
      (e.writeable = false → (c.run e).contents = e.contents) ∧
      (e.writeable = true → e.contents (a % e.size) = 0xffff → (c.run e).contents (a % e.size) = d)
  | .erase a =>
    (c.run e).writeable = e.writeable ∧
      (c.run e).contents = if e.writeable then Function.update e.contents (a % e.size) 0xffff else e.contents
  | .ewds _ => (c.run e).writeable = false ∧ (c.run e).contents = e.contents
  | .wral _ d =>
    (c.run e).writeable = e.writeable ∧ (∀ b, e.size ≤ b → (c.run e).contents b = e.contents b) ∧
      (e.writeable = false → (c.run e).contents = e.contents) ∧
      (e.writeable = true → ∀ b < e.size, e.contents b = 0xffff → (c.run e).contents b = d)
  | .eral _ =>
    (c.run e).writeable = e.writeable ∧
      (c.run e).contents =
        if e.writeable then fun b => if b < e.size then 0xffff else e.contents b else e.contents
  | .ewen _ => (c.run e).writeable = true ∧ (c.run e).contents = e.contents

/-- The commands that the code carries out. -/
def Works (e : Eeprom) : EepromCmd → Prop
  | .read _ _ => True
  | .erase _ => True
  | .ewds _ => True
  | .write a d => e.writeable = true → e.contents (a % e.size) = 0xffff → d = 0xffff
  | .wral _ d => e.writeable = true → e.size ≠ 16 ∧ ∀ b < e.size, e.contents b = 0xffff → d = 0xffff
  | .eral _ => e.writeable = true → e.size = 64 ∨ e.size = 256
  | .ewen _ => e.size = 64 ∨ e.size = 256 ∨ (e.size = 128 ∧ e.writeable = true)

/-! ### Clocking bits in -/

namespace Eeprom

def sk (e : Eeprom) (b : Bool) : Eeprom := { e with eesk := b }

theorem gotAddress_sk (e : Eeprom) (b : Bool) (address : ℕ) :
    (e.sk b).gotAddress address = (e.gotAddress address).sk b := by
  by_cases h : e.command = 0
  · simp only [gotAddress, sk, h, if_true]
  · simp only [gotAddress, sk, h, if_false]
    rfl

theorem shiftIn_sk (e : Eeprom) (b d : Bool) : (e.sk b).shiftIn d = (e.shiftIn d).sk b := by
  by_cases h₀ : e.tick = 0
  · cases d <;> simp [shiftIn, sk, h₀]
  by_cases h₁ : e.tick < 1 + 2
  · simp only [shiftIn, sk, h₀, h₁, if_true, if_false]
  by_cases h₂ : e.tick < 1 + 2 + e.addrbits
  · by_cases h₃ : e.tick + 1 = 1 + 2 + e.addrbits
    · simp only [shiftIn, sk, h₀, h₁, h₂, h₃, if_true, if_false]
      exact gotAddress_sk { e with tick := 1 + 2 + e.addrbits } b _
    · simp only [shiftIn, sk, h₀, h₁, h₂, h₃, if_true, if_false]
  by_cases h₄ : e.tick < 1 + 2 + e.addrbits + 16
  · simp only [shiftIn, sk, h₀, h₁, h₂, h₄, if_true, if_false]
    rfl
  · simp only [shiftIn, sk, h₀, h₁, h₂, h₄, if_false]

theorem foldl_shiftIn_sk (b : Bool) : ∀ (ds : List Bool) (e : Eeprom),
    ds.foldl shiftIn (e.sk b) = (ds.foldl shiftIn e).sk b
  | [], _ => rfl
  | d :: ds, e => by rw [List.foldl_cons, shiftIn_sk, foldl_shiftIn_sk b ds, List.foldl_cons]

theorem eecs_shiftIn (e : Eeprom) (d : Bool) : (e.shiftIn d).eecs = e.eecs := by
  simp only [shiftIn, gotAddress, apply_ite Eeprom.eecs, ite_self]

theorem write_selected {e : Eeprom} (hcs : e.eecs = true) (sk di : Bool) :
    eeprom93xxWrite e ⟨true, sk, di⟩ = (if !e.eesk && sk then e.shiftIn di else e).sk sk := by
  simp only [eeprom93xxWrite, hcs, Eeprom.sk, Bool.not_true, Bool.false_and, Bool.and_false, Bool.true_and,
    Bool.false_eq_true, if_false]
  split_ifs with h
  · rw [show (e.shiftIn di).eecs = true from (eecs_shiftIn e di).trans hcs]
  · rw [hcs]

theorem foldl_selected : ∀ (ps : List (Bool × Bool)) (e : Eeprom), e.eecs = true →
    ∃ b, (selected ps).foldl eeprom93xxWrite e = ((clocked e.eesk ps).foldl shiftIn e).sk b
  | [], e, _ => ⟨e.eesk, rfl⟩
  | (sk, di) :: ps, e, hcs => by
    have hstep := write_selected hcs sk di
    have hcs' : (eeprom93xxWrite e ⟨true, sk, di⟩).eecs = true := rfl
    obtain ⟨b, hb⟩ := foldl_selected ps _ hcs'
    refine ⟨b, ?_⟩
    show (selected ps).foldl eeprom93xxWrite (eeprom93xxWrite e ⟨true, sk, di⟩) = _
    have hsk : (eeprom93xxWrite e ⟨true, sk, di⟩).eesk = sk := rfl
    rw [hb, hsk, hstep, foldl_shiftIn_sk, clocked]
    split_ifs <;> rfl

end Eeprom

/-! ### Values of bit strings -/

/-- The number with the bits `ds` after those of `v`. -/
def valFrom (v : ℕ) (ds : List Bool) : ℕ := ds.foldl (fun v d => 2 * v + d.toNat) v

theorem valFrom_append_singleton (v : ℕ) (ds : List Bool) (d : Bool) :
    valFrom v (ds ++ [d]) = 2 * valFrom v ds + d.toNat := by
  simp [valFrom]

theorem valFrom_bitsOf : ∀ (n v x : ℕ), valFrom v (bitsOf n x) = v * 2 ^ n + x % 2 ^ n
  | 0, v, x => by simp [valFrom, bitsOf, Nat.mod_one]
  | n + 1, v, x => by
    have ih := valFrom_bitsOf n (2 * v + (x.testBit n).toNat) x
    show valFrom (2 * v + (x.testBit n).toNat) (bitsOf n x) = _
    rw [ih, Nat.toNat_testBit, Nat.mod_pow_succ]
    ring

theorem valFrom_lt : ∀ (ds : List Bool) {v k : ℕ}, v < 2 ^ k → valFrom v ds < 2 ^ (k + ds.length)
  | [], _, _, h => h
  | d :: ds, v, k, h => by
    have hstep : 2 * v + d.toNat < 2 ^ (k + 1) := by
      have := Bool.toNat_lt d
      rw [pow_succ]
      omega
    have ih := valFrom_lt ds hstep
    rw [List.length_cons, ← Nat.add_assoc, Nat.add_right_comm]
    exact ih

theorem length_bitsOf : ∀ n x : ℕ, (bitsOf n x).length = n
  | 0, _ => rfl
  | n + 1, x => by rw [bitsOf, List.length_cons, length_bitsOf n x]

/-! ### The phases of a command -/

namespace Eeprom

variable {e : Eeprom}

theorem foldl_zeros (h : e.tick = 0) : ∀ zeros : ℕ, (List.replicate zeros false).foldl shiftIn e = e
  | 0 => rfl
  | zeros + 1 => by
    have hstep : e.shiftIn false = e := by simp [shiftIn, h]
    rw [List.replicate_succ, List.foldl_cons, hstep, foldl_zeros h zeros]

theorem shiftIn_start (h : e.tick = 0) : e.shiftIn true = { e with tick := 1 } := by
  simp [shiftIn, h]

theorem foldl_opcode (ht : e.tick = 1) (hc : e.command = 0) (o₁ o₀ : Bool) :
    [o₁, o₀].foldl shiftIn e = { e with tick := 3, command := 2 * o₁.toNat + o₀.toNat } := by
  cases o₁ <;> cases o₀ <;> simp [shiftIn, ht, hc]

theorem foldl_address_part : ∀ (ds : List Bool) {e : Eeprom} {k : ℕ}, e.tick = 1 + 2 + k → e.address < 2 ^ k →
    e.addrbits ≤ 8 → k + ds.length < e.addrbits →
    ds.foldl shiftIn e = { e with tick := 1 + 2 + k + ds.length, address := valFrom e.address ds }
  | [], e, k, ht, _, _, _ => by
    rw [List.foldl_nil, List.length_nil, Nat.add_zero, ← ht]
    rfl
  | d :: ds, e, k, ht, ha, hb, hlen => by
    rw [List.length_cons] at hlen
    have hd := Bool.toNat_lt d
    have ha' : 2 * e.address + d.toNat < 2 ^ (k + 1) := by
      rw [pow_succ]
      omega
    have h256 : 2 * e.address + d.toNat < 256 :=
      Nat.lt_of_lt_of_le ha' (Nat.le_trans (Nat.pow_le_pow_right (by decide) (by omega : k + 1 ≤ 8)) (by decide))
    have hstep : e.shiftIn d = { e with tick := 1 + 2 + (k + 1), address := 2 * e.address + d.toNat } := by
      have h₀ : ¬ e.tick = 0 := by omega
      have h₁ : ¬ e.tick < 1 + 2 := by omega
      have h₂ : e.tick < 1 + 2 + e.addrbits := by omega
      have h₃ : ¬ e.tick + 1 = 1 + 2 + e.addrbits := by omega
      simp only [shiftIn, h₀, h₁, h₂, h₃, if_true, if_false]
      rw [Nat.mod_eq_of_lt (by omega : 2 * e.address + d.toNat < 65536), Nat.mod_eq_of_lt h256, ht, Nat.add_assoc]
    have ih := foldl_address_part ds (e := e.shiftIn d) (k := k + 1) (by rw [hstep]) (by rw [hstep]; exact ha')
      (by rw [hstep]; exact hb) (by rw [hstep]; exact (by omega : k + 1 + ds.length < e.addrbits))
    rw [List.foldl_cons, ih, hstep]
    simp only [List.length_cons, valFrom, List.foldl_cons]
    congr 1
    omega

/-- All bits of the address in a row. -/
theorem foldl_address (ds : List Bool) (ht : e.tick = 3) (ha : e.address = 0) (hb : e.addrbits ≤ 8)
    (hpos : 0 < e.addrbits) (hlen : ds.length = e.addrbits) :
    ds.foldl shiftIn e = gotAddress { e with tick := 3 + e.addrbits } (valFrom 0 ds) := by
  obtain ⟨init, d, rfl⟩ : ∃ init d, ds = init ++ [d] := by
    rcases List.eq_nil_or_concat ds with rfl | ⟨init, d, h⟩
    · simp at hlen
      omega
    · exact ⟨init, d, by rw [h, List.concat_eq_append]⟩
  rw [List.length_append, List.length_singleton] at hlen
  have hpart := foldl_address_part init (e := e) (k := 0) ht (by rw [ha]; decide) hb (by omega)
  have hlt := valFrom_lt init (v := 0) (k := 0) (by decide)
  have h128 : valFrom 0 init < 128 := Nat.lt_of_lt_of_le hlt
    (Nat.le_trans (Nat.pow_le_pow_right (by decide) (by omega : 0 + init.length ≤ 7)) (by decide))
  have hd := Bool.toNat_lt d
  rw [List.foldl_append, hpart, ha, valFrom_append_singleton, List.foldl_cons, List.foldl_nil]
  have h₀ : ¬ 1 + 2 + 0 + init.length = 0 := by omega
  have h₁ : ¬ 1 + 2 + 0 + init.length < 1 + 2 := by omega
  have h₂ : 1 + 2 + 0 + init.length < 1 + 2 + e.addrbits := by omega
  have h₃ : 1 + 2 + 0 + init.length + 1 = 1 + 2 + e.addrbits := by omega
  simp only [shiftIn, h₀, h₁, h₂, h₃, if_true, if_false]
  rw [Nat.mod_eq_of_lt (by omega)]
  simp only [gotAddress]

theorem getLsbD_shiftData (x : BitVec 16) (d : Bool) {i : ℕ} (hi : i + 1 < 16) :
    (x <<< 1 + BitVec.ofNat 16 d.toNat).getLsbD (i + 1) = x.getLsbD i := by
  have hor : x <<< 1 + BitVec.ofNat 16 d.toNat = x <<< 1 ||| BitVec.ofNat 16 d.toNat := by
    refine BitVec.add_eq_or_of_and_eq_zero _ _ (BitVec.eq_of_getLsbD_eq fun j hj => ?_)
    cases j with
    | zero => simp
    | succ j => cases d <;> simp [BitVec.getLsbD_one]
  rw [hor, BitVec.getLsbD_or, BitVec.getLsbD_shiftLeft]
  cases d <;> simp [hi]

/-- Clocks of the data phase: each shows the next bit of the word in a read. -/
theorem foldl_data : ∀ (ds : List Bool) {e : Eeprom} {k : ℕ}, e.tick = 1 + 2 + e.addrbits + k → k + ds.length ≤ 16 →
    ∃ data, ds.foldl shiftIn e =
      { e with
        tick := 1 + 2 + e.addrbits + k + ds.length
        data := data
        eedo := if e.command = 2 ∧ ds ≠ [] then e.data.getLsbD (16 - ds.length) else e.eedo }
  | [], e, k, ht, _ => ⟨e.data, by simp [← ht]⟩
  | d :: ds, e, k, ht, hlen => by
    rw [List.length_cons] at hlen
    have hstep : e.shiftIn d =
        { e with
          tick := 1 + 2 + e.addrbits + (k + 1)
          eedo := if e.command = 2 then e.data.getLsbD 15 else e.eedo
          data := e.data <<< 1 + BitVec.ofNat 16 d.toNat } := by
      have h₀ : ¬ e.tick = 0 := by omega
      have h₁ : ¬ e.tick < 1 + 2 := by omega
      have h₂ : ¬ e.tick < 1 + 2 + e.addrbits := by omega
      have h₃ : e.tick < 1 + 2 + e.addrbits + 16 := by omega
      simp only [shiftIn, h₀, h₁, h₂, h₃, if_true, if_false]
      rw [ht, Nat.add_assoc]
    obtain ⟨data, hdata⟩ := foldl_data ds (e := e.shiftIn d) (k := k + 1) (by rw [hstep]) (by omega)
    refine ⟨data, ?_⟩
    rw [List.foldl_cons, hdata, hstep]
    simp only [List.length_cons]
    congr 1
    · omega
    · by_cases hc : e.command = 2
      · cases ds with
        | nil => simp [hc]
        | cons d' ds =>
          rw [List.length_cons] at hlen
          have hbit := getLsbD_shiftData e.data d (i := 16 - (ds.length + 2)) (by omega)
          have hidx : 16 - (ds.length + 2) + 1 = 15 - ds.length := by omega
          have hidx' : 16 - (ds.length + 2) = 14 - ds.length := by omega
          rw [hidx, hidx'] at hbit
          simp [hc, hbit]
      · simp [hc]

end Eeprom

/-! ### A whole command -/

/-- The subcommand that is decoded from the upper bits `q` of an address. -/
def subcommand (size q : ℕ) : ℕ := if size = 16 then 0 else if size = 128 then q % 2 else q

section Commands

variable {e : Eeprom}

theorem Eeprom.Supported.cases (hsup : e.Supported) : e.size = 16 ∧ e.addrbits = 6 ∨ e.size = 64 ∧ e.addrbits = 6 ∨
    e.size = 128 ∧ e.addrbits = 8 ∨ e.size = 256 ∧ e.addrbits = 8 := by
  unfold Eeprom.Supported addrbitsOf at hsup
  split at hsup <;> simp_all

def started (e : Eeprom) (sk : Bool) : Eeprom :=
  { e with tick := 0, command := 0, address := 0, eecs := true, eesk := sk }

theorem opening_eq (hidle : e.eecs = false) (c : Cycle) : c.opening e = started e c.first.1 := by
  simp [Cycle.opening, eeprom93xxWrite, hidle, started]

/-- The state at the last bit of the address of a command. -/
def headed (e : Eeprom) (sk : Bool) (command : ℕ) : Eeprom :=
  ⟨3 + e.addrbits, 0, command, e.writeable, true, sk, e.eedo, e.addrbits, e.size, e.data, e.contents⟩

theorem foldl_header (hsup : e.Supported) (sk : Bool) (zeros : ℕ) (o₁ o₀ : Bool) (ds : List Bool)
    (hlen : ds.length = e.addrbits) :
    (List.replicate zeros false ++ true :: ([o₁, o₀] ++ ds)).foldl Eeprom.shiftIn (started e sk) =
      (headed e sk (2 * o₁.toNat + o₀.toNat)).gotAddress (valFrom 0 ds) := by
  have hb : e.addrbits ≤ 8 ∧ 0 < e.addrbits := by
    rcases hsup.cases with h | h | h | h <;> omega
  have hzeros := Eeprom.foldl_zeros (e := started e sk) rfl zeros
  have hstart := Eeprom.shiftIn_start (e := started e sk) rfl
  have hop := Eeprom.foldl_opcode (e := { started e sk with tick := 1 }) rfl rfl o₁ o₀
  have haddr := Eeprom.foldl_address
    (e := { started e sk with tick := 3, command := 2 * o₁.toNat + o₀.toNat }) ds rfl rfl hb.1 hb.2 hlen
  rw [List.foldl_append, hzeros, List.foldl_cons, hstart, List.foldl_append, hop, haddr]
  rfl

theorem subcommand_eq (hsup : e.Supported) {q : ℕ} (hq : q < 4) (x : ℕ) :
    ((q * 2 ^ (e.addrbits - 2) + x % 2 ^ (e.addrbits - 2)) % e.size) >>> (e.addrbits - 2) = subcommand e.size q := by
  rw [Nat.shiftRight_eq_div_pow, subcommand]
  rcases hsup.cases with ⟨hs, ha⟩ | ⟨hs, ha⟩ | ⟨hs, ha⟩ | ⟨hs, ha⟩ <;> rw [hs, ha]
  · rw [if_pos rfl]
    omega
  · rw [if_neg (by decide), if_neg (by decide)]
    omega
  · rw [if_neg (by decide), if_pos rfl]
    omega
  · rw [if_neg (by decide), if_neg (by decide)]
    omega

theorem mod_size (hsup : e.Supported) (a : ℕ) : a % 2 ^ e.addrbits % e.size = a % e.size := by
  rcases hsup.cases with ⟨hs, ha⟩ | ⟨hs, ha⟩ | ⟨hs, ha⟩ | ⟨hs, ha⟩ <;> rw [hs, ha] <;> omega

theorem mod_size_lt (hsup : e.Supported) (a : ℕ) : a % e.size < 256 := by
  rcases hsup.cases with ⟨hs, _⟩ | ⟨hs, _⟩ | ⟨hs, _⟩ | ⟨hs, _⟩ <;> rw [hs] <;> omega

theorem contents_endCycle (ht : e.tick < 2 + 2 + e.addrbits + 16) : e.endCycle.contents =
    if e.writeable then
      if e.command = 0 ∧ e.address >>> (e.addrbits - 2) % 256 = 2 then
        fun a => if a < e.size then 0xffff else e.contents a
      else if e.command = 3 then Function.update e.contents e.address 0xffff
      else e.contents
    else e.contents := by
  have ht' : ¬ 2 + 2 + e.addrbits + 16 ≤ e.tick := by omega
  simp only [Eeprom.endCycle, ht', if_false]
  split_ifs <;> rfl

theorem writeable_endCycle : e.endCycle.writeable = e.writeable := by
  simp only [Eeprom.endCycle, apply_ite Eeprom.writeable, ite_self]

/-- A cycle is its clocked bits and the end of the cycle. -/
theorem run_eq (hidle : e.eecs = false) (c : Cycle) : ∃ b,
    (c.run e).contents = (((clocked c.first.1 c.body).foldl Eeprom.shiftIn (started e c.first.1)).sk b).endCycle.contents ∧
    (c.run e).writeable = ((clocked c.first.1 c.body).foldl Eeprom.shiftIn (started e c.first.1)).writeable := by
  obtain ⟨b, hb⟩ := Eeprom.foldl_selected c.body (started e c.first.1) rfl
  have hcs : ((clocked c.first.1 c.body).foldl Eeprom.shiftIn (started e c.first.1)).eecs = true := by
    have h : ∀ (ds : List Bool) (e : Eeprom), (ds.foldl Eeprom.shiftIn e).eecs = e.eecs := by
      intro ds
      induction ds with
      | nil => intro e; rfl
      | cons d ds ih => intro e; rw [List.foldl_cons, ih, Eeprom.eecs_shiftIn]
    exact h _ _
  refine ⟨b, ?_⟩
  rw [Cycle.run, opening_eq hidle, hb]
  have hsk : (started e c.first.1).eesk = c.first.1 := rfl
  rw [hsk]
  set X := (clocked c.first.1 c.body).foldl Eeprom.shiftIn (started e c.first.1)
  have hwrite : eeprom93xxWrite (X.sk b) ⟨false, c.last.1, c.last.2⟩ =
      { (X.sk b).endCycle with eedo := true, eecs := false, eesk := c.last.1 } := by
    have : (X.sk b).eecs = true := hcs
    simp [eeprom93xxWrite, this]
  rw [hwrite]
  exact ⟨rfl, writeable_endCycle⟩

/-- What a command has left in the EEPROM when all its bits are in. -/
structure Received (e X : Eeprom) (command address ticks : ℕ) (writeable : Bool) : Prop where
  command_eq : X.command = command
  address_eq : X.address = address
  tick_eq : X.tick = 3 + e.addrbits + ticks
  writeable_eq : X.writeable = writeable
  contents_eq : X.contents = e.contents
  addrbits_eq : X.addrbits = e.addrbits
  size_eq : X.size = e.size

theorem received_word {sk : Bool} {command : ℕ} (hc : command ≠ 0) (v : ℕ) :
    Received e ((headed e sk command).gotAddress v) command (v % e.size % 256) 0 e.writeable := by
  rw [Eeprom.gotAddress, if_neg (by exact hc)]
  exact ⟨rfl, rfl, rfl, rfl, rfl, rfl, rfl⟩

theorem received_extended {sk : Bool} (v : ℕ) :
    Received e ((headed e sk 0).gotAddress v) 0 (v % e.size % 256) 0
      (if (v % e.size) >>> (e.addrbits - 2) = 0 then false
        else if (v % e.size) >>> (e.addrbits - 2) = 3 then true else e.writeable) := by
  rw [Eeprom.gotAddress, if_pos (by rfl)]
  exact ⟨rfl, rfl, rfl, rfl, rfl, rfl, rfl⟩

theorem Received.data {X : Eeprom} {command address : ℕ} {writeable : Bool}
    (h : Received e X command address 0 writeable) {tail : List Bool} (htail : tail.length ≤ 16) :
    Received e (tail.foldl Eeprom.shiftIn X) command address tail.length writeable := by
  obtain ⟨data, hdata⟩ := Eeprom.foldl_data tail (e := X) (k := 0)
    (by rw [h.tick_eq, h.addrbits_eq, Nat.add_zero]) (by omega)
  rw [hdata]
  refine ⟨h.command_eq, h.address_eq, ?_, h.writeable_eq, h.contents_eq, h.addrbits_eq, h.size_eq⟩
  show 1 + 2 + X.addrbits + 0 + tail.length = 3 + e.addrbits + tail.length
  rw [h.addrbits_eq]
  omega

/-- The end of the cycle of a command. -/
theorem Received.run {X : Eeprom} {command address ticks : ℕ} {writeable : Bool} {c : Cycle}
    (h : Received e X command address ticks writeable) (hticks : ticks ≤ 16) (hidle : e.eecs = false)
    (hX : (clocked c.first.1 c.body).foldl Eeprom.shiftIn (started e c.first.1) = X) :
    (c.run e).writeable = writeable ∧
      (c.run e).contents =
        if writeable then
          if command = 0 ∧ address >>> (e.addrbits - 2) % 256 = 2 then
            fun b => if b < e.size then 0xffff else e.contents b
          else if command = 3 then Function.update e.contents address 0xffff
          else e.contents
        else e.contents := by
  obtain ⟨b, hcontents, hwriteable⟩ := run_eq hidle c
  rw [hX] at hcontents hwriteable
  refine ⟨hwriteable.trans h.writeable_eq, hcontents.trans ?_⟩
  have ht : (X.sk b).tick < 2 + 2 + (X.sk b).addrbits + 16 := by
    show X.tick < 2 + 2 + X.addrbits + 16
    rw [h.tick_eq, h.addrbits_eq]
    omega
  rw [contents_endCycle ht]
  show (if X.writeable then
      if X.command = 0 ∧ X.address >>> (X.addrbits - 2) % 256 = 2 then
        fun b => if b < X.size then 0xffff else X.contents b
      else if X.command = 3 then Function.update X.contents X.address 0xffff
      else X.contents
    else X.contents) = _
  rw [h.command_eq, h.address_eq, h.writeable_eq, h.contents_eq, h.addrbits_eq, h.size_eq]

theorem foldl_command (hsup : e.Supported) (sk : Bool) (zeros : ℕ) (o₁ o₀ : Bool) (ds tail : List Bool)
    (hlen : ds.length = e.addrbits) :
    (List.replicate zeros false ++ true :: ([o₁, o₀] ++ ds ++ tail)).foldl Eeprom.shiftIn (started e sk) =
      tail.foldl Eeprom.shiftIn ((headed e sk (2 * o₁.toNat + o₀.toNat)).gotAddress (valFrom 0 ds)) := by
  rw [show List.replicate zeros false ++ true :: ([o₁, o₀] ++ ds ++ tail) =
    (List.replicate zeros false ++ true :: ([o₁, o₀] ++ ds)) ++ tail by simp, List.foldl_append,
    foldl_header hsup sk zeros o₁ o₀ ds hlen]

theorem run_word (hsup : e.Supported) (hidle : e.eecs = false) {c : Cycle} {zeros : ℕ} {o₁ o₀ : Bool} {a : ℕ}
    {tail : List Bool} (ho : 2 * o₁.toNat + o₀.toNat ≠ 0) (htail : tail.length ≤ 16)
    (hclk : clocked c.first.1 c.body =
      List.replicate zeros false ++ true :: ([o₁, o₀] ++ bitsOf e.addrbits a ++ tail)) :
    (c.run e).writeable = e.writeable ∧
      (c.run e).contents = if e.writeable = true ∧ 2 * o₁.toNat + o₀.toNat = 3 then
        Function.update e.contents (a % e.size) 0xffff else e.contents := by
  have hX := foldl_command hsup c.first.1 zeros o₁ o₀ (bitsOf e.addrbits a) tail (length_bitsOf _ _)
  rw [← hclk, valFrom_bitsOf, Nat.zero_mul, Nat.zero_add] at hX
  obtain ⟨hw, hc⟩ := ((received_word ho _).data htail).run htail hidle hX
  refine ⟨hw, hc.trans ?_⟩
  have hop : ∀ p : Prop, ¬ (2 * o₁.toNat + o₀.toNat = 0 ∧ p) := fun p h => ho h.1
  rw [mod_size hsup, Nat.mod_eq_of_lt (mod_size_lt hsup a), if_neg (hop _), ← ite_and]

/-- An extended command, with its code `q` in the upper bits of the address. -/
theorem run_extended (hsup : e.Supported) (hidle : e.eecs = false) {c : Cycle} {zeros : ℕ} {q₁ q₀ : Bool} {x : ℕ}
    {tail : List Bool} (htail : tail.length ≤ 16)
    (hclk : clocked c.first.1 c.body =
      List.replicate zeros false ++ true :: ([false, false] ++ ([q₁, q₀] ++ bitsOf (e.addrbits - 2) x) ++ tail)) :
    (c.run e).writeable =
        (if subcommand e.size (2 * q₁.toNat + q₀.toNat) = 0 then false
        else if subcommand e.size (2 * q₁.toNat + q₀.toNat) = 3 then true else e.writeable) ∧
      (c.run e).contents =
        if (c.run e).writeable = true ∧ subcommand e.size (2 * q₁.toNat + q₀.toNat) = 2 then
          fun b => if b < e.size then 0xffff else e.contents b
        else e.contents := by
  have hlen : ([q₁, q₀] ++ bitsOf (e.addrbits - 2) x).length = e.addrbits := by
    rw [List.length_append, length_bitsOf]
    rcases hsup.cases with ⟨_, ha⟩ | ⟨_, ha⟩ | ⟨_, ha⟩ | ⟨_, ha⟩ <;> simp [ha]
  have hval : valFrom 0 ([q₁, q₀] ++ bitsOf (e.addrbits - 2) x) =
      (2 * q₁.toNat + q₀.toNat) * 2 ^ (e.addrbits - 2) + x % 2 ^ (e.addrbits - 2) := by
    rw [← valFrom_bitsOf]
    simp [valFrom]
  have hq : 2 * q₁.toNat + q₀.toNat < 4 := by
    have := Bool.toNat_lt q₁
    have := Bool.toNat_lt q₀
    omega
  have hsub := subcommand_eq hsup hq x
  have hlt := mod_size_lt hsup ((2 * q₁.toNat + q₀.toNat) * 2 ^ (e.addrbits - 2) + x % 2 ^ (e.addrbits - 2))
  have h256 : subcommand e.size (2 * q₁.toNat + q₀.toNat) < 256 := by
    rw [subcommand]
    split_ifs <;> omega
  have hX := foldl_command hsup c.first.1 zeros false false _ tail hlen
  rw [← hclk, hval] at hX
  obtain ⟨hw, hc⟩ := ((received_extended _).data htail).run htail hidle hX
  rw [hsub] at hw hc
  rw [Nat.mod_eq_of_lt hlt, hsub, Nat.mod_eq_of_lt h256, ← hw] at hc
  refine ⟨hw, hc.trans ?_⟩
  by_cases hwr : (c.run e).writeable = true
  · by_cases h₂ : subcommand e.size (2 * q₁.toNat + q₀.toNat) = 2
    · rw [if_pos hwr, if_pos ⟨rfl, h₂⟩, if_pos ⟨hwr, h₂⟩]
    · rw [if_pos hwr, if_neg fun h => h₂ h.2, if_neg (by decide), if_neg fun h => h₂ h.2]
  · rw [if_neg hwr, if_neg fun h => hwr h.1]

theorem clocked_take_start : ∀ (ps : List (Bool × Bool)) (sk : Bool) (n : ℕ),
    clocked sk (ps.take n) <+: clocked sk ps
  | [], _, _ => by simp [clocked]
  | _ :: _, _, 0 => by simp [clocked]
  | (sk', di) :: ps, sk, n + 1 => by
    rw [List.take_succ_cons, clocked, clocked]
    split_ifs
    · exact (List.prefix_cons_inj di).2 (clocked_take_start ps sk' n)
    · exact clocked_take_start ps sk' n

theorem eedo_gotAddress {sk : Bool} (v : ℕ) : ((headed e sk 2).gotAddress v).eedo = false := by
  rw [Eeprom.gotAddress, if_neg (by exact (by decide : ¬ (2 : ℕ) = 0))]
  rfl

theorem data_gotAddress {sk : Bool} (v : ℕ) :
    ((headed e sk 2).gotAddress v).data = e.contents (v % e.size) := by
  rw [Eeprom.gotAddress, if_neg (by exact (by decide : ¬ (2 : ℕ) = 0))]
  rfl

/-- A read shows a zero and then the word, the highest bit first. -/
theorem readsOut (hsup : e.Supported) (hidle : e.eecs = false) {c : Cycle} {zeros a fill : ℕ}
    (hclk : c.Clocks e.addrbits zeros (.read a fill)) : ReadsOut e c zeros a := by
  intro n j hj hlen
  obtain ⟨b, hb⟩ := Eeprom.foldl_selected (c.body.take n) (started e c.first.1) rfl
  have hbits : clocked c.first.1 (c.body.take n) =
      List.replicate zeros false ++ true :: ([true, false] ++ bitsOf e.addrbits a ++ (bitsOf 16 fill).take j) := by
    have hpre := List.prefix_iff_eq_take.1 (clocked_take_start c.body c.first.1 n)
    rw [hclk, hlen, EepromCmd.encode] at hpre
    rw [hpre]
    have hsplit : List.replicate zeros false ++ true :: ([true, false] ++ bitsOf e.addrbits a ++ bitsOf 16 fill) =
      (List.replicate zeros false ++ true :: ([true, false] ++ bitsOf e.addrbits a)) ++ bitsOf 16 fill := by simp
    have hl : (List.replicate zeros false ++ true :: ([true, false] ++ bitsOf e.addrbits a)).length =
        zeros + 1 + 2 + e.addrbits := by
      simp [length_bitsOf]
      omega
    rw [hsplit, ← hl, List.take_length_add_append]
    simp
  have hX := foldl_command hsup c.first.1 zeros true false (bitsOf e.addrbits a) ((bitsOf 16 fill).take j)
    (length_bitsOf _ _)
  rw [← hbits, valFrom_bitsOf, Nat.zero_mul, Nat.zero_add] at hX
  have htl : ((bitsOf 16 fill).take j).length = j := by
    rw [List.length_take, length_bitsOf, Nat.min_eq_left hj]
  have hrec : Received e ((headed e c.first.1 2).gotAddress (a % 2 ^ e.addrbits)) 2
      (a % 2 ^ e.addrbits % e.size % 256) 0 e.writeable := received_word (by decide) _
  obtain ⟨data, hdata⟩ := Eeprom.foldl_data ((bitsOf 16 fill).take j)
    (e := (headed e c.first.1 2).gotAddress (a % 2 ^ e.addrbits)) (k := 0)
    (by rw [hrec.tick_eq, hrec.addrbits_eq, Nat.add_zero]) (by omega)
  rw [opening_eq hidle, hb, eeprom93xxRead]
  have hsk : (started e c.first.1).eesk = c.first.1 := rfl
  show ((clocked (started e c.first.1).eesk (c.body.take n)).foldl Eeprom.shiftIn (started e c.first.1)).eedo = _
  rw [hsk, hX]
  show (((bitsOf 16 fill).take j).foldl Eeprom.shiftIn ((headed e c.first.1 2).gotAddress (a % 2 ^ e.addrbits))).eedo = _
  rw [hdata]
  show (if ((headed e c.first.1 2).gotAddress (a % 2 ^ e.addrbits)).command = 2 ∧ (bitsOf 16 fill).take j ≠ [] then
    ((headed e c.first.1 2).gotAddress (a % 2 ^ e.addrbits)).data.getLsbD (16 - ((bitsOf 16 fill).take j).length)
    else ((headed e c.first.1 2).gotAddress (a % 2 ^ e.addrbits)).eedo) = _
  rw [hrec.command_eq, data_gotAddress, eedo_gotAddress, htl, mod_size hsup]
  by_cases hj0 : j = 0
  · simp [hj0]
  · have hne : (bitsOf 16 fill).take j ≠ [] := fun h => by
      rw [h] at htl
      exact hj0 htl.symm
    rw [if_pos ⟨rfl, hne⟩, if_neg hj0]

end Commands

/-! ### The protocol, command by command -/

section Protocol

variable {e : Eeprom} {c : Cycle} {zeros : ℕ} (hsup : e.Supported) (hidle : e.eecs = false)
include hsup hidle

theorem obeys_read {a fill : ℕ} (hclk : c.Clocks e.addrbits zeros (.read a fill)) : Obeys e c zeros (.read a fill) := by
  obtain ⟨hw, hc⟩ := run_word hsup hidle (by decide) (by rw [length_bitsOf]) hclk
  exact ⟨hc.trans (if_neg fun h => absurd h.2 (by decide)), hw, readsOut hsup hidle hclk⟩

theorem obeys_write {a : ℕ} {d : BitVec 16} (hclk : c.Clocks e.addrbits zeros (.write a d)) :
    Obeys e c zeros (.write a d) ↔ Works e (.write a d) := by
  obtain ⟨hw, hc⟩ := run_word hsup hidle (by decide) (by rw [length_bitsOf]) hclk
  have hc' : (c.run e).contents = e.contents := hc.trans (if_neg fun h => absurd h.2 (by decide))
  simp only [Obeys, Works, hw, hc', true_and, imp_true_iff]
  refine forall_congr' fun _ => forall_congr' fun herased => ?_
  rw [herased]
  exact eq_comm

theorem obeys_erase {a : ℕ} (hclk : c.Clocks e.addrbits zeros (.erase a)) : Obeys e c zeros (.erase a) := by
  have hclk' : clocked c.first.1 c.body =
      List.replicate zeros false ++ true :: ([true, true] ++ bitsOf e.addrbits a ++ []) := by
    rw [List.append_nil]
    exact hclk
  obtain ⟨hw, hc⟩ := run_word hsup hidle (by decide) (by decide) hclk'
  exact ⟨hw, hc.trans (if_congr (and_iff_left rfl) rfl rfl)⟩

theorem run_extended_nil {q₁ q₀ : Bool} {x : ℕ} (hclk : clocked c.first.1 c.body =
      List.replicate zeros false ++ true :: ([false, false] ++ ([q₁, q₀] ++ bitsOf (e.addrbits - 2) x))) :
    (c.run e).writeable =
        (if subcommand e.size (2 * q₁.toNat + q₀.toNat) = 0 then false
        else if subcommand e.size (2 * q₁.toNat + q₀.toNat) = 3 then true else e.writeable) ∧
      (c.run e).contents =
        if (c.run e).writeable = true ∧ subcommand e.size (2 * q₁.toNat + q₀.toNat) = 2 then
          fun b => if b < e.size then 0xffff else e.contents b
        else e.contents := by
  have hclk' : clocked c.first.1 c.body =
      List.replicate zeros false ++ true :: ([false, false] ++ ([q₁, q₀] ++ bitsOf (e.addrbits - 2) x) ++ []) := by
    rw [List.append_nil]
    exact hclk
  exact run_extended hsup hidle (by decide) hclk'

theorem obeys_ewds {x : ℕ} (hclk : c.Clocks e.addrbits zeros (.ewds x)) : Obeys e c zeros (.ewds x) := by
  obtain ⟨hw, hc⟩ := run_extended_nil hsup hidle hclk
  have hsub : subcommand e.size 0 = 0 := by
    rw [subcommand]
    split_ifs <;> rfl
  have hw' : (c.run e).writeable = false := hw.trans (if_pos hsub)
  refine ⟨hw', hc.trans (if_neg fun h => ?_)⟩
  rw [hw'] at h
  exact absurd h.1 (by decide)

theorem obeys_wral {x : ℕ} {d : BitVec 16} (hclk : c.Clocks e.addrbits zeros (.wral x d)) :
    Obeys e c zeros (.wral x d) ↔ Works e (.wral x d) := by
  obtain ⟨hw, hc⟩ := run_extended hsup hidle (by rw [length_bitsOf]) hclk
  have hc' : (c.run e).contents = e.contents := by
    refine hc.trans (if_neg fun h => absurd h.2 ?_)
    rcases hsup.cases with ⟨hs, _⟩ | ⟨hs, _⟩ | ⟨hs, _⟩ | ⟨hs, _⟩ <;> rw [hs] <;> decide
  have hw' : (c.run e).writeable = if e.size = 16 then false else e.writeable := by
    rw [hw]
    rcases hsup.cases with ⟨hs, _⟩ | ⟨hs, _⟩ | ⟨hs, _⟩ | ⟨hs, _⟩ <;> rw [hs] <;> rfl
  simp only [Obeys, Works, hc', imp_true_iff, true_and]
  rw [hw']
  cases e.writeable with
  | false => simp
  | true =>
    by_cases h16 : e.size = 16
    · simp [h16]
    · simp only [h16, if_false, ne_eq, not_false_eq_true, true_and, forall_const]
      refine forall_congr' fun b => forall_congr' fun _ => forall_congr' fun herased => ?_
      rw [herased]
      exact eq_comm

theorem obeys_eral {x : ℕ} (hclk : c.Clocks e.addrbits zeros (.eral x)) :
    Obeys e c zeros (.eral x) ↔ Works e (.eral x) := by
  obtain ⟨hw, hc⟩ := run_extended_nil hsup hidle hclk
  rcases hsup.cases with ⟨hs, _⟩ | ⟨hs, _⟩ | ⟨hs, _⟩ | ⟨hs, _⟩ <;> rw [hs] at hw hc
  · have hw' : (c.run e).writeable = false := hw
    rw [hw'] at hc
    cases h : e.writeable <;> simp [Obeys, Works, hw', hc, hs, h]
  · have hw' : (c.run e).writeable = e.writeable := hw
    rw [hw'] at hc
    cases h : e.writeable <;> simp [Obeys, Works, hw', hc, hs, h, subcommand]
  · have hw' : (c.run e).writeable = false := hw
    rw [hw'] at hc
    cases h : e.writeable <;> simp [Obeys, Works, hw', hc, hs, h]
  · have hw' : (c.run e).writeable = e.writeable := hw
    rw [hw'] at hc
    cases h : e.writeable <;> simp [Obeys, Works, hw', hc, hs, h, subcommand]

theorem obeys_ewen {x : ℕ} (hclk : c.Clocks e.addrbits zeros (.ewen x)) :
    Obeys e c zeros (.ewen x) ↔ Works e (.ewen x) := by
  obtain ⟨hw, hc⟩ := run_extended_nil hsup hidle hclk
  have hc' : (c.run e).contents = e.contents := by
    refine hc.trans (if_neg fun h => absurd h.2 ?_)
    rcases hsup.cases with ⟨hs, _⟩ | ⟨hs, _⟩ | ⟨hs, _⟩ | ⟨hs, _⟩ <;> rw [hs] <;> decide
  rcases hsup.cases with ⟨hs, _⟩ | ⟨hs, _⟩ | ⟨hs, _⟩ | ⟨hs, _⟩ <;> rw [hs] at hw
  · have hw' : (c.run e).writeable = false := hw
    simp [Obeys, Works, hw', hs]
  · have hw' : (c.run e).writeable = true := hw
    simp [Obeys, Works, hw', hc', hs]
  · have hw' : (c.run e).writeable = e.writeable := hw
    simp [Obeys, Works, hw', hc', hs]
  · have hw' : (c.run e).writeable = true := hw
    simp [Obeys, Works, hw', hc', hs]

end Protocol

/-- A cycle that clocks a complete command into an idle EEPROM obeys the protocol exactly
when the command is one of those that the code carries out. -/
theorem eeprom_obeys_iff (e : Eeprom) (c : Cycle) (zeros : ℕ) (cmd : EepromCmd) (hsup : e.Supported)
    (hidle : e.eecs = false) (hclk : c.Clocks e.addrbits zeros cmd) : Obeys e c zeros cmd ↔ Works e cmd := by
  cases cmd with
  | read a fill => exact iff_of_true (obeys_read hsup hidle hclk) trivial
  | write a d => exact obeys_write hsup hidle hclk
  | erase a => exact iff_of_true (obeys_erase hsup hidle hclk) trivial
  | ewds x => exact iff_of_true (obeys_ewds hsup hidle hclk) trivial
  | wral x d => exact obeys_wral hsup hidle hclk
  | eral x => exact obeys_eral hsup hidle hclk
  | ewen x => exact obeys_ewen hsup hidle hclk

/-- A cycle with one low and one high phase of the clock for each bit. -/
def Cycle.ofBits (ds : List Bool) : Cycle :=
  ⟨(false, false), ds.flatMap fun d => [(false, d), (true, d)], (false, false)⟩

/-- An erased EEPROM of 64 words with writing enabled. -/
def erased64 : Eeprom := ⟨0, 0, 0, true, false, false, true, 6, 64, 0, fun _ => 0xffff⟩

/-- The same EEPROM with a number in each word. -/
def numbered64 : Eeprom := { erased64 with contents := fun a => BitVec.ofNat 16 a }

theorem eeprom_obeys_erase : numbered64.Supported ∧ numbered64.eecs = false ∧
    Obeys numbered64 (Cycle.ofBits (false :: false :: true :: EepromCmd.encode 6 (.erase 3))) 2 (.erase 3) :=
  ⟨rfl, rfl, (eeprom_obeys_iff numbered64 (Cycle.ofBits (false :: false :: true :: EepromCmd.encode 6 (.erase 3))) 2 (.erase 3)
    rfl rfl rfl).2 trivial⟩

/-- Writing to an erased word with writing enabled: the word keeps its old value. -/
theorem eeprom_write_lost : ¬ ∀ (e : Eeprom) (c : Cycle) (zeros : ℕ) (cmd : EepromCmd), e.Supported →
    e.eecs = false → c.Clocks e.addrbits zeros cmd → Obeys e c zeros cmd := by
  intro h
  obtain ⟨_, _, _, hword⟩ := h erased64 (Cycle.ofBits (true :: EepromCmd.encode 6 (.write 3 0x1234))) 0
    (.write 3 0x1234) rfl rfl rfl
  exact absurd (hword rfl rfl) (by decide)

/-! ### Every EEPROM is supported -/

theorem supported_write {e : Eeprom} (h : e.Supported) (p : Pins) : (eeprom93xxWrite e p).Supported := by
  have hend : e.endCycle.size = e.size ∧ e.endCycle.addrbits = e.addrbits := by
    simp only [Eeprom.endCycle, apply_ite Eeprom.size, apply_ite Eeprom.addrbits, ite_self, and_self]
  have hshift : (e.shiftIn p.eedi).size = e.size ∧ (e.shiftIn p.eedi).addrbits = e.addrbits := by
    simp only [Eeprom.shiftIn, Eeprom.gotAddress, apply_ite Eeprom.size, apply_ite Eeprom.addrbits, ite_self, and_self]
  unfold Eeprom.Supported eeprom93xxWrite
  dsimp only
  split_ifs
  · exact h
  · exact (congrArg addrbitsOf hend.1).trans (h.trans (congrArg some hend.2.symm))
  · exact (congrArg addrbitsOf hshift.1).trans (h.trans (congrArg some hshift.2.symm))
  · exact h

end Ar7Qemu.Hw
