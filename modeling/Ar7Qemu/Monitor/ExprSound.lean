import Ar7Qemu.Monitor.ExprPrint

/-! The reader of monitor expressions reads the sentences of the grammar, up to a rest that does not go on
with an operator, unless a division traps before it ends. -/

namespace Ar7Qemu.Monitor

open Lib.CString

variable {host : Host} {l : ℕ} {text rest : Text} {v : BitVec 64}

/-! ### Results -/

/-- A result is an error, or a value of a kind, or a trap that is allowed. -/
def Result.Spec (r : Result) (done : BitVec 64 → Text → Prop) (traps : Prop) : Prop :=
  match r with
  | ok v rest => done v rest
  | error _ _ => True
  | trap => traps
  | overrun => False
  | timeout => False

theorem Result.Spec.bind {r : Result} {done done' : BitVec 64 → Text → Prop} {traps traps' : Prop}
    {k : BitVec 64 → Text → Result} (h : r.Spec done traps) (hk : ∀ v rest, done v rest → (k v rest).Spec done' traps')
    (ht : traps → traps') : (r.bind k).Spec done' traps' := by
  cases r with
  | ok v rest => exact hk v rest h
  | error msg rest => exact trivial
  | trap => exact ht h
  | overrun => exact h.elim
  | timeout => exact h.elim

theorem Result.Spec.mono {r : Result} {done done' : BitVec 64 → Text → Prop} {traps traps' : Prop} (h : r.Spec done traps)
    (hdone : ∀ v rest, done v rest → done' v rest) (ht : traps → traps') : r.Spec done' traps' := by
  cases r with
  | ok v rest => exact hdone v rest h
  | error msg rest => exact trivial
  | trap => exact ht h
  | overrun => exact h
  | timeout => exact h

theorem Result.bind_complete {r : Result} {w : BitVec 64} {pch : Text} {k : BitVec 64 → Text → Result}
    (h : r = .ok w pch ∨ r = .trap) : r.bind k = k w pch ∨ r.bind k = .trap := by
  rcases h with rfl | rfl
  · exact .inl rfl
  · exact .inr rfl

/-! ### Operators -/

theorem prodOp_eq_some_iff {c : UInt8} {op : Op} : prodOp c = some op ↔ op.level = 1 ∧ op.byte = c := by
  unfold prodOp
  split_ifs with hmul hdiv hmod
  · subst hmul
    cases op <;> decide
  · subst hdiv
    cases op <;> decide
  · subst hmod
    cases op <;> decide
  · refine iff_of_false nofun ?_
    rintro ⟨hlevel, rfl⟩
    cases op <;> first | exact absurd rfl hmul | exact absurd rfl hdiv | exact absurd rfl hmod | exact absurd hlevel (by decide)

theorem logicOp_eq_some_iff {c : UInt8} {op : Op} : logicOp c = some op ↔ op.level = 2 ∧ op.byte = c := by
  unfold logicOp
  split_ifs with hand hor hxor
  · subst hand
    cases op <;> decide
  · subst hor
    cases op <;> decide
  · subst hxor
    cases op <;> decide
  · refine iff_of_false nofun ?_
    rintro ⟨hlevel, rfl⟩
    cases op <;> first | exact absurd rfl hand | exact absurd rfl hor | exact absurd rfl hxor | exact absurd hlevel (by decide)

theorem sumOp_eq_some_iff {c : UInt8} {op : Op} : sumOp c = some op ↔ op.level = 3 ∧ op.byte = c := by
  unfold sumOp
  split_ifs with hadd hsub
  · subst hadd
    cases op <;> decide
  · subst hsub
    cases op <;> decide
  · refine iff_of_false nofun ?_
    rintro ⟨hlevel, rfl⟩
    cases op <;> first | exact absurd rfl hadd | exact absurd rfl hsub | exact absurd hlevel (by decide)

theorem Op.byte_ne_zero (op : Op) : op.byte ≠ 0 := by cases op <;> decide

theorem Op.byte_injective : Function.Injective Op.byte := by
  intro op op' h
  revert h
  cases op <;> cases op' <;> decide

theorem Op.level_pos (op : Op) : 0 < op.level := by cases op <;> decide

theorem Op.exec_spec (op : Op) (v w : BitVec 64) (pch : Text) :
    (op.exec v w pch).Spec (fun x rest => rest = pch ∧ op.value v w = some x) (op.Overflows v w) := by
  cases op with
  | div =>
    unfold exec
    split_ifs with hzero hover
    · exact trivial
    · exact ⟨.inl rfl, hover⟩
    · exact ⟨rfl, if_neg hzero⟩
  | mod =>
    unfold exec
    split_ifs with hzero hover
    · exact trivial
    · exact ⟨.inr rfl, hover⟩
    · exact ⟨rfl, if_neg hzero⟩
  | mul | and | or | xor | add | sub => exact ⟨rfl, rfl⟩

theorem Op.exec_overflows {op : Op} {v w : BitVec 64} (h : op.Overflows v w) (pch : Text) : op.exec v w pch = .trap := by
  obtain ⟨hop, rfl, rfl⟩ := h
  rcases hop with rfl | rfl <;> rfl

theorem Op.exec_value {op : Op} {v w x : BitVec 64} (h : op.value v w = some x) (pch : Text) :
    op.exec v w pch = .ok x pch ∨ op.exec v w pch = .trap := by
  cases op with
  | div | mod =>
    have hzero : w ≠ 0 := by
      rintro rfl
      cases h
    unfold value at h
    unfold exec
    dsimp only at h ⊢
    rw [if_neg hzero] at h ⊢
    cases h
    split_ifs
    · exact .inr rfl
    · exact .inl rfl
  | mul | and | or | xor | add | sub =>
    cases h
    exact .inl rfl

theorem stops_zero (rest : Text) : Stops 0 rest := fun op hle => absurd op.level_pos (Nat.not_lt_of_le hle)

theorem stops_apply {op : Op} (h : op.level = l + 1) : Stops l (op.byte :: rest) := by
  intro op' hle hhead
  cases Op.byte_injective (Option.some.inj hhead)
  omega

/-! ### Consumption -/

theorem skipSpaces_length_le (text : Text) : (skipSpaces text).length ≤ text.length :=
  (List.dropWhile_suffix _).length_le

/-- A number that is read leaves a shorter text. -/
theorem strtoul_length_lt {w : ℕ} (h : (strtoul w text).2 ≠ text) : (strtoul w text).2.length < text.length := by
  revert h
  unfold strtoul
  extract_lets q neg q' base q'' digits v
  have hq : q.length ≤ text.length := skipSpaces_length_le text
  have hq' : q'.length ≤ q.length := by
    show (if _ then q.tail else q).length ≤ q.length
    split_ifs
    · exact q.length_tail ▸ Nat.sub_le _ _
    · exact le_rfl
  have hq'' : q''.length ≤ q'.length := List.length_drop ▸ Nat.sub_le _ _
  split_ifs with hdigits hbig hneg
  · intro h
    exact absurd rfl h
  all_goals
    intro _
    have hsplit : digits ++ q''.dropWhile (fun c => digit c < base) = q'' := List.takeWhile_append_dropWhile
    have hlength := congrArg List.length hsplit
    rw [List.length_append] at hlength
    have hpos := List.length_pos_iff.2 hdigits
    dsimp only
    omega

theorem Sentence.length_lt (h : Sentence host l text v rest) : rest.length < text.length := by
  induction h with
  | @plus text v rest _ ih =>
    have hskip := skipSpaces_length_le text
    rw [List.length_cons]
    omega
  | @minus text v rest _ ih =>
    have hskip := skipSpaces_length_le text
    rw [List.length_cons]
    omega
  | @compl text v rest _ ih =>
    have hskip := skipSpaces_length_le text
    rw [List.length_cons]
    omega
  | @paren text v rest _ ih =>
    have hskip := skipSpaces_length_le text
    have hskip' := skipSpaces_length_le rest
    rw [List.length_cons] at ih ⊢
    omega
  | character c rest =>
    have hskip := skipSpaces_length_le rest
    simp only [List.length_cons]
    omega
  | @register text v _ =>
    have hskip := skipSpaces_length_le (text.dropWhile isName)
    have hdrop : (text.dropWhile isName).length ≤ text.length := (List.dropWhile_suffix _).length_le
    rw [List.length_cons]
    omega
  | number _ hread => exact (skipSpaces_length_le _).trans_lt (strtoul_length_lt hread)
  | operand _ ih => exact ih
  | @apply l text v text' w x rest op _ _ _ _ ih ih' =>
    have hskip := skipSpaces_length_le text'
    rw [List.length_cons] at ih
    omega

/-! ### Chains -/

/-- A reader reads the sentences of a level from texts of fewer than some bytes. -/
structure Reads (host : Host) (l : ℕ) (f : Text → Result) (size : ℕ) : Prop where
  sound : ∀ text : Text, text.length < size →
    (f text).Spec (fun v rest => Sentence host l text v rest ∧ Stops l rest) (Traps host l text)
  complete : ∀ {text v rest}, text.length < size → Sentence host l text v rest → Stops l rest →
    f text = .ok v rest ∨ f text = .trap
  traps : ∀ {text : Text}, text.length < size → Traps host l text → f text = .trap

section Chain

variable {f : Text → Result} {size : ℕ} {opOf : UInt8 → Option Op} (hf : Reads host l f size)
  (hop : ∀ {c op}, opOf c = some op ↔ op.level = l + 1 ∧ op.byte = c)

include hop in
theorem opOf_none (h : Stops (l + 1) rest) : opOf (rest.headD 0) = none := by
  rcases hopt : opOf (rest.headD 0) with _ | op
  · rfl
  · obtain ⟨hlevel, hbyte⟩ := hop.1 hopt
    cases rest with
    | nil => exact absurd hbyte op.byte_ne_zero
    | cons c rest => exact absurd (congrArg some hbyte.symm) (h op hlevel.le)

include hop in
theorem exprLoop_apply {op : Op} (hlevel : op.level = l + 1) {fuel : ℕ} {val : BitVec 64} {pch : Text} :
    exprLoop f opOf (fuel + 1) val (op.byte :: pch) =
      (f (skipSpaces pch)).bind fun val2 pch => (op.exec val val2 pch).bind (exprLoop f opOf fuel) := by
  have hsome : opOf op.byte = some op := hop.2 ⟨hlevel, rfl⟩
  rw [exprLoop, List.headD_cons, hsome]
  rfl

include hop in
theorem reached_apply {op : Op} (hlevel : op.level = l + 1) {r : Result} {val : BitVec 64} {pch : Text}
    (h : (∃ fuel, (op.byte :: pch).length < fuel ∧ r = exprLoop f opOf fuel val (op.byte :: pch)) ∨ r = .trap) :
    (∃ fuel, pch.length < fuel ∧ r = (f (skipSpaces pch)).bind fun val2 pch =>
      (op.exec val val2 pch).bind (exprLoop f opOf fuel)) ∨ r = .trap := by
  rcases h with ⟨fuel, hfuel, heq⟩ | htrap
  · cases fuel with
    | zero => exact absurd hfuel (Nat.not_lt_zero _)
    | succ fuel => exact .inl ⟨fuel, Nat.lt_of_succ_lt_succ hfuel, heq.trans (exprLoop_apply hop hlevel)⟩
  · exact .inr htrap

include hf hop

/-- The loop extends the sentence that has been read. -/
theorem exprLoop_spec {fuel : ℕ} (hfuel : fuel ≤ size) {pch : Text} (hlt : pch.length < fuel) {val : BitVec 64}
    (hval : Sentence host (l + 1) text val pch) (hstops : Stops l pch) :
    (exprLoop f opOf fuel val pch).Spec (fun v rest => Sentence host (l + 1) text v rest ∧ Stops (l + 1) rest)
      (Traps host (l + 1) text) := by
  induction fuel generalizing val pch with
  | zero => exact absurd hlt (Nat.not_lt_zero _)
  | succ fuel ih =>
    unfold exprLoop
    rcases hopt : opOf (pch.headD 0) with _ | op
    · refine ⟨hval, fun op hle hhead => ?_⟩
      rcases Nat.lt_or_eq_of_le hle with hlow | hlevel
      · exact hstops op (Nat.le_of_lt_succ hlow) hhead
      · have hsome := hop.2 ⟨hlevel, rfl⟩
        rw [List.headD_eq_head?_getD, hhead] at hopt
        exact absurd (hsome.symm.trans hopt) nofun
    · obtain ⟨hlevel, hbyte⟩ := hop.1 hopt
      cases pch with
      | nil => exact absurd hbyte op.byte_ne_zero
      | cons c pch =>
        have hc : op.byte = c := hbyte
        subst hc
        have hskip := skipSpaces_length_le pch
        rw [List.length_cons] at hlt
        refine (hf.sound (skipSpaces pch) (by omega)).bind ?_ fun ht => .right op hlevel hval ht
        rintro w rest ⟨hw, hrest⟩
        have hlength := hw.length_lt
        refine (op.exec_spec val w rest).bind ?_ fun ht => .divide op hlevel hval hw ht
        rintro x _ ⟨rfl, hx⟩
        exact ih (by omega) (by omega) (.apply op hlevel hval hw hx) hrest

/-- Where a part of a sentence has been read, the reader is in its loop. -/
theorem exprChain_reached (hlt : text.length < size) (h : Sentence host (l + 1) text v rest) (hstops : Stops l rest) :
    (∃ fuel, rest.length < fuel ∧ exprChain f opOf size text = exprLoop f opOf fuel v rest) ∨
      exprChain f opOf size text = .trap := by
  generalize hm : l + 1 = m at h
  induction h with
  | plus | minus | compl | paren | character | register | number => cases hm
  | operand h =>
    cases hm
    have hlength := h.length_lt
    unfold exprChain
    rcases hf.complete hlt h hstops with hok | htrap
    · rw [hok]
      exact .inl ⟨size, by omega, rfl⟩
    · rw [htrap]
      exact .inr rfl
  | @apply _ text v text' w x rest op hlevel hleft hright hvalue ih =>
    cases hm
    have hlength := hleft.length_lt
    have hskip := skipSpaces_length_le text'
    rw [List.length_cons] at hlength
    rcases reached_apply hop hlevel (ih hlt (stops_apply hlevel) rfl) with ⟨fuel, hfuel, heq⟩ | htrap
    · rw [heq]
      rcases Result.bind_complete (hf.complete (show (skipSpaces text').length < size by omega) hright hstops) with hok | htrap
      · rw [hok]
        refine (Result.bind_complete (op.exec_value hvalue rest)).imp_left fun hx => ?_
        have hlength' := hright.length_lt
        exact ⟨fuel, by omega, hx⟩
      · exact .inr htrap
    · exact .inr htrap

theorem exprChain_reads : Reads host (l + 1) (exprChain f opOf size) size where
  sound text hlt := by
    refine (hf.sound text hlt).bind ?_ .operand
    rintro w rest ⟨hw, hrest⟩
    exact exprLoop_spec hf hop le_rfl (hw.length_lt.trans hlt) hw.operand hrest
  complete := by
    intro text v rest hlt h hstops
    have hlow : Stops l rest := fun op hle => hstops op (Nat.le_succ_of_le hle)
    rcases exprChain_reached hf hop hlt h hlow with ⟨fuel, hfuel, heq⟩ | htrap
    · cases fuel with
      | zero => exact absurd hfuel (Nat.not_lt_zero _)
      | succ fuel =>
        rw [heq, exprLoop, opOf_none hop hstops]
        exact .inl rfl
    · exact .inr htrap
  traps := by
    intro text hlt h
    cases h with
    | operand h =>
      rw [exprChain, hf.traps hlt h]
      rfl
    | @right _ _ v text' op hlevel hleft h =>
      have hlength := hleft.length_lt
      have hskip := skipSpaces_length_le text'
      rw [List.length_cons] at hlength
      rcases reached_apply hop hlevel (exprChain_reached hf hop hlt hleft (stops_apply hlevel)) with ⟨fuel, -, heq⟩ | htrap
      · rw [heq, hf.traps (by omega) h]
        rfl
      · exact htrap
    | @divide _ _ v text' w rest op hlevel hleft hright hover =>
      have hlength := hleft.length_lt
      have hskip := skipSpaces_length_le text'
      rw [List.length_cons] at hlength
      have hstops : Stops l rest := by
        have hone : op.level = 1 := by
          rcases hover.1 with rfl | rfl <;> rfl
        have hzero : l = 0 := by omega
        rw [hzero]
        exact stops_zero rest
      rcases reached_apply hop hlevel (exprChain_reached hf hop hlt hleft (stops_apply hlevel)) with ⟨fuel, -, heq⟩ | htrap
      · rw [heq]
        rcases hf.complete (show (skipSpaces text').length < size by omega) hright hstops with hok | htrap
        · rw [hok, Result.bind, Op.exec_overflows hover]
          rfl
        · rw [htrap]
          rfl
      · exact htrap

end Chain

theorem exprSum_reads {unary : Text → Result} {size : ℕ} (h : Reads host 0 unary size) :
    Reads host 3 (exprSum unary size) size :=
  exprChain_reads (exprChain_reads (exprChain_reads h prodOp_eq_some_iff) logicOp_eq_some_iff) sumOp_eq_some_iff

/-! ### Terms -/

theorem getMonitorDef_take (name : Text) : host.getMonitorDef (name.take 127) = host.getMonitorDef name := by
  have hmatch : ∀ md : MonitorDef, compareCmd (name.take 127) md.name = compareCmd name md.name := by
    intro md
    by_cases hlong : name.length ≤ 127
    · rw [List.take_of_length_le hlong]
    · have hshort : ∀ text : Text, 127 ≤ text.length → compareCmd text md.name = false := by
        intro text hlength
        refine decide_eq_false fun hmem => ?_
        have hlt := md.name_lt text hmem
        omega
      rw [hshort name (by omega), hshort (name.take 127) (by rw [List.length_take]; omega)]
  unfold Host.getMonitorDef
  simp only [hmatch]

theorem exprChar_spec (c : UInt8) (hc : c = chr '\'') (pch : Text) :
    (host.exprChar pch).Spec (fun v rest => Sentence host 0 (c :: pch) v rest ∧ Stops 0 rest) (Traps host 0 (c :: pch)) := by
  subst hc
  cases pch with
  | nil => exact trivial
  | cons c pch =>
    unfold Host.exprChar
    dsimp only
    split_ifs with hquote
    · exact trivial
    · cases pch with
      | nil => exact absurd nofun hquote
      | cons c' pch =>
        cases Option.some.inj (not_not.1 hquote)
        exact ⟨.character c pch, stops_zero _⟩

theorem exprRegister_spec (pch : Text) : (host.exprRegister pch).Spec
    (fun v rest => Sentence host 0 (chr '$' :: pch) v rest ∧ Stops 0 rest) (Traps host 0 (chr '$' :: pch)) := by
  unfold Host.exprRegister
  dsimp only
  rw [getMonitorDef_take]
  rcases hdef : host.getMonitorDef (pch.takeWhile isName) with _ | _ | reg
  · exact trivial
  · exact trivial
  · refine ⟨.register ?_, stops_zero _⟩
    rw [Host.register, hdef]
    rfl

theorem exprNumber_spec {c : UInt8} (hc : c ∉ starters) (pch : Text) : (host.exprNumber (c :: pch)).Spec
    (fun v rest => Sentence host 0 (c :: pch) v rest ∧ Stops 0 rest) (Traps host 0 (c :: pch)) := by
  unfold Host.exprNumber
  split_ifs with hread
  · exact trivial
  · exact ⟨.number hc hread, stops_zero _⟩

section Unary

variable {size : ℕ} (hu : Reads host 0 (host.exprUnary size) size)

include hu

theorem exprUnary_sound (text : Text) (hlt : text.length < size + 1) : (host.exprUnary (size + 1) text).Spec
    (fun v rest => Sentence host 0 text v rest ∧ Stops 0 rest) (Traps host 0 text) := by
  cases text with
  | nil => exact trivial
  | cons c text =>
    have hskip := skipSpaces_length_le text
    have hlt' : (skipSpaces text).length < size := by
      rw [List.length_cons] at hlt
      omega
    unfold Host.exprUnary
    dsimp only
    split_ifs with hplus hminus hcompl hparen hquote hdollar
    · subst hplus
      exact (hu.sound _ hlt').mono (fun v rest h => ⟨.plus h.1, stops_zero _⟩) (.unary (.inl rfl))
    · subst hminus
      exact (hu.sound _ hlt').bind (fun v rest h => ⟨.minus h.1, stops_zero _⟩) (.unary (.inr (.inl rfl)))
    · subst hcompl
      exact (hu.sound _ hlt').bind (fun v rest h => ⟨.compl h.1, stops_zero _⟩) (.unary (.inr (.inr rfl)))
    · subst hparen
      refine ((exprSum_reads hu).sound _ hlt').bind ?_ .paren
      rintro v rest ⟨hv, -⟩
      split_ifs with hclose
      · exact trivial
      · cases rest with
        | nil => exact absurd nofun hclose
        | cons c rest =>
          cases Option.some.inj (not_not.1 hclose)
          exact ⟨.paren hv, stops_zero _⟩
    · exact exprChar_spec c hquote text
    · subst hdollar
      exact exprRegister_spec text
    · exact exprNumber_spec (by simp [starters, hplus, hminus, hcompl, hparen, hquote, hdollar]) text

theorem exprUnary_traps {text : Text} (hlt : text.length < size + 1) (h : Traps host 0 text) :
    host.exprUnary (size + 1) text = .trap := by
  cases h with
  | @unary c text hc h =>
    have hskip := skipSpaces_length_le text
    rw [List.length_cons] at hlt
    have htrap := hu.traps (show (skipSpaces text).length < size by omega) h
    rcases hc with rfl | rfl | rfl
    · exact htrap
    · show (host.exprUnary size (skipSpaces text)).bind _ = _
      rw [htrap]
      rfl
    · show (host.exprUnary size (skipSpaces text)).bind _ = _
      rw [htrap]
      rfl
  | @paren text h =>
    have hskip := skipSpaces_length_le text
    rw [List.length_cons] at hlt
    show (exprSum (host.exprUnary size) size (skipSpaces text)).bind _ = _
    rw [(exprSum_reads hu).traps (by omega) h]
    rfl

theorem exprUnary_complete (hlt : text.length < size + 1) (h : Sentence host 0 text v rest) :
    host.exprUnary (size + 1) text = .ok v rest ∨ host.exprUnary (size + 1) text = .trap := by
  cases h with
  | @plus text v rest h =>
    have hskip := skipSpaces_length_le text
    rw [List.length_cons] at hlt
    exact hu.complete (show (skipSpaces text).length < size by omega) h (stops_zero _)
  | @minus text v rest h =>
    have hskip := skipSpaces_length_le text
    rw [List.length_cons] at hlt
    exact Result.bind_complete (hu.complete (show (skipSpaces text).length < size by omega) h (stops_zero _))
  | @compl text v rest h =>
    have hskip := skipSpaces_length_le text
    rw [List.length_cons] at hlt
    exact Result.bind_complete (hu.complete (show (skipSpaces text).length < size by omega) h (stops_zero _))
  | @paren text v rest h =>
    have hskip := skipSpaces_length_le text
    rw [List.length_cons] at hlt
    have hstops : Stops 3 (chr ')' :: rest) := by
      rintro op - hhead
      cases op <;> exact absurd (Option.some.inj hhead) (by decide)
    exact Result.bind_complete ((exprSum_reads hu).complete (show (skipSpaces text).length < size by omega) h hstops)
  | character c rest => exact .inl rfl
  | @register text v h =>
    left
    show host.exprRegister text = _
    unfold Host.exprRegister
    dsimp only
    rw [getMonitorDef_take]
    unfold Host.register at h
    rw [Option.join_eq_some_iff] at h
    rw [h]
  | @number c text hc hread =>
    left
    have hne : ∀ c' ∈ starters, c ≠ c' := fun c' hmem heq => hc (heq ▸ hmem)
    unfold Host.exprUnary
    dsimp only
    rw [if_neg (hne _ (by decide)), if_neg (hne _ (by decide)), if_neg (hne _ (by decide)), if_neg (hne _ (by decide)),
      if_neg (hne _ (by decide)), if_neg (hne _ (by decide)), Host.exprNumber, if_neg hread]

end Unary

theorem exprUnary_reads (size : ℕ) : Reads host 0 (host.exprUnary size) size := by
  induction size with
  | zero => exact ⟨fun _ h => absurd h (Nat.not_lt_zero _), fun h => absurd h (Nat.not_lt_zero _), fun h => absurd h (Nat.not_lt_zero _)⟩
  | succ size ih => exact ⟨exprUnary_sound ih, fun hlt h _ => exprUnary_complete ih hlt h, exprUnary_traps ih⟩

theorem exprSum_unary_reads (size : ℕ) : Reads host 3 (exprSum (host.exprUnary size) size) size :=
  exprSum_reads (exprUnary_reads size)

/-- A text is evaluated as its grammar says just where no division on the way overflows. -/
theorem get_expr_iff (host : Host) (text : Text) : Evaluates host text ↔ ¬ Traps host 3 (skipSpaces text) := by
  have hreads : Reads host 3 _ _ := exprSum_unary_reads ((skipSpaces text).length + 1)
  have hlt := Nat.lt_succ_self (skipSpaces text).length
  constructor
  · intro h htrap
    exact h.no_trap (hreads.traps hlt htrap)
  · intro hn
    have hsound : (host.getExpr text).Spec (fun v rest => Sentence host 3 (skipSpaces text) v rest ∧ Stops 3 rest)
        (Traps host 3 (skipSpaces text)) := hreads.sound _ hlt
    have htrap : host.getExpr text ≠ .trap := by
      intro heq
      rw [heq] at hsound
      exact hn hsound
    have hcomplete : ∀ v rest, Sentence host 3 (skipSpaces text) v rest → Stops 3 rest → host.getExpr text = .ok v rest :=
      fun v rest h hstops => (hreads.complete hlt h hstops).resolve_right htrap
    refine ⟨fun heq => ?_, fun heq => ?_, htrap, fun v rest => ⟨fun heq => ?_, fun h => hcomplete v rest h.1 h.2⟩, ?_⟩
    · rw [heq] at hsound
      exact hsound
    · rw [heq] at hsound
      exact hsound
    · rw [heq] at hsound
      exact hsound
    · rintro e v rfl hv
      have hsentence := e.print_sentence hv (show EndsName [] from fun c hc => absurd hc nofun)
      rw [← e.skipSpaces_print, List.append_nil] at hsentence
      exact hcomplete v [] (hsentence.lift (Nat.zero_le 3)) fun op _ => nofun

/-- The smallest number over minus one traps. -/
theorem get_expr_traps : ¬ Evaluates ⟨64, true, []⟩ (ascii "9223372036854775808/-1") := fun h => h.no_trap (by decide +kernel)

end Ar7Qemu.Monitor
