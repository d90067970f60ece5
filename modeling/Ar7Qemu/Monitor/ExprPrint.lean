import Ar7Qemu.Monitor.Expr

/-! The text of a tree with parentheses around every operation is a sentence with the value of the tree. -/

namespace Ar7Qemu.Monitor

open Lib.CString

variable {host : Host} {l : ℕ} {rest : Text} {v : BitVec 64}

/-! ### Digits -/

theorem decimal_eq (n : ℕ) : decimal n =
    if n < 10 then [chr n.digitChar] else decimal (n / 10) ++ [chr (n % 10).digitChar] := by
  unfold decimal
  rw [Nat.toDigits_eq_if (by decide)]
  split_ifs
  · rfl
  · rw [List.map_append]
    rfl

theorem digit_digitChar : ∀ d < 10, digit (chr d.digitChar) = d := by decide

theorem chr_digitChar : ∀ d < 10, chr d.digitChar = chr '0' → d = 0 := by decide

theorem digitsValue_append (base : ℕ) (digits : Text) (c : UInt8) :
    digitsValue base (digits ++ [c]) = base * digitsValue base digits + digit c := by
  unfold digitsValue
  rw [List.foldl_append]
  rfl

theorem decimal_value (n : ℕ) : (∀ c ∈ decimal n, digit c < 10) ∧ digitsValue 10 (decimal n) = n := by
  induction n using Nat.strong_induction_on with
  | h n ih =>
    rw [decimal_eq]
    split_ifs with hsmall
    · refine ⟨fun c hc => ?_, ?_⟩
      · rw [List.mem_singleton.1 hc, digit_digitChar n hsmall]
        exact hsmall
      · show 10 * 0 + digit (chr n.digitChar) = n
        rw [digit_digitChar n hsmall, Nat.mul_zero, Nat.zero_add]
    · obtain ⟨hdigits, hvalue⟩ := ih (n / 10) (by omega)
      have hlast := digit_digitChar (n % 10) (Nat.mod_lt n (by decide))
      refine ⟨fun c hc => ?_, ?_⟩
      · rcases List.mem_append.1 hc with hc | hc
        · exact hdigits c hc
        · rw [List.mem_singleton.1 hc, hlast]
          exact Nat.mod_lt n (by decide)
      · rw [digitsValue_append, hvalue, hlast]
        omega

theorem decimal_head (n : ℕ) : ∃ c digits, decimal n = c :: digits ∧ (c = chr '0' → n = 0) := by
  induction n using Nat.strong_induction_on with
  | h n ih =>
    rw [decimal_eq]
    split_ifs with hsmall
    · exact ⟨_, _, rfl, chr_digitChar n hsmall⟩
    · obtain ⟨c, digits, heq, hzero⟩ := ih (n / 10) (by omega)
      rw [heq]
      refine ⟨c, _, List.cons_append, fun hc => ?_⟩
      have hlow := hzero hc
      omega

/-! ### Tokens -/

/-- A rest that does not go on with a name or a number. -/
def EndsName (rest : Text) : Prop := ∀ c ∈ rest.head?, isName c = false

theorem digit_of_not_isName {c : UInt8} (h : isName c = false) : digit c = 36 := by
  unfold isName at h
  unfold digit
  simp only [Bool.or_eq_false_iff, Bool.and_eq_false_iff, decide_eq_false_iff_not] at h
  obtain ⟨⟨⟨⟨hlower, hupper⟩, hdigit⟩, -⟩, -⟩ := h
  rw [if_neg fun h => hdigit.elim (· h.1) (· h.2), if_neg fun h => hupper.elim (· h.1) (· h.2),
    if_neg fun h => hlower.elim (· h.1) (· h.2)]

theorem takeWhile_append_of_head {p : UInt8 → Bool} {text : Text} (htext : ∀ c ∈ text, p c = true)
    (hrest : ∀ c ∈ rest.head?, p c = false) : (text ++ rest).takeWhile p = text ∧ (text ++ rest).dropWhile p = rest := by
  induction text with
  | nil =>
    cases rest with
    | nil => exact ⟨rfl, rfl⟩
    | cons c rest =>
      have hc : ¬ p c = true := ne_true_of_eq_false (hrest c rfl)
      exact ⟨List.takeWhile_cons_of_neg hc, List.dropWhile_cons_of_neg hc⟩
  | cons c text ih =>
    obtain ⟨htake, hdrop⟩ := ih fun c hc => htext c (.tail _ hc)
    have hc := htext c (.head _)
    rw [List.cons_append, List.takeWhile_cons_of_pos hc, List.dropWhile_cons_of_pos hc, htake, hdrop]
    exact ⟨rfl, rfl⟩

theorem isSpace_of_digit {c : UInt8} (h : digit c < 10) : ¬ isSpace c = true := by
  intro hspace
  have hle : c.toNat ≤ 32 := by
    unfold isSpace at hspace
    rcases Bool.or_eq_true_iff.1 hspace with heq | hrange
    · rw [of_decide_eq_true heq]
      rfl
    · have hlast := UInt8.le_iff_toNat_le.1 (of_decide_eq_true (Bool.and_eq_true_iff.1 hrange).2)
      exact hlast.trans (by decide)
  have hname : isName c = false := by
    have hlow : ∀ d : UInt8, 32 < d.toNat → ¬ d ≤ c := fun d hd hdc =>
      Nat.not_le_of_lt hd ((UInt8.le_iff_toNat_le.1 hdc).trans hle)
    have hne : ∀ d : UInt8, 32 < d.toNat → ¬ c = d := fun d hd hdc => Nat.not_le_of_lt hd (hdc ▸ hle)
    unfold isName
    simp only [hlow (chr 'a') (by decide), hlow (chr 'A') (by decide), hlow (chr '0') (by decide), hne (chr '_') (by decide),
      hne (chr '.') (by decide), decide_false, Bool.false_and, Bool.or_false]
  rw [digit_of_not_isName hname] at h
  exact absurd h (by decide)

/-- Digits that say their base are scanned up to what is no name. -/
theorem strtoul_digits {w base : ℕ} {c : UInt8} {digits : Text} (hc : digit c < 10) (hradix : radix (c :: digits ++ rest) = (base, 0))
    (hbase : base ≤ 36) (hdigits : ∀ c' ∈ c :: digits, digit c' < base) (hends : EndsName rest) :
    strtoul w (c :: digits ++ rest) = (min (digitsValue base (c :: digits)) (2 ^ w - 1), rest) := by
  have hspace : skipSpaces (c :: digits ++ rest) = c :: digits ++ rest :=
    List.dropWhile_cons_of_neg (isSpace_of_digit hc)
  have hneg : ¬ c = chr '-' := by
    rintro rfl
    exact absurd hc (by decide)
  have hplus : ¬ c = chr '+' := by
    rintro rfl
    exact absurd hc (by decide)
  obtain ⟨htake, hdrop⟩ := takeWhile_append_of_head (p := fun c => digit c < base)
    (fun c' hc' => decide_eq_true (hdigits c' hc')) fun c' hc' => decide_eq_false (by rw [digit_of_not_isName (hends c' hc')]; omega)
  have hminus : decide ((c :: digits ++ rest).head? = some (chr '-')) = false := decide_eq_false fun h => hneg (Option.some.inj h)
  have hsign : ¬ (false || decide ((c :: digits ++ rest).head? = some (chr '+'))) = true := by
    rw [Bool.false_or, decide_eq_true_iff]
    exact fun h => hplus (Option.some.inj h)
  have hpos := Nat.two_pow_pos w
  unfold strtoul
  dsimp only
  rw [hspace, hminus, if_neg hsign, hradix, List.drop_zero, htake, hdrop, if_neg (List.cons_ne_nil _ _)]
  by_cases hbig : 2 ^ w ≤ digitsValue base (c :: digits)
  · rw [if_pos hbig, Nat.min_eq_right (by omega)]
  · rw [if_neg hbig, if_neg Bool.false_ne_true, Nat.min_eq_left (by omega)]

/-- A decimal number is scanned up to what is no name. -/
theorem strtoul_decimal {w : ℕ} (n : ℕ) (hends : EndsName rest) :
    strtoul w (decimal n ++ rest) = (min n (2 ^ w - 1), rest) := by
  obtain ⟨hdigits, hvalue⟩ := decimal_value n
  obtain ⟨c, digits, heq, hzero⟩ := decimal_head n
  rw [heq] at hdigits hvalue ⊢
  have hc := hdigits c (.head _)
  by_cases hn : c = chr '0'
  · -- zero is scanned as an octal number
    have hnil : digits = [] := by
      have hdec : decimal 0 = [chr '0'] := rfl
      rw [hzero hn, hdec] at heq
      exact (List.cons.inj heq).2.symm
    subst hnil hn
    rw [hzero rfl]
    refine strtoul_digits hc ?_ (show 8 ≤ 36 by decide) (fun c' hc' => ?_) hends
    · have hx : ∀ d : UInt8, isName d = true → ¬ (chr '0' :: ([] : Text) ++ rest).getD 1 0 = d := by
        rintro d hd heq
        cases rest with
        | nil =>
          cases heq
          cases hd
        | cons c rest =>
          cases heq
          exact absurd hd (ne_true_of_eq_false (hends _ rfl))
      have hzero' : ¬ (chr '0' :: ([] : Text) ++ rest).getD 0 0 ≠ chr '0' := not_not.2 rfl
      unfold radix
      rw [if_neg hzero', if_neg fun h => h.1.elim (hx _ (by decide)) (hx _ (by decide))]
    · rw [List.mem_singleton.1 hc']
      decide
  · have h := strtoul_digits (w := w) hc (if_pos hn) (show 10 ≤ 36 by decide) hdigits hends
    rw [hvalue] at h
    exact h

/-! ### Trees -/

theorem EndsName.op (op : Op) : EndsName (op.byte :: rest) := by
  intro c hc
  cases Option.some.inj hc
  cases op <;> decide

theorem EndsName.close : EndsName (chr ')' :: rest) := by
  intro c hc
  cases Option.some.inj hc
  decide

theorem Sentence.lift {text : Text} {m : ℕ} (h : Sentence host l text v rest) (hle : l ≤ m) : Sentence host m text v rest := by
  induction m, hle using Nat.le_induction with
  | base => exact h
  | succ m hle ih => exact ih.operand

theorem skipSpaces_op (op : Op) : skipSpaces (op.byte :: rest) = op.byte :: rest := by
  refine List.dropWhile_cons_of_neg ?_
  cases op <;> decide

namespace Expr

theorem skipSpaces_print (e : Expr) : skipSpaces (e.print ++ rest) = e.print ++ rest := by
  cases e with
  | number n =>
    obtain ⟨hdigits, -⟩ := decimal_value n
    obtain ⟨c, digits, heq, -⟩ := decimal_head n
    rw [print, heq]
    exact List.dropWhile_cons_of_neg (isSpace_of_digit (hdigits c (heq ▸ .head _)))
  | character | register | plus | minus | compl | apply => exact List.dropWhile_cons_of_neg (by decide)

theorem paren_sentence {c : UInt8} {e : Expr} {w : BitVec 64} (hc : isSpace c = false)
    (h : Sentence host 0 (c :: (e.print ++ chr ')' :: rest)) w (chr ')' :: rest)) :
    Sentence host 0 (chr '(' :: c :: (e.print ++ [chr ')']) ++ rest) w (skipSpaces rest) := by
  have hspace : skipSpaces (c :: (e.print ++ chr ')' :: rest)) = c :: (e.print ++ chr ')' :: rest) :=
    List.dropWhile_cons_of_neg (ne_true_of_eq_false hc)
  rw [List.cons_append, List.cons_append, List.append_assoc]
  refine .paren (.lift ?_ (Nat.zero_le _))
  rw [List.singleton_append, hspace]
  exact h

/-- The text of a tree is a term with its value. -/
theorem print_sentence (e : Expr) (h : e.value host = some v) (hends : EndsName rest) :
    Sentence host 0 (e.print ++ rest) v (skipSpaces rest) := by
  have hclose : ∀ rest : Text, skipSpaces (chr ')' :: rest) = chr ')' :: rest := fun rest =>
    List.dropWhile_cons_of_neg (by decide)
  induction e generalizing v rest with
  | number n =>
    cases h
    have hscan := strtoul_decimal (w := host.ulongBits) n hends
    obtain ⟨hdigits, -⟩ := decimal_value n
    obtain ⟨c, digits, heq, -⟩ := decimal_head n
    rw [print, heq]
    rw [heq] at hscan hdigits
    have hc := hdigits c (.head _)
    have hstart : c ∉ starters := by
      intro hmem
      have hnone : starters.all (fun c' => decide (10 ≤ digit c')) = true := rfl
      exact absurd hc (Nat.not_lt.2 (of_decide_eq_true (List.all_eq_true.1 hnone c hmem)))
    have hread := @Sentence.number host c (digits ++ rest) hstart
    rw [← List.cons_append, hscan] at hread
    refine hread fun heq => ?_
    have hlength : rest.length = digits.length + rest.length + 1 := by
      rw [← List.length_append]
      exact congrArg List.length heq
    omega
  | character c =>
    cases h
    exact .character c rest
  | register name =>
    obtain ⟨htake, hdrop⟩ := takeWhile_append_of_head
      (show ∀ c ∈ name.map Subtype.val, isName c = true from fun c hc => by
        obtain ⟨c', -, rfl⟩ := List.mem_map.1 hc
        exact c'.2) hends
    have hread := @Sentence.register host (name.map Subtype.val ++ rest) v (by rw [htake]; exact h)
    rw [hdrop] at hread
    exact hread
  | plus e ih =>
    refine paren_sentence (by decide) (.plus ?_)
    rw [skipSpaces_print, ← hclose rest]
    exact ih h .close
  | minus e ih =>
    obtain ⟨w, hw, rfl⟩ := Option.map_eq_some_iff.1 h
    refine paren_sentence (by decide) (.minus ?_)
    rw [skipSpaces_print, ← hclose rest]
    exact ih hw .close
  | compl e ih =>
    obtain ⟨w, hw, rfl⟩ := Option.map_eq_some_iff.1 h
    refine paren_sentence (by decide) (.compl ?_)
    rw [skipSpaces_print, ← hclose rest]
    exact ih hw .close
  | apply op left right ihl ihr =>
    obtain ⟨a, ha, h⟩ := Option.bind_eq_some_iff.1 h
    obtain ⟨b, hb, h⟩ := Option.bind_eq_some_iff.1 h
    have hshape : (apply op left right).print ++ rest =
        chr '(' :: (left.print ++ op.byte :: (right.print ++ chr ')' :: rest)) := by
      simp [print]
    have hleft := ihl ha (@EndsName.op (right.print ++ chr ')' :: rest) op)
    have hright := ihr hb (@EndsName.close rest)
    rw [skipSpaces_op] at hleft
    rw [hclose] at hright
    obtain ⟨l, hlevel⟩ := Nat.exists_eq_succ_of_ne_zero (show op.level ≠ 0 by cases op <;> decide)
    rw [hshape]
    have hle : l + 1 ≤ 3 := by
      rw [← Nat.succ_eq_add_one, ← hlevel]
      cases op <;> decide
    have hleft' := hleft.lift (Nat.zero_le (l + 1))
    have hright' := hright.lift (Nat.zero_le l)
    rw [← skipSpaces_print right] at hright'
    have hsum := (Sentence.apply op hlevel hleft' hright' h).lift hle
    rw [← skipSpaces_print left] at hsum
    exact .paren hsum

end Expr

end Ar7Qemu.Monitor
