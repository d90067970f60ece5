import Ar7Qemu.Lib.ByteStore

/-! Texts of C as the bytes before their end, and numbers that are read from them. -/

namespace Ar7Qemu.Lib.CString

/-- The byte of a character. -/
def chr (c : Char) : UInt8 := UInt8.ofNat c.toNat

/-- The bytes of a text. -/
def ascii (text : String) : List UInt8 := text.toList.map chr

/-- `%d` of a number that is not negative. -/
def decimal (n : ℕ) : List UInt8 := (Nat.toDigits 10 n).map chr

/-- `%x`. -/
def hexText (n : ℕ) : List UInt8 := (Nat.toDigits 16 n).map chr

/-- `%02x`. -/
def hexText2 (n : ℕ) : List UInt8 := if n < 16 then chr '0' :: hexText n else hexText n

def isSpace (c : UInt8) : Bool := c = 0x20 || (0x09 ≤ c && c ≤ 0x0d)

def hexDigit (c : UInt8) : Option ℕ :=
  if 0x30 ≤ c ∧ c ≤ 0x39 then some (c.toNat - 0x30)
  else if 0x41 ≤ c ∧ c ≤ 0x46 then some (c.toNat - 0x41 + 10)
  else if 0x61 ≤ c ∧ c ≤ 0x66 then some (c.toNat - 0x61 + 10)
  else none

def hexValue (digits : List UInt8) : ℕ := digits.foldl (fun v c => 16 * v + (hexDigit c).getD 0) 0

/-- `strtoull(p, &p, 16)`: white space, a sign, `0x` and digits, with the number of bytes behind which
`p` is left. A value that does not fit is `ULLONG_MAX`. Where there is no digit nothing is read, or the
zero of `0x`. -/
def strtoull (p : List UInt8) : ℕ × ℕ :=
  let blanks := (p.takeWhile isSpace).length
  let p := p.drop blanks
  let neg : Bool := p.head? = some 0x2d
  let sign := if neg || p.head? = some 0x2b then 1 else 0
  let p := p.drop sign
  let hexPrefix := if p.take 2 = ascii "0x" ∨ p.take 2 = ascii "0X" then 2 else 0
  let digits := (p.drop hexPrefix).takeWhile fun c => (hexDigit c).isSome
  if digits = [] then (0, if hexPrefix = 2 then blanks + sign + 1 else 0)
  else
    let v := hexValue digits
    (if 2 ^ 64 ≤ v then 2 ^ 64 - 1 else if neg then (2 ^ 64 - v) % 2 ^ 64 else v, blanks + sign + hexPrefix + digits.length)

/-- A number is read from the text. -/
theorem strtoull_snd_le (p : List UInt8) : (strtoull p).2 ≤ p.length := by
  have hblanks : (p.takeWhile isSpace).length ≤ p.length := (List.takeWhile_sublist _).length_le
  unfold strtoull
  extract_lets blanks q neg sign r hexPrefix digits v
  have hq : blanks + q.length = p.length := by
    rw [List.length_drop]
    exact Nat.add_sub_of_le hblanks
  have hsign : sign + r.length = q.length := by
    rw [List.length_drop]
    apply Nat.add_sub_of_le
    show (if _ then 1 else 0) ≤ q.length
    split_ifs with h
    · rcases hnil : q with _ | ⟨c, rest⟩
      · simp [hnil, neg] at h
      · simp
    · exact Nat.zero_le _
  have hprefix : hexPrefix ≤ r.length := by
    show (if _ then 2 else 0) ≤ r.length
    split_ifs with h
    · have hlen : (r.take 2).length = 2 := by
        rcases h with h | h <;> rw [h] <;> rfl
      rw [List.length_take] at hlen
      omega
    · exact Nat.zero_le _
  have hdigits : digits.length ≤ (r.drop hexPrefix).length := (List.takeWhile_sublist _).length_le
  rw [List.length_drop] at hdigits
  split_ifs <;> simp only <;> omega

end Ar7Qemu.Lib.CString
