import Ar7Qemu.Lib.CString
import Mathlib.Data.BitVec
import Mathlib.Data.Nat.Notation

/-! The expressions in the arguments of monitor commands (`monitor.c`). A reader in recursive descent moves
one cursor; sums bind weakest, then bitwise operations, then products. The grammar says which text is an
expression and what its value is in words of 64 bits. Where the host divides, the smallest number over
minus one traps. -/

namespace Ar7Qemu.Monitor

open Lib.CString

/-- The bytes from the cursor `pch` to the end of the string. -/
abbrev Text := List UInt8

def skipSpaces (text : Text) : Text := text.dropWhile isSpace

/-! ### Numbers and registers -/

/-- The value of a digit or a letter in a base up to 36. -/
def digit (c : UInt8) : ℕ :=
  if chr '0' ≤ c ∧ c ≤ chr '9' then c.toNat - 48
  else if chr 'A' ≤ c ∧ c ≤ chr 'Z' then c.toNat - 65 + 10
  else if chr 'a' ≤ c ∧ c ≤ chr 'z' then c.toNat - 97 + 10
  else 36

/-- The base that a number says itself, with the bytes before its digits. -/
def radix (p : Text) : ℕ × ℕ :=
  if p.getD 0 0 ≠ chr '0' then (10, 0)
  else if (p.getD 1 0 = chr 'x' ∨ p.getD 1 0 = chr 'X') ∧ digit (p.getD 2 0) < 16 then (16, 2)
  else (8, 0)

def digitsValue (base : ℕ) (digits : Text) : ℕ := digits.foldl (fun v c => base * v + digit c) 0

/-- `strtoul(p, &p, 0)` in words of `w` bits: white space, a sign, and digits in the base that they say. A
value that does not fit is the largest one, and where there is no digit nothing is read. -/
def strtoul (w : ℕ) (p : Text) : ℕ × Text :=
  let q := skipSpaces p
  let neg : Bool := q.head? = some (chr '-')
  let q := if neg || q.head? = some (chr '+') then q.tail else q
  let base := (radix q).1
  let q := q.drop (radix q).2
  let digits := q.takeWhile fun c => digit c < base
  if digits = [] then (0, p)
  else
    let v := digitsValue base digits
    (if 2 ^ w ≤ v then 2 ^ w - 1 else if neg then (2 ^ w - v) % 2 ^ w else v, q.dropWhile fun c => digit c < base)

def isName (c : UInt8) : Bool :=
  (chr 'a' ≤ c && c ≤ chr 'z') || (chr 'A' ≤ c && c ≤ chr 'Z') || (chr '0' ≤ c && c ≤ chr '9') || c = chr '_' || c = chr '.'

/-- `MonitorDef`, with the value that is read for it; there is none if that takes a CPU and none is defined. -/
structure MonitorDef where
  name : Text
  value : Option (BitVec 64)
  name_lt : ∀ alternative ∈ name.splitOn (chr '|'), alternative.length < 127

def compareCmd (name list : Text) : Bool := name ∈ list.splitOn (chr '|')

/-- What the reader knows of the host and of the target. -/
structure Host where
  /-- The bits that `strtoul` or `strtoull` scans. -/
  ulongBits : ℕ
  charSigned : Bool
  monitorDefs : List MonitorDef

namespace Host

variable (host : Host)

/-- `get_monitor_def`: the register is not found, or its value. -/
def getMonitorDef (name : Text) : Option (Option (BitVec 64)) :=
  (host.monitorDefs.find? fun md => compareCmd name md.name).map MonitorDef.value

def register (name : Text) : Option (BitVec 64) := (host.getMonitorDef name).join

/-- A `char` as an `int64_t`. -/
def charValue (c : UInt8) : BitVec 64 := if host.charSigned then c.toBitVec.signExtend 64 else c.toBitVec.setWidth 64

end Host

/-! ### Operators -/

inductive Op
  | mul | div | mod | and | or | xor | add | sub
  deriving DecidableEq

namespace Op

def byte : Op → UInt8
  | mul => chr '*'
  | div => chr '/'
  | mod => chr '%'
  | and => chr '&'
  | or => chr '|'
  | xor => chr '^'
  | add => chr '+'
  | sub => chr '-'

/-- 1 in a product, 2 in a bitwise operation, 3 in a sum. -/
def level : Op → ℕ
  | mul | div | mod => 1
  | and | or | xor => 2
  | add | sub => 3

/-- The value in two's complement, unless it divides by zero. -/
def value : Op → BitVec 64 → BitVec 64 → Option (BitVec 64)
  | mul, v, w => some (v * w)
  | div, v, w => if w = 0 then none else some (v.sdiv w)
  | mod, v, w => if w = 0 then none else some (v.srem w)
  | and, v, w => some (v &&& w)
  | or, v, w => some (v ||| w)
  | xor, v, w => some (v ^^^ w)
  | add, v, w => some (v + w)
  | sub, v, w => some (v - w)

/-- A division whose quotient does not fit the word. -/
def Overflows (op : Op) (v w : BitVec 64) : Prop := (op = div ∨ op = mod) ∧ v = BitVec.intMin 64 ∧ w = -1

instance (op : Op) (v w : BitVec 64) : Decidable (op.Overflows v w) := inferInstanceAs (Decidable (_ ∧ _))

end Op

/-! ### The reader -/

/-- What a part of the reader comes to: a value with the cursor behind it, or a message with the cursor at
the error. The host divides with a trap, or the cursor goes past the end of the string. -/
inductive Result
  | ok (val : BitVec 64) (pch : Text)
  | error (msg : String) (pch : Text)
  | trap
  | overrun
  | timeout
  deriving DecidableEq

def Result.bind (r : Result) (k : BitVec 64 → Text → Result) : Result :=
  match r with
  | ok val pch => k val pch
  | error msg pch => error msg pch
  | trap => trap
  | overrun => overrun
  | timeout => timeout

/-- `next`. Its test is of the cursor itself, which is never null. -/
def next (pch : Text) (k : Text → Result) : Result :=
  match pch with
  | [] => .overrun
  | _ :: pch => k (skipSpaces pch)

/-- The operation of a loop of the reader. The host traps when a quotient does not fit. -/
def Op.exec (op : Op) (val val2 : BitVec 64) (pch : Text) : Result :=
  match op with
  | mul => .ok (val * val2) pch
  | div =>
    if val2 = 0 then .error "division by zero" pch
    else if val = BitVec.intMin 64 ∧ val2 = -1 then .trap
    else .ok (val.sdiv val2) pch
  | mod =>
    if val2 = 0 then .error "division by zero" pch
    else if val = BitVec.intMin 64 ∧ val2 = -1 then .trap
    else .ok (val.srem val2) pch
  | and => .ok (val &&& val2) pch
  | or => .ok (val ||| val2) pch
  | xor => .ok (val ^^^ val2) pch
  | add => .ok (val + val2) pch
  | sub => .ok (val - val2) pch

/-- The loop over operators of one kind, each with an operand behind it. -/
def exprLoop (operand : Text → Result) (opOf : UInt8 → Option Op) : ℕ → BitVec 64 → Text → Result
  | 0, _, _ => .timeout
  | fuel + 1, val, pch =>
    match opOf (pch.headD 0) with
    | none => .ok val pch
    | some op => next pch fun pch =>
      (operand pch).bind fun val2 pch => (op.exec val val2 pch).bind (exprLoop operand opOf fuel)

def exprChain (operand : Text → Result) (opOf : UInt8 → Option Op) (fuel : ℕ) (pch : Text) : Result :=
  (operand pch).bind (exprLoop operand opOf fuel)

def prodOp (c : UInt8) : Option Op :=
  if c = chr '*' then some .mul else if c = chr '/' then some .div else if c = chr '%' then some .mod else none

def logicOp (c : UInt8) : Option Op :=
  if c = chr '&' then some .and else if c = chr '|' then some .or else if c = chr '^' then some .xor else none

def sumOp (c : UInt8) : Option Op :=
  if c = chr '+' then some .add else if c = chr '-' then some .sub else none

def exprProd (exprUnary : Text → Result) (fuel : ℕ) : Text → Result := exprChain exprUnary prodOp fuel

def exprLogic (exprUnary : Text → Result) (fuel : ℕ) : Text → Result := exprChain (exprProd exprUnary fuel) logicOp fuel

def exprSum (exprUnary : Text → Result) (fuel : ℕ) : Text → Result := exprChain (exprLogic exprUnary fuel) sumOp fuel

namespace Host

variable (host : Host)

def exprChar : Text → Result
  | [] => .error "character constant expected" []
  | c :: pch =>
    if pch.head? ≠ some (chr '\'') then .error "missing terminating ' character" pch
    else next pch (.ok (host.charValue c))

/-- A register behind the dollar sign. The buffer for its name holds 127 bytes. -/
def exprRegister (pch : Text) : Result :=
  let buf := (pch.takeWhile isName).take 127
  let pch := skipSpaces (pch.dropWhile isName)
  match host.getMonitorDef buf with
  | none => .error "unknown register" pch
  | some none => .error "no cpu defined" pch
  | some (some reg) => .ok reg pch

def exprNumber (pch : Text) : Result :=
  if (strtoul host.ulongBits pch).2 = pch then .error "invalid char in expression" pch
  else .ok (BitVec.ofNat 64 (strtoul host.ulongBits pch).1) (skipSpaces (strtoul host.ulongBits pch).2)

def exprUnary : ℕ → Text → Result
  | 0, _ => .timeout
  | fuel + 1, pch =>
    match pch with
    | [] => .error "unexpected end of expression" []
    | c :: rest =>
      if c = chr '+' then next pch (exprUnary fuel)
      else if c = chr '-' then next pch fun pch => (exprUnary fuel pch).bind fun n pch => .ok (-n) pch
      else if c = chr '~' then next pch fun pch => (exprUnary fuel pch).bind fun n pch => .ok (~~~n) pch
      else if c = chr '(' then next pch fun pch =>
        (exprSum (exprUnary fuel) fuel pch).bind fun n pch =>
          if pch.head? ≠ some (chr ')') then .error "')' expected" pch else next pch (.ok n)
      else if c = chr '\'' then host.exprChar rest
      else if c = chr '$' then host.exprRegister rest
      else host.exprNumber pch

def getExpr (pp : Text) : Result :=
  let pch := skipSpaces pp
  exprSum (host.exprUnary (pch.length + 1)) (pch.length + 1) pch

end Host

/-! ### The grammar -/

/-- The bytes with which a term that is not a number starts. -/
def starters : List UInt8 := [chr '+', chr '-', chr '~', chr '(', chr '\'', chr '$']

/-- A text is a sentence with a value, followed by a rest: a term (level 0), a product (1), a bitwise
operation (2) or a sum (3). Spaces are skipped behind every token. -/
inductive Sentence (host : Host) : ℕ → Text → BitVec 64 → Text → Prop
  | plus {text v rest} : Sentence host 0 (skipSpaces text) v rest → Sentence host 0 (chr '+' :: text) v rest
  | minus {text v rest} : Sentence host 0 (skipSpaces text) v rest → Sentence host 0 (chr '-' :: text) (-v) rest
  | compl {text v rest} : Sentence host 0 (skipSpaces text) v rest → Sentence host 0 (chr '~' :: text) (~~~v) rest
  | paren {text v rest} : Sentence host 3 (skipSpaces text) v (chr ')' :: rest) →
      Sentence host 0 (chr '(' :: text) v (skipSpaces rest)
  | character (c rest) : Sentence host 0 (chr '\'' :: c :: chr '\'' :: rest) (host.charValue c) (skipSpaces rest)
  | register {text v} : host.register (text.takeWhile isName) = some v →
      Sentence host 0 (chr '$' :: text) v (skipSpaces (text.dropWhile isName))
  | number {c text} : c ∉ starters → (strtoul host.ulongBits (c :: text)).2 ≠ c :: text →
      Sentence host 0 (c :: text) (BitVec.ofNat 64 (strtoul host.ulongBits (c :: text)).1)
        (skipSpaces (strtoul host.ulongBits (c :: text)).2)
  | operand {l text v rest} : Sentence host l text v rest → Sentence host (l + 1) text v rest
  | apply {l text v text' w x rest} (op : Op) : op.level = l + 1 → Sentence host (l + 1) text v (op.byte :: text') →
      Sentence host l (skipSpaces text') w rest → op.value v w = some x → Sentence host (l + 1) text x rest

/-- A rest does not go on with an operator of a level. -/
def Stops (l : ℕ) (rest : Text) : Prop := ∀ op : Op, op.level ≤ l → rest.head? ≠ some op.byte

/-- The evaluation of a text from left to right comes to a division whose quotient does not fit. -/
inductive Traps (host : Host) : ℕ → Text → Prop
  | unary {c text} : c = chr '+' ∨ c = chr '-' ∨ c = chr '~' → Traps host 0 (skipSpaces text) → Traps host 0 (c :: text)
  | paren {text} : Traps host 3 (skipSpaces text) → Traps host 0 (chr '(' :: text)
  | operand {l text} : Traps host l text → Traps host (l + 1) text
  | right {l text v text'} (op : Op) : op.level = l + 1 → Sentence host (l + 1) text v (op.byte :: text') →
      Traps host l (skipSpaces text') → Traps host (l + 1) text
  | divide {l text v text' w rest} (op : Op) : op.level = l + 1 → Sentence host (l + 1) text v (op.byte :: text') →
      Sentence host l (skipSpaces text') w rest → op.Overflows v w → Traps host (l + 1) text

/-! ### Expressions as trees -/

/-- A tree of an expression. -/
inductive Expr
  | number (n : ℕ)
  | character (c : UInt8)
  | register (name : List {c : UInt8 // isName c})
  | plus (e : Expr)
  | minus (e : Expr)
  | compl (e : Expr)
  | apply (op : Op) (left right : Expr)

namespace Expr

/-- The text of a tree with parentheses around every operation. -/
def print : Expr → Text
  | number n => decimal n
  | character c => [chr '\'', c, chr '\'']
  | register name => chr '$' :: name.map Subtype.val
  | plus e => chr '(' :: chr '+' :: (e.print ++ [chr ')'])
  | minus e => chr '(' :: chr '-' :: (e.print ++ [chr ')'])
  | compl e => chr '(' :: chr '~' :: (e.print ++ [chr ')'])
  | apply op left right => chr '(' :: (left.print ++ op.byte :: (right.print ++ [chr ')']))

/-- The value of a tree. A number that the scan cannot hold is the largest one. -/
def value (host : Host) : Expr → Option (BitVec 64)
  | number n => some (BitVec.ofNat 64 (min n (2 ^ host.ulongBits - 1)))
  | character c => some (host.charValue c)
  | register name => host.register (name.map Subtype.val)
  | plus e => e.value host
  | minus e => (e.value host).map (- ·)
  | compl e => (e.value host).map (~~~ ·)
  | apply op left right => do op.value (← left.value host) (← right.value host)

end Expr

/-- What is expected of the evaluation of a text. -/
structure Evaluates (host : Host) (text : Text) : Prop where
  terminates : host.getExpr text ≠ .timeout
  no_overrun : host.getExpr text ≠ .overrun
  no_trap : host.getExpr text ≠ .trap
  ok_iff : ∀ v rest, host.getExpr text = .ok v rest ↔ Sentence host 3 (skipSpaces text) v rest ∧ Stops 3 rest
  tree : ∀ (e : Expr) (v : BitVec 64), text = e.print → e.value host = some v → host.getExpr text = .ok v []

end Ar7Qemu.Monitor
