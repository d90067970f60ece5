import Ar7Qemu.Lib.WordBytes

/-! The 64-bit operations of `tcg-op.h` on a 32-bit host: each is a short list of 32-bit operations
on the two halves of its variables. A 64-bit variable is a pair of temporaries of its own; a
generator is given the number of scratch temporaries in use and takes new ones from there on. -/

namespace Ar7Qemu.Tcg.Expand

open Lib.WordBytes

/-- What the generators ask of the host: byte order and the optional operations. On a value with
other than zeroes above its two low bytes `bswap16_i32` gives what the host makes of it. -/
structure Host where
  wordsBigendian : Bool
  hasExt8s : Bool
  hasExt16s : Bool
  hasBswap16 : Bool
  hasBswap32 : Bool
  bswap16Wide : BitVec 32 → BitVec 32

/-- The temporaries: 32-bit variables, the halves of 64-bit variables, and scratch. -/
inductive Temp where
  | i32 (n : ℕ)
  | low (n : ℕ)
  | high (n : ℕ)
  | scratch (n : ℕ)
  deriving DecidableEq

inductive BinOp where
  | and | or | xor | shl | shr | sar | add | sub | mul | rotl | rotr
  deriving DecidableEq

/-- The functions of `tcg-runtime.c` that shift 64-bit values. -/
inductive Helper64 where
  | shl | shr | sar

/-- A 32-bit operation of the op stream. -/
inductive Op where
  | mov (ret arg : Temp)
  | movi (ret : Temp) (arg : BitVec 32)
  | ld8u (ret ptr : Temp) (offset : BitVec 32)
  | ld8s (ret ptr : Temp) (offset : BitVec 32)
  | ld16u (ret ptr : Temp) (offset : BitVec 32)
  | ld16s (ret ptr : Temp) (offset : BitVec 32)
  | ld (ret ptr : Temp) (offset : BitVec 32)
  | st8 (arg ptr : Temp) (offset : BitVec 32)
  | st16 (arg ptr : Temp) (offset : BitVec 32)
  | st (arg ptr : Temp) (offset : BitVec 32)
  | bin (f : BinOp) (ret arg1 arg2 : Temp)
  | ext8s (ret arg : Temp)
  | ext16s (ret arg : Temp)
  | bswap16 (ret arg : Temp)
  | bswap32 (ret arg : Temp)
  | neg (ret arg : Temp)
  | not (ret arg : Temp)
  | mulu2 (retLow retHigh arg1 arg2 : Temp)
  | sub2 (retLow retHigh arg1Low arg1High arg2Low arg2High : Temp)
  | call64 (func : Helper64) (retLow retHigh arg1Low arg1High arg2Low arg2High : Temp)

/-! ### What the operations do -/

structure State where
  vals : Temp → BitVec 32
  mem : Memory 32

def State.set (σ : State) (t : Temp) (v : BitVec 32) : State := { σ with vals := Function.update σ.vals t v }

def State.setPair (σ : State) (low high : Temp) (v : BitVec 64) : State :=
  (σ.set low (v.setWidth 32)).set high (v.extractLsb' 32 32)

/-- A shift or a rotation by 32 or more is not used. -/
def BinOp.eval : BinOp → BitVec 32 → BitVec 32 → BitVec 32
  | .and, a, b => a &&& b
  | .or, a, b => a ||| b
  | .xor, a, b => a ^^^ b
  | .shl, a, b => a <<< b.toNat
  | .shr, a, b => a >>> b.toNat
  | .sar, a, b => a.sshiftRight b.toNat
  | .add, a, b => a + b
  | .sub, a, b => a - b
  | .mul, a, b => a * b
  | .rotl, a, b => a.rotateLeft b.toNat
  | .rotr, a, b => a.rotateRight b.toNat

/-- `tcg_helper_shl_i64`, `tcg_helper_shr_i64` and `tcg_helper_sar_i64`. -/
def Helper64.eval : Helper64 → BitVec 64 → BitVec 64 → BitVec 64
  | .shl, a, b => a <<< b.toNat
  | .shr, a, b => a >>> b.toNat
  | .sar, a, b => a.sshiftRight b.toNat

/-- The swap of the two low bytes of a value that has no others. -/
def swap16 (h : Host) (v : BitVec 32) : BitVec 32 :=
  if v.extractLsb' 16 16 = 0#16 then (bswap 2 (v.setWidth 16)).setWidth 32 else h.bswap16Wide v

def Op.exec (h : Host) (σ : State) : Op → State
  | .mov ret arg => σ.set ret (σ.vals arg)
  | .movi ret arg => σ.set ret arg
  | .ld8u ret ptr offset => σ.set ret ((σ.mem.load h.wordsBigendian 1 (σ.vals ptr + offset)).setWidth 32)
  | .ld8s ret ptr offset => σ.set ret ((σ.mem.load h.wordsBigendian 1 (σ.vals ptr + offset)).signExtend 32)
  | .ld16u ret ptr offset => σ.set ret ((σ.mem.load h.wordsBigendian 2 (σ.vals ptr + offset)).setWidth 32)
  | .ld16s ret ptr offset => σ.set ret ((σ.mem.load h.wordsBigendian 2 (σ.vals ptr + offset)).signExtend 32)
  | .ld ret ptr offset => σ.set ret (σ.mem.load h.wordsBigendian 4 (σ.vals ptr + offset))
  | .st8 arg ptr offset =>
    { σ with mem := σ.mem.store h.wordsBigendian 1 (σ.vals ptr + offset) ((σ.vals arg).setWidth 8) }
  | .st16 arg ptr offset =>
    { σ with mem := σ.mem.store h.wordsBigendian 2 (σ.vals ptr + offset) ((σ.vals arg).setWidth 16) }
  | .st arg ptr offset => { σ with mem := σ.mem.store h.wordsBigendian 4 (σ.vals ptr + offset) (σ.vals arg) }
  | .bin f ret arg1 arg2 => σ.set ret (f.eval (σ.vals arg1) (σ.vals arg2))
  | .ext8s ret arg => σ.set ret (((σ.vals arg).setWidth 8).signExtend 32)
  | .ext16s ret arg => σ.set ret (((σ.vals arg).setWidth 16).signExtend 32)
  | .bswap16 ret arg => σ.set ret (swap16 h (σ.vals arg))
  | .bswap32 ret arg => σ.set ret (bswap 4 (σ.vals arg))
  | .neg ret arg => σ.set ret (-σ.vals arg)
  | .not ret arg => σ.set ret (~~~σ.vals arg)
  | .mulu2 retLow retHigh arg1 arg2 =>
    σ.setPair retLow retHigh ((σ.vals arg1).setWidth 64 * (σ.vals arg2).setWidth 64)
  | .sub2 retLow retHigh arg1Low arg1High arg2Low arg2High =>
    σ.setPair retLow retHigh ((σ.vals arg1High ++ σ.vals arg1Low) - (σ.vals arg2High ++ σ.vals arg2Low))
  | .call64 func retLow retHigh arg1Low arg1High arg2Low arg2High =>
    σ.setPair retLow retHigh (func.eval (σ.vals arg1High ++ σ.vals arg1Low) (σ.vals arg2High ++ σ.vals arg2Low))

def run (h : Host) (p : List Op) (σ : State) : State := p.foldl (Op.exec h) σ

/-! ### The generators of 32-bit operations -/

section Gen32

variable (k : ℕ)

def tcgGenMovI32 (ret arg : Temp) : List Op := if ret ≠ arg then [.mov ret arg] else []

def tcgGenMoviI32 (ret : Temp) (arg : BitVec 32) : List Op := [.movi ret arg]

/-- `tcg_gen_and_i32` and `tcg_gen_or_i32`. -/
def tcgGenIdemI32 (f : BinOp) (ret arg1 arg2 : Temp) : List Op :=
  if arg1 = arg2 then tcgGenMovI32 ret arg1 else [.bin f ret arg1 arg2]

def tcgGenAndI32 : Temp → Temp → Temp → List Op := tcgGenIdemI32 .and

def tcgGenOrI32 : Temp → Temp → Temp → List Op := tcgGenIdemI32 .or

def tcgGenXorI32 (ret arg1 arg2 : Temp) : List Op :=
  if arg1 = arg2 then tcgGenMoviI32 ret 0#32 else [.bin .xor ret arg1 arg2]

/-- `tcg_const_i32`, in the next scratch temporary. -/
def tcgConstI32 (arg : BitVec 32) : List Op := tcgGenMoviI32 (.scratch k) arg

def tcgGenAndiI32 (ret arg1 : Temp) (arg2 : BitVec 32) : List Op :=
  if arg2 = 0#32 then tcgGenMoviI32 ret 0#32
  else if arg2 = 0xffffffff#32 then tcgGenMovI32 ret arg1
  else tcgConstI32 k arg2 ++ tcgGenAndI32 ret arg1 (.scratch k)

def tcgGenOriI32 (ret arg1 : Temp) (arg2 : BitVec 32) : List Op :=
  if arg2 = 0xffffffff#32 then tcgGenMoviI32 ret 0xffffffff#32
  else if arg2 = 0#32 then tcgGenMovI32 ret arg1
  else tcgConstI32 k arg2 ++ tcgGenOrI32 ret arg1 (.scratch k)

def tcgGenXoriI32 (ret arg1 : Temp) (arg2 : BitVec 32) : List Op :=
  if arg2 = 0#32 then tcgGenMovI32 ret arg1
  else tcgConstI32 k arg2 ++ tcgGenXorI32 ret arg1 (.scratch k)

/-- `tcg_gen_shli_i32`, `tcg_gen_shri_i32` and `tcg_gen_sari_i32`. -/
def tcgGenShiftiI32 (f : BinOp) (ret arg1 : Temp) (arg2 : BitVec 32) : List Op :=
  if arg2 = 0#32 then tcgGenMovI32 ret arg1
  else tcgConstI32 k arg2 ++ [.bin f ret arg1 (.scratch k)]

def tcgGenShliI32 : Temp → Temp → BitVec 32 → List Op := tcgGenShiftiI32 k .shl

def tcgGenShriI32 : Temp → Temp → BitVec 32 → List Op := tcgGenShiftiI32 k .shr

def tcgGenSariI32 : Temp → Temp → BitVec 32 → List Op := tcgGenShiftiI32 k .sar

def tcgGenExt8sI32 (h : Host) (ret arg : Temp) : List Op :=
  if h.hasExt8s then [.ext8s ret arg] else tcgGenShliI32 k ret arg 24#32 ++ tcgGenSariI32 k ret ret 24#32

def tcgGenExt16sI32 (h : Host) (ret arg : Temp) : List Op :=
  if h.hasExt16s then [.ext16s ret arg] else tcgGenShliI32 k ret arg 16#32 ++ tcgGenSariI32 k ret ret 16#32

def tcgGenExt8uI32 (ret arg : Temp) : List Op := tcgGenAndiI32 k ret arg 0xff#32

def tcgGenExt16uI32 (ret arg : Temp) : List Op := tcgGenAndiI32 k ret arg 0xffff#32

def tcgGenBswap16I32 (h : Host) (ret arg : Temp) : List Op :=
  if h.hasBswap16 then [.bswap16 ret arg]
  else
    let t0 := Temp.scratch k
    tcgGenExt8uI32 (k + 1) t0 arg ++ tcgGenShliI32 (k + 1) t0 t0 8#32 ++ tcgGenShriI32 (k + 1) ret arg 8#32 ++
      tcgGenOrI32 ret ret t0

def tcgGenBswap32I32 (h : Host) (ret arg : Temp) : List Op :=
  if h.hasBswap32 then [.bswap32 ret arg]
  else
    let t0 := Temp.scratch k
    let t1 := Temp.scratch (k + 1)
    tcgGenShliI32 (k + 2) t0 arg 24#32 ++
      tcgGenAndiI32 (k + 2) t1 arg 0x0000ff00#32 ++ tcgGenShliI32 (k + 2) t1 t1 8#32 ++ tcgGenOrI32 t0 t0 t1 ++
      tcgGenShriI32 (k + 2) t1 arg 8#32 ++ tcgGenAndiI32 (k + 2) t1 t1 0x0000ff00#32 ++ tcgGenOrI32 t0 t0 t1 ++
      tcgGenShriI32 (k + 2) t1 arg 24#32 ++ tcgGenOrI32 ret t0 t1

end Gen32

/-! ### The 64-bit operations -/

/-- The 64-bit operations that are expanded into operations on halves. Variables of 64 and of 32
bits are numbers; a pointer is a 32-bit variable. -/
inductive Op64 where
  | mov (ret arg : ℕ)
  | movi (ret : ℕ) (arg : BitVec 64)
  | ld8u (ret ptr : ℕ) (offset : BitVec 32)
  | ld8s (ret ptr : ℕ) (offset : BitVec 32)
  | ld16u (ret ptr : ℕ) (offset : BitVec 32)
  | ld16s (ret ptr : ℕ) (offset : BitVec 32)
  | ld32u (ret ptr : ℕ) (offset : BitVec 32)
  | ld32s (ret ptr : ℕ) (offset : BitVec 32)
  | ld (ret ptr : ℕ) (offset : BitVec 32)
  | st8 (arg ptr : ℕ) (offset : BitVec 32)
  | st16 (arg ptr : ℕ) (offset : BitVec 32)
  | st32 (arg ptr : ℕ) (offset : BitVec 32)
  | st (arg ptr : ℕ) (offset : BitVec 32)
  | and (ret arg1 arg2 : ℕ)
  | andi (ret arg1 : ℕ) (arg2 : BitVec 64)
  | or (ret arg1 arg2 : ℕ)
  | ori (ret arg1 : ℕ) (arg2 : BitVec 64)
  | xor (ret arg1 arg2 : ℕ)
  | xori (ret arg1 : ℕ) (arg2 : BitVec 64)
  | ext8s (ret arg : ℕ)
  | ext16s (ret arg : ℕ)
  | ext32s (ret arg : ℕ)
  | ext8u (ret arg : ℕ)
  | ext16u (ret arg : ℕ)
  | ext32u (ret arg : ℕ)
  | truncI32 (ret arg : ℕ)
  | extuI32 (ret arg : ℕ)
  | extI32 (ret arg : ℕ)
  | bswap16 (ret arg : ℕ)
  | bswap32 (ret arg : ℕ)
  | bswap64 (ret arg : ℕ)
  | concatI32 (dest low high : ℕ)
  | concat32 (dest low high : ℕ)

/-- The half of an immediate that `tcg_gen_movi_i64` and the others take for the low half. -/
def lo (v : BitVec 64) : BitVec 32 := v.setWidth 32

/-- `arg >> 32`. -/
def hi (v : BitVec 64) : BitVec 32 := v.extractLsb' 32 32

/-- `tcg_gen_concat_i32_i64`, on any temporaries. -/
def tcgGenConcatI32I64 (dest : ℕ) (low high : Temp) : List Op :=
  tcgGenMovI32 (.low dest) low ++ tcgGenMovI32 (.high dest) high

/-- The expansion of each operation, with `k` scratch temporaries in use. -/
def Op64.gen (h : Host) (k : ℕ) : Op64 → List Op
  | .mov ret arg =>
    if ret ≠ arg then tcgGenMovI32 (.low ret) (.low arg) ++ tcgGenMovI32 (.high ret) (.high arg) else []
  | .movi ret arg => tcgGenMoviI32 (.low ret) (lo arg) ++ tcgGenMoviI32 (.high ret) (hi arg)
  | .ld8u ret ptr offset => [.ld8u (.low ret) (.i32 ptr) offset] ++ tcgGenMoviI32 (.high ret) 0#32
  | .ld8s ret ptr offset => [.ld8s (.low ret) (.i32 ptr) offset] ++ tcgGenSariI32 k (.high ret) (.high ret) 31#32
  | .ld16u ret ptr offset => [.ld16u (.low ret) (.i32 ptr) offset] ++ tcgGenMoviI32 (.high ret) 0#32
  | .ld16s ret ptr offset => [.ld16s (.low ret) (.i32 ptr) offset] ++ tcgGenSariI32 k (.high ret) (.low ret) 31#32
  | .ld32u ret ptr offset => [.ld (.low ret) (.i32 ptr) offset] ++ tcgGenMoviI32 (.high ret) 0#32
  | .ld32s ret ptr offset => [.ld (.low ret) (.i32 ptr) offset] ++ tcgGenSariI32 k (.high ret) (.low ret) 31#32
  | .ld ret ptr offset =>
    if h.wordsBigendian then [.ld (.high ret) (.i32 ptr) offset, .ld (.low ret) (.i32 ptr) (offset + 4#32)]
    else [.ld (.low ret) (.i32 ptr) offset, .ld (.high ret) (.i32 ptr) (offset + 4#32)]
  | .st8 arg ptr offset => [.st8 (.low arg) (.i32 ptr) offset]
  | .st16 arg ptr offset => [.st16 (.low arg) (.i32 ptr) offset]
  | .st32 arg ptr offset => [.st (.low arg) (.i32 ptr) offset]
  | .st arg ptr offset =>
    if h.wordsBigendian then [.st (.high arg) (.i32 ptr) offset, .st (.low arg) (.i32 ptr) (offset + 4#32)]
    else [.st (.low arg) (.i32 ptr) offset, .st (.high arg) (.i32 ptr) (offset + 4#32)]
  | .and ret arg1 arg2 =>
    tcgGenAndI32 (.low ret) (.low arg1) (.low arg2) ++ tcgGenAndI32 (.high ret) (.high arg1) (.high arg2)
  | .andi ret arg1 arg2 =>
    tcgGenAndiI32 k (.low ret) (.low arg1) (lo arg2) ++ tcgGenAndiI32 k (.high ret) (.high arg1) (hi arg2)
  | .or ret arg1 arg2 =>
    tcgGenOrI32 (.low ret) (.low arg1) (.low arg2) ++ tcgGenOrI32 (.high ret) (.high arg1) (.high arg2)
  | .ori ret arg1 arg2 =>
    tcgGenOriI32 k (.low ret) (.low arg1) (lo arg2) ++ tcgGenOriI32 k (.high ret) (.high arg1) (hi arg2)
  | .xor ret arg1 arg2 =>
    tcgGenXorI32 (.low ret) (.low arg1) (.low arg2) ++ tcgGenXorI32 (.high ret) (.high arg1) (.high arg2)
  | .xori ret arg1 arg2 =>
    tcgGenXoriI32 k (.low ret) (.low arg1) (lo arg2) ++ tcgGenXoriI32 k (.high ret) (.high arg1) (hi arg2)
  | .ext8s ret arg =>
    tcgGenExt8sI32 k h (.low ret) (.low arg) ++ tcgGenSariI32 k (.high ret) (.low ret) 31#32
  | .ext16s ret arg =>
    tcgGenExt16sI32 k h (.low ret) (.low arg) ++ tcgGenSariI32 k (.high ret) (.low ret) 31#32
  | .ext32s ret arg => tcgGenMovI32 (.low ret) (.low arg) ++ tcgGenSariI32 k (.high ret) (.low ret) 31#32
  | .ext8u ret arg => tcgGenExt8uI32 k (.low ret) (.low arg) ++ tcgGenMoviI32 (.high ret) 0#32
  | .ext16u ret arg => tcgGenExt16uI32 k (.low ret) (.low arg) ++ tcgGenMoviI32 (.high ret) 0#32
  | .ext32u ret arg => tcgGenMovI32 (.low ret) (.low arg) ++ tcgGenMoviI32 (.high ret) 0#32
  | .truncI32 ret arg => tcgGenMovI32 (.i32 ret) (.low arg)
  | .extuI32 ret arg => tcgGenMovI32 (.low ret) (.i32 arg) ++ tcgGenMoviI32 (.high ret) 0#32
  | .extI32 ret arg => tcgGenMovI32 (.low ret) (.i32 arg) ++ tcgGenSariI32 k (.high ret) (.low ret) 31#32
  | .bswap16 ret arg => tcgGenMovI32 (.high ret) (.high arg) ++ tcgGenBswap16I32 k h (.low ret) (.low arg)
  | .bswap32 ret arg => tcgGenMovI32 (.high ret) (.high arg) ++ tcgGenBswap32I32 k h (.low ret) (.low arg)
  | .bswap64 ret arg =>
    let t0 := Temp.scratch k
    let t1 := Temp.scratch (k + 1)
    tcgGenBswap32I32 (k + 2) h t0 (.low arg) ++ tcgGenBswap32I32 (k + 2) h t1 (.high arg) ++
      tcgGenMovI32 (.low ret) t1 ++ tcgGenMovI32 (.high ret) t0
  | .concatI32 dest low high => tcgGenConcatI32I64 dest (.i32 low) (.i32 high)
  | .concat32 dest low high => tcgGenConcatI32I64 dest (.low low) (.low high)

/-! ### What the 64-bit operations do -/

/-- The value of a 64-bit variable. -/
def State.wide (σ : State) (x : ℕ) : BitVec 64 := σ.vals (.high x) ++ σ.vals (.low x)

/-- What is set by an operation. -/
inductive Effect where
  | wide (ret : ℕ) (v : BitVec 64)
  | word (ret : ℕ) (v : BitVec 32)
  | mem (m : Memory 32)

/-- The 64-bit operation. -/
def Op64.effect (h : Host) (σ : State) : Op64 → Effect
  | .mov ret arg => .wide ret (σ.wide arg)
  | .movi ret arg => .wide ret arg
  | .ld8u ret ptr offset => .wide ret ((σ.mem.load h.wordsBigendian 1 (σ.vals (.i32 ptr) + offset)).setWidth 64)
  | .ld8s ret ptr offset => .wide ret ((σ.mem.load h.wordsBigendian 1 (σ.vals (.i32 ptr) + offset)).signExtend 64)
  | .ld16u ret ptr offset => .wide ret ((σ.mem.load h.wordsBigendian 2 (σ.vals (.i32 ptr) + offset)).setWidth 64)
  | .ld16s ret ptr offset => .wide ret ((σ.mem.load h.wordsBigendian 2 (σ.vals (.i32 ptr) + offset)).signExtend 64)
  | .ld32u ret ptr offset => .wide ret ((σ.mem.load h.wordsBigendian 4 (σ.vals (.i32 ptr) + offset)).setWidth 64)
  | .ld32s ret ptr offset => .wide ret ((σ.mem.load h.wordsBigendian 4 (σ.vals (.i32 ptr) + offset)).signExtend 64)
  | .ld ret ptr offset => .wide ret (σ.mem.load h.wordsBigendian 8 (σ.vals (.i32 ptr) + offset))
  | .st8 arg ptr offset =>
    .mem (σ.mem.store h.wordsBigendian 1 (σ.vals (.i32 ptr) + offset) ((σ.wide arg).setWidth 8))
  | .st16 arg ptr offset =>
    .mem (σ.mem.store h.wordsBigendian 2 (σ.vals (.i32 ptr) + offset) ((σ.wide arg).setWidth 16))
  | .st32 arg ptr offset =>
    .mem (σ.mem.store h.wordsBigendian 4 (σ.vals (.i32 ptr) + offset) ((σ.wide arg).setWidth 32))
  | .st arg ptr offset => .mem (σ.mem.store h.wordsBigendian 8 (σ.vals (.i32 ptr) + offset) (σ.wide arg))
  | .and ret arg1 arg2 => .wide ret (σ.wide arg1 &&& σ.wide arg2)
  | .andi ret arg1 arg2 => .wide ret (σ.wide arg1 &&& arg2)
  | .or ret arg1 arg2 => .wide ret (σ.wide arg1 ||| σ.wide arg2)
  | .ori ret arg1 arg2 => .wide ret (σ.wide arg1 ||| arg2)
  | .xor ret arg1 arg2 => .wide ret (σ.wide arg1 ^^^ σ.wide arg2)
  | .xori ret arg1 arg2 => .wide ret (σ.wide arg1 ^^^ arg2)
  | .ext8s ret arg => .wide ret (((σ.wide arg).setWidth 8).signExtend 64)
  | .ext16s ret arg => .wide ret (((σ.wide arg).setWidth 16).signExtend 64)
  | .ext32s ret arg => .wide ret (((σ.wide arg).setWidth 32).signExtend 64)
  | .ext8u ret arg => .wide ret (((σ.wide arg).setWidth 8).setWidth 64)
  | .ext16u ret arg => .wide ret (((σ.wide arg).setWidth 16).setWidth 64)
  | .ext32u ret arg => .wide ret (((σ.wide arg).setWidth 32).setWidth 64)
  | .truncI32 ret arg => .word ret ((σ.wide arg).setWidth 32)
  | .extuI32 ret arg => .wide ret ((σ.vals (.i32 arg)).setWidth 64)
  | .extI32 ret arg => .wide ret ((σ.vals (.i32 arg)).signExtend 64)
  | .bswap16 ret arg => .wide ret ((bswap 2 ((σ.wide arg).setWidth 16)).setWidth 64)
  | .bswap32 ret arg => .wide ret ((bswap 4 ((σ.wide arg).setWidth 32)).setWidth 64)
  | .bswap64 ret arg => .wide ret (bswap 8 (σ.wide arg))
  | .concatI32 dest low high => .wide dest (σ.vals (.i32 high) ++ σ.vals (.i32 low))
  | .concat32 dest low high => .wide dest ((σ.wide high).setWidth 32 ++ (σ.wide low).setWidth 32)

/-- The documented assumption of the swaps of the low bytes: the bytes above are zero. -/
def Op64.Assumes (σ : State) : Op64 → Prop
  | .bswap16 _ arg => (σ.wide arg).extractLsb' 16 48 = 0#48
  | .bswap32 _ arg => (σ.wide arg).extractLsb' 32 32 = 0#32
  | _ => True

/-- The temporaries and the memory after an operation of the given effect. -/
def Effect.apply (σ : State) : Effect → State
  | .wide ret v => (σ.set (.low ret) (lo v)).set (.high ret) (hi v)
  | .word ret v => σ.set (.i32 ret) v
  | .mem m => { σ with mem := m }

end Ar7Qemu.Tcg.Expand
