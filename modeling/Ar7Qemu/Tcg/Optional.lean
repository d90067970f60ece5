import Ar7Qemu.Lib.Temporaries
import Ar7Qemu.Tcg.WideShift

/-! The operations of `tcg-op.h` that a host need not have. The generators of the 32-bit and of the
64-bit operation are one text each, over generators that every host has: those of 32-bit variables,
of pairs of them on a 32-bit host, and of 64-bit variables on a 64-bit host. -/

namespace Ar7Qemu.Tcg

open Lib Lib.WordBytes

/-! ### The generators -/

/-- The generators of one width that the others are made of, and the operations the host has. A
generator that needs temporaries is given the number of those in use. -/
structure Prims (Op V : Type) (w : ℕ) where
  temp : ℕ → V
  mov : V → V → List Op
  movi : V → BitVec w → List Op
  and : V → V → V → List Op
  or : V → V → V → List Op
  xor : V → V → V → List Op
  sub : V → V → V → List Op
  shl : V → V → V → List Op
  shr : V → V → V → List Op
  xori : ℕ → V → V → BitVec w → List Op
  shli : ℕ → V → V → ℕ → List Op
  shri : ℕ → V → V → ℕ → List Op
  hasNeg : Option (V → V → Op)
  hasNot : Option (V → V → Op)
  hasRotl : Option (V → V → V → Op)
  hasRotr : Option (V → V → V → Op)

namespace Prims

variable {Op V : Type} {w : ℕ} (P : Prims Op V w) (k : ℕ)

/-- `tcg_gen_subfi_i32` and `tcg_gen_subfi_i64`. -/
def tcgGenSubfi (ret : V) (arg1 : BitVec w) (arg2 : V) : List Op := P.movi (P.temp k) arg1 ++ P.sub ret (P.temp k) arg2

/-- `tcg_gen_neg_i32` and `tcg_gen_neg_i64`. -/
def tcgGenNeg (ret arg : V) : List Op :=
  match P.hasNeg with
  | some op => [op ret arg]
  | none => P.movi (P.temp k) 0#w ++ P.sub ret (P.temp k) arg

/-- `tcg_gen_not_i32` and `tcg_gen_not_i64`. -/
def tcgGenNot (ret arg : V) : List Op :=
  match P.hasNot with
  | some op => [op ret arg]
  | none => P.xori k ret arg (-1#w)

/-- `tcg_gen_andc_i32` and `tcg_gen_andc_i64`. -/
def tcgGenAndc (ret arg1 arg2 : V) : List Op :=
  P.tcgGenNot (k + 1) (P.temp k) arg2 ++ P.and ret arg1 (P.temp k)

/-- `tcg_gen_eqv_i32` and `tcg_gen_eqv_i64`. -/
def tcgGenEqv (ret arg1 arg2 : V) : List Op := P.xor ret arg1 arg2 ++ P.tcgGenNot k ret ret

/-- `tcg_gen_nand_i32` and `tcg_gen_nand_i64`. -/
def tcgGenNand (ret arg1 arg2 : V) : List Op := P.and ret arg1 arg2 ++ P.tcgGenNot k ret ret

/-- `tcg_gen_nor_i32` and `tcg_gen_nor_i64`. -/
def tcgGenNor (ret arg1 arg2 : V) : List Op := P.or ret arg1 arg2 ++ P.tcgGenNot k ret ret

/-- `tcg_gen_orc_i32` and `tcg_gen_orc_i64`. -/
def tcgGenOrc (ret arg1 arg2 : V) : List Op :=
  P.tcgGenNot (k + 1) (P.temp k) arg2 ++ P.or ret arg1 (P.temp k)

/-- `tcg_gen_rotl_i32` and `tcg_gen_rotl_i64`. -/
def tcgGenRotl (ret arg1 arg2 : V) : List Op :=
  match P.hasRotl with
  | some op => [op ret arg1 arg2]
  | none =>
    let t0 := P.temp k
    let t1 := P.temp (k + 1)
    P.shl t0 arg1 arg2 ++ P.tcgGenSubfi (k + 2) t1 (BitVec.ofNat w w) arg2 ++ P.shr t1 arg1 t1 ++ P.or ret t0 t1

def tcgGenRotrI32 (ret arg1 arg2 : V) : List Op :=
  match P.hasRotr with
  | some op => [op ret arg1 arg2]
  | none =>
    let t0 := P.temp k
    let t1 := P.temp (k + 1)
    P.shr t0 arg1 arg2 ++ P.tcgGenSubfi (k + 2) t1 (BitVec.ofNat w w) arg2 ++ P.shl t1 arg1 t1 ++ P.or ret t0 t1

/-- `tcg_gen_rotr_i64`, which differs from `tcg_gen_rotr_i32` in its first shift. -/
def tcgGenRotrI64 (ret arg1 arg2 : V) : List Op :=
  match P.hasRotr with
  | some op => [op ret arg1 arg2]
  | none =>
    let t0 := P.temp k
    let t1 := P.temp (k + 1)
    P.shl t0 arg1 arg2 ++ P.tcgGenSubfi (k + 2) t1 (BitVec.ofNat w w) arg2 ++ P.shl t1 arg1 t1 ++ P.or ret t0 t1

/-- `tcg_gen_rotli_i32` and `tcg_gen_rotli_i64`. -/
def tcgGenRotli (ret arg1 : V) (arg2 : ℕ) : List Op :=
  if arg2 = 0 then P.mov ret arg1
  else
    match P.hasRotl with
    | some op => P.movi (P.temp k) (BitVec.ofNat w arg2) ++ [op ret arg1 (P.temp k)]
    | none =>
      let t0 := P.temp k
      let t1 := P.temp (k + 1)
      P.shli (k + 2) t0 arg1 arg2 ++ P.shri (k + 2) t1 arg1 (w - arg2) ++ P.or ret t0 t1

/-- `tcg_gen_rotri_i32` and `tcg_gen_rotri_i64`. -/
def tcgGenRotri (ret arg1 : V) (arg2 : ℕ) : List Op :=
  if arg2 = 0 then P.mov ret arg1 else P.tcgGenRotli k ret arg1 (w - arg2)

end Prims

/-- The operations on variables of one width that a host may have. -/
inductive OptOp (V : Type) where
  | neg (ret arg : V)
  | not (ret arg : V)
  | andc (ret arg1 arg2 : V)
  | eqv (ret arg1 arg2 : V)
  | nand (ret arg1 arg2 : V)
  | nor (ret arg1 arg2 : V)
  | orc (ret arg1 arg2 : V)
  | rotl (ret arg1 arg2 : V)
  | rotr (ret arg1 arg2 : V)
  | rotli (ret arg1 : V) (arg2 : ℕ)
  | rotri (ret arg1 : V) (arg2 : ℕ)
  | ext8s (ret arg : V)
  | ext16s (ret arg : V)
  | ext32s (ret arg : V)
  | bswap16 (ret arg : V)
  | bswap32 (ret arg : V)
  | bswap64 (ret arg : V)

namespace OptOp

variable {Op V W : Type} {w : ℕ}

def map (f : V → W) : OptOp V → OptOp W
  | .neg ret arg => .neg (f ret) (f arg)
  | .not ret arg => .not (f ret) (f arg)
  | .andc ret arg1 arg2 => .andc (f ret) (f arg1) (f arg2)
  | .eqv ret arg1 arg2 => .eqv (f ret) (f arg1) (f arg2)
  | .nand ret arg1 arg2 => .nand (f ret) (f arg1) (f arg2)
  | .nor ret arg1 arg2 => .nor (f ret) (f arg1) (f arg2)
  | .orc ret arg1 arg2 => .orc (f ret) (f arg1) (f arg2)
  | .rotl ret arg1 arg2 => .rotl (f ret) (f arg1) (f arg2)
  | .rotr ret arg1 arg2 => .rotr (f ret) (f arg1) (f arg2)
  | .rotli ret arg1 arg2 => .rotli (f ret) (f arg1) arg2
  | .rotri ret arg1 arg2 => .rotri (f ret) (f arg1) arg2
  | .ext8s ret arg => .ext8s (f ret) (f arg)
  | .ext16s ret arg => .ext16s (f ret) (f arg)
  | .ext32s ret arg => .ext32s (f ret) (f arg)
  | .bswap16 ret arg => .bswap16 (f ret) (f arg)
  | .bswap32 ret arg => .bswap32 (f ret) (f arg)
  | .bswap64 ret arg => .bswap64 (f ret) (f arg)

/-- The destination and the operands. -/
def vars : OptOp V → List V
  | .neg ret arg | .not ret arg | .ext8s ret arg | .ext16s ret arg | .ext32s ret arg | .bswap16 ret arg
  | .bswap32 ret arg | .bswap64 ret arg => [ret, arg]
  | .andc ret arg1 arg2 | .eqv ret arg1 arg2 | .nand ret arg1 arg2 | .nor ret arg1 arg2 | .orc ret arg1 arg2
  | .rotl ret arg1 arg2 | .rotr ret arg1 arg2 => [ret, arg1, arg2]
  | .rotli ret arg1 _ | .rotri ret arg1 _ => [ret, arg1]

def ret : OptOp V → V
  | .neg ret _ | .not ret _ | .ext8s ret _ | .ext16s ret _ | .ext32s ret _ | .bswap16 ret _ | .bswap32 ret _
  | .bswap64 ret _ | .andc ret _ _ | .eqv ret _ _ | .nand ret _ _ | .nor ret _ _ | .orc ret _ _ | .rotl ret _ _
  | .rotr ret _ _ | .rotli ret _ _ | .rotri ret _ _ => ret

/-- The operation itself, on the values of its operands. -/
def eval (val : V → BitVec w) : OptOp V → BitVec w
  | .neg _ arg => -val arg
  | .not _ arg => ~~~val arg
  | .andc _ arg1 arg2 => val arg1 &&& ~~~val arg2
  | .eqv _ arg1 arg2 => ~~~(val arg1 ^^^ val arg2)
  | .nand _ arg1 arg2 => ~~~(val arg1 &&& val arg2)
  | .nor _ arg1 arg2 => ~~~(val arg1 ||| val arg2)
  | .orc _ arg1 arg2 => val arg1 ||| ~~~val arg2
  | .rotl _ arg1 arg2 => (val arg1).rotateLeft (val arg2).toNat
  | .rotr _ arg1 arg2 => (val arg1).rotateRight (val arg2).toNat
  | .rotli _ arg1 arg2 => (val arg1).rotateLeft arg2
  | .rotri _ arg1 arg2 => (val arg1).rotateRight arg2
  | .ext8s _ arg => ((val arg).setWidth 8).signExtend w
  | .ext16s _ arg => ((val arg).setWidth 16).signExtend w
  | .ext32s _ arg => ((val arg).setWidth 32).signExtend w
  | .bswap16 _ arg => (bswap 2 ((val arg).setWidth 16)).setWidth w
  | .bswap32 _ arg => (bswap 4 ((val arg).setWidth 32)).setWidth w
  | .bswap64 _ arg => (bswap 8 ((val arg).setWidth 64)).setWidth w

/-- What the comments and the documentation ask for: a rotation is by less than the width, and not
by nothing, the bytes above those that are swapped are zero, and two of the operations exist for
64 bits only. -/
def Assumes (val : V → BitVec w) : OptOp V → Prop
  | .rotl _ _ arg2 | .rotr _ _ arg2 => 0 < (val arg2).toNat ∧ (val arg2).toNat < w
  | .rotli _ _ arg2 | .rotri _ _ arg2 => 0 < arg2 ∧ arg2 < w
  | .bswap16 _ arg => (val arg).toNat < 2 ^ 16
  | .bswap32 _ arg => (val arg).toNat < 2 ^ 32
  | .ext32s _ _ | .bswap64 _ _ => w = 64
  | _ => True

/-- The operations that depend on the width. -/
def Conversion : OptOp V → Prop
  | .ext8s _ _ | .ext16s _ _ | .ext32s _ _ | .bswap16 _ _ | .bswap32 _ _ | .bswap64 _ _ => True
  | _ => False

/-- The generators that do not depend on the width, but for the rotation to the right. -/
def gen (P : Prims Op V w) (rotr : V → V → V → List Op) (k : ℕ) : OptOp V → List Op
  | .neg ret arg => P.tcgGenNeg k ret arg
  | .not ret arg => P.tcgGenNot k ret arg
  | .andc ret arg1 arg2 => P.tcgGenAndc k ret arg1 arg2
  | .eqv ret arg1 arg2 => P.tcgGenEqv k ret arg1 arg2
  | .nand ret arg1 arg2 => P.tcgGenNand k ret arg1 arg2
  | .nor ret arg1 arg2 => P.tcgGenNor k ret arg1 arg2
  | .orc ret arg1 arg2 => P.tcgGenOrc k ret arg1 arg2
  | .rotl ret arg1 arg2 => P.tcgGenRotl k ret arg1 arg2
  | .rotr ret arg1 arg2 => rotr ret arg1 arg2
  | .rotli ret arg1 arg2 => P.tcgGenRotli k ret arg1 arg2
  | .rotri ret arg1 arg2 => P.tcgGenRotri k ret arg1 arg2
  | _ => []

end OptOp

/-! ### Variables of 32 bits -/

namespace Expand

/-- The optional 32-bit operations that only these generators ask for. -/
structure Has32 where
  neg : Bool
  not : Bool
  rot : Bool

/-- The generators of 32-bit operations. -/
def prims32 (has : Has32) : Prims Op Temp 32 where
  temp := .scratch
  mov := tcgGenMovI32
  movi := tcgGenMoviI32
  and := tcgGenAndI32
  or := tcgGenOrI32
  xor := tcgGenXorI32
  sub ret arg1 arg2 := [.bin .sub ret arg1 arg2]
  shl ret arg1 arg2 := [.bin .shl ret arg1 arg2]
  shr ret arg1 arg2 := [.bin .shr ret arg1 arg2]
  xori := tcgGenXoriI32
  shli k ret arg1 arg2 := tcgGenShliI32 k ret arg1 (BitVec.ofNat 32 arg2)
  shri k ret arg1 arg2 := tcgGenShriI32 k ret arg1 (BitVec.ofNat 32 arg2)
  hasNeg := if has.neg then some .neg else none
  hasNot := if has.not then some .not else none
  hasRotl := if has.rot then some (.bin .rotl) else none
  hasRotr := if has.rot then some (.bin .rotr) else none

def genI32 (h : Host) (has : Has32) (k : ℕ) : OptOp Temp → List Op
  | .ext8s ret arg => tcgGenExt8sI32 k h ret arg
  | .ext16s ret arg => tcgGenExt16sI32 k h ret arg
  | .bswap16 ret arg => tcgGenBswap16I32 k h ret arg
  | .bswap32 ret arg => tcgGenBswap32I32 k h ret arg
  | op => op.gen (prims32 has) ((prims32 has).tcgGenRotrI32 k) k

/-! ### Variables of 64 bits on a 32-bit host -/

def halves (f : Temp → Temp → Temp → List Op) (ret arg1 arg2 : Wide) : List Op :=
  f ret.low arg1.low arg2.low ++ f ret.high arg1.high arg2.high

/-- Both halves by the same operation with the halves of a constant. -/
def halvesImm (f : Temp → Temp → BitVec 32 → List Op) (ret arg1 : Wide) (arg2 : BitVec 64) : List Op :=
  f ret.low arg1.low (lo arg2) ++ f ret.high arg1.high (hi arg2)

/-- The generators of 64-bit operations on a 32-bit host, which has none of the optional ones. -/
def primsPair : Prims Op Wide 64 where
  temp := .scratch
  mov := tcgGenMovI64
  movi ret arg := tcgGenMoviI32 ret.low (lo arg) ++ tcgGenMoviI32 ret.high (hi arg)
  and := halves tcgGenAndI32
  or := halves tcgGenOrI32
  xor := halves tcgGenXorI32
  sub ret arg1 arg2 := [.sub2 ret.low ret.high arg1.low arg1.high arg2.low arg2.high]
  shl ret arg1 arg2 := [.call64 .shl ret.low ret.high arg1.low arg1.high arg2.low arg2.high]
  shr ret arg1 arg2 := [.call64 .shr ret.low ret.high arg1.low arg1.high arg2.low arg2.high]
  xori k := halvesImm (tcgGenXoriI32 (2 * k))
  shli := tcgGenShliI64
  shri := tcgGenShriI64
  hasNeg := none
  hasNot := none
  hasRotl := none
  hasRotr := none

def genPair (h : Host) (k : ℕ) : OptOp ℕ → List Op
  | .ext8s ret arg => (Op64.ext8s ret arg).gen h (2 * k)
  | .ext16s ret arg => (Op64.ext16s ret arg).gen h (2 * k)
  | .ext32s ret arg => (Op64.ext32s ret arg).gen h (2 * k)
  | .bswap16 ret arg => (Op64.bswap16 ret arg).gen h (2 * k)
  | .bswap32 ret arg => (Op64.bswap32 ret arg).gen h (2 * k)
  | .bswap64 ret arg => (Op64.bswap64 ret arg).gen h (2 * k)
  | op => (op.map Wide.var).gen primsPair (primsPair.tcgGenRotrI64 k) k

end Expand

/-! ### Variables of 64 bits on a 64-bit host -/

namespace Native

open Expand (BinOp)

/-- The optional 64-bit operations. On a value with other than zeroes above the bytes they swap
`bswap16_i64` and `bswap32_i64` give what the host makes of it. A temporary of the 32-bit type that
the register allocator spills is stored and loaded as 32 bits. -/
structure Host where
  hasExt8s : Bool
  hasExt16s : Bool
  hasExt32s : Bool
  hasBswap16 : Bool
  hasBswap32 : Bool
  hasBswap64 : Bool
  hasNeg : Bool
  hasNot : Bool
  hasRot : Bool
  bswapWide : BitVec 64 → BitVec 64
  spills : Bool

/-- The 64-bit variables and temporaries, and the temporaries of the 32-bit type. -/
inductive Temp where
  | var (n : ℕ)
  | scratch (n : ℕ)
  | narrow (n : ℕ)
  deriving DecidableEq

/-- A 64-bit operation of the op stream. -/
inductive Op where
  | mov (ret arg : Temp)
  | movi (ret : Temp) (arg : BitVec 64)
  | bin (f : BinOp) (ret arg1 arg2 : Temp)
  | ext (n : ℕ) (ret arg : Temp)
  | bswap16 (ret arg : Temp)
  | bswap32 (ret arg : Temp)
  | bswap64 (ret arg : Temp)
  | neg (ret arg : Temp)
  | not (ret arg : Temp)

abbrev State := Temp → BitVec 64

/-- What is left of a value in a variable of the 32-bit type. -/
def Host.held (h : Host) : Temp → BitVec 64 → BitVec 64
  | .narrow _, v => if h.spills then (v.setWidth 32).setWidth 64 else v
  | _, v => v

def evalBin : BinOp → BitVec 64 → BitVec 64 → BitVec 64
  | .and, a, b => a &&& b
  | .or, a, b => a ||| b
  | .xor, a, b => a ^^^ b
  | .shl, a, b => a <<< b.toNat
  | .shr, a, b => a >>> b.toNat
  | .sar, a, b => a.sshiftRight b.toNat
  | .add, a, b => a + b
  | .sub, a, b => a - b
  | .mul, a, b => a * b
  | .rotl, a, b => a.rotateLeft b.toNat
  | .rotr, a, b => a.rotateRight b.toNat

def Op.ret : Op → Temp
  | .mov ret _ | .movi ret _ | .bin _ ret _ _ | .ext _ ret _ | .bswap16 ret _ | .bswap32 ret _ | .bswap64 ret _
  | .neg ret _ | .not ret _ => ret

def Op.value (h : Host) (σ : State) : Op → BitVec 64
  | .mov _ arg => σ arg
  | .movi _ arg => arg
  | .bin f _ arg1 arg2 => evalBin f (σ arg1) (σ arg2)
  | .ext n _ arg => ((σ arg).setWidth n).signExtend 64
  | .bswap16 _ arg =>
    if (σ arg).toNat < 2 ^ 16 then (bswap 2 ((σ arg).setWidth 16)).setWidth 64 else h.bswapWide (σ arg)
  | .bswap32 _ arg =>
    if (σ arg).toNat < 2 ^ 32 then (bswap 4 ((σ arg).setWidth 32)).setWidth 64 else h.bswapWide (σ arg)
  | .bswap64 _ arg => bswap 8 (σ arg)
  | .neg _ arg => -σ arg
  | .not _ arg => ~~~σ arg

def Op.exec (h : Host) (σ : State) (op : Op) : State := Function.update σ op.ret (h.held op.ret (op.value h σ))

/-- A shift or a rotation by 64 or more is not defined. -/
def Op.Defined (σ : State) : Op → Prop
  | .bin f _ _ arg2 => f.Bounded → (σ arg2).toNat < 64
  | _ => True

def run (h : Host) (p : List Op) (σ : State) : State := p.foldl (Op.exec h) σ

section Gen

variable (k : ℕ)

def tcgGenMovI64 (ret arg : Temp) : List Op := if ret ≠ arg then [.mov ret arg] else []

def tcgGenMoviI64 (ret : Temp) (arg : BitVec 64) : List Op := [.movi ret arg]

/-- `tcg_gen_and_i64` and `tcg_gen_or_i64`. -/
def tcgGenIdemI64 (f : BinOp) (ret arg1 arg2 : Temp) : List Op :=
  if arg1 = arg2 then tcgGenMovI64 ret arg1 else [.bin f ret arg1 arg2]

def tcgGenAndI64 : Temp → Temp → Temp → List Op := tcgGenIdemI64 .and

def tcgGenOrI64 : Temp → Temp → Temp → List Op := tcgGenIdemI64 .or

def tcgGenXorI64 (ret arg1 arg2 : Temp) : List Op :=
  if arg1 = arg2 then tcgGenMoviI64 ret 0#64 else [.bin .xor ret arg1 arg2]

def tcgGenAndiI64 (ret arg1 : Temp) (arg2 : BitVec 64) : List Op :=
  tcgGenMoviI64 (.scratch k) arg2 ++ tcgGenAndI64 ret arg1 (.scratch k)

def tcgGenXoriI64 (ret arg1 : Temp) (arg2 : BitVec 64) : List Op :=
  tcgGenMoviI64 (.scratch k) arg2 ++ tcgGenXorI64 ret arg1 (.scratch k)

/-- `tcg_gen_shli_i64`, `tcg_gen_shri_i64` and `tcg_gen_sari_i64`. -/
def tcgGenShiftiI64 (f : BinOp) (ret arg1 : Temp) (arg2 : ℕ) : List Op :=
  if arg2 = 0 then tcgGenMovI64 ret arg1
  else tcgGenMoviI64 (.scratch k) (BitVec.ofNat 64 arg2) ++ [.bin f ret arg1 (.scratch k)]

def tcgGenShliI64 : Temp → Temp → ℕ → List Op := tcgGenShiftiI64 k .shl

def tcgGenShriI64 : Temp → Temp → ℕ → List Op := tcgGenShiftiI64 k .shr

def tcgGenSariI64 : Temp → Temp → ℕ → List Op := tcgGenShiftiI64 k .sar

def tcgGenExt8uI64 (ret arg : Temp) : List Op := tcgGenAndiI64 k ret arg 0xff#64

def tcgGenExt32uI64 (ret arg : Temp) : List Op := tcgGenAndiI64 k ret arg 0xffffffff#64

/-- A sign extension by two shifts by `c`. -/
def tcgGenExtsI64 (has : Bool) (c : ℕ) (ret arg : Temp) : List Op :=
  if has then [.ext (64 - c) ret arg] else tcgGenShliI64 k ret arg c ++ tcgGenSariI64 k ret ret c

def tcgGenExt8sI64 (h : Host) : Temp → Temp → List Op := tcgGenExtsI64 k h.hasExt8s 56

def tcgGenExt16sI64 (h : Host) : Temp → Temp → List Op := tcgGenExtsI64 k h.hasExt16s 48

def tcgGenExt32sI64 (h : Host) : Temp → Temp → List Op := tcgGenExtsI64 k h.hasExt32s 32

def tcgGenBswap16I64 (h : Host) (ret arg : Temp) : List Op :=
  if h.hasBswap16 then [.bswap16 ret arg]
  else
    let t0 := Temp.scratch k
    tcgGenExt8uI64 (k + 1) t0 arg ++ tcgGenShliI64 (k + 1) t0 t0 8 ++ tcgGenShriI64 (k + 1) ret arg 8 ++
      tcgGenOrI64 ret ret t0

def tcgGenBswap32I64 (h : Host) (ret arg : Temp) : List Op :=
  if h.hasBswap32 then [.bswap32 ret arg]
  else
    let t0 := Temp.scratch k
    let t1 := Temp.scratch (k + 1)
    tcgGenShliI64 (k + 2) t0 arg 24 ++ tcgGenExt32uI64 (k + 2) t0 t0 ++
      tcgGenAndiI64 (k + 2) t1 arg 0x0000ff00#64 ++ tcgGenShliI64 (k + 2) t1 t1 8 ++ tcgGenOrI64 t0 t0 t1 ++
      tcgGenShriI64 (k + 2) t1 arg 8 ++ tcgGenAndiI64 (k + 2) t1 t1 0x0000ff00#64 ++ tcgGenOrI64 t0 t0 t1 ++
      tcgGenShriI64 (k + 2) t1 arg 24 ++ tcgGenOrI64 ret t0 t1

/-- `tcg_gen_bswap64_i64`, whose temporaries are of the 32-bit type. -/
def tcgGenBswap64I64 (h : Host) (ret arg : Temp) : List Op :=
  if h.hasBswap64 then [.bswap64 ret arg]
  else
    let t0 := Temp.narrow k
    let t1 := Temp.narrow (k + 1)
    tcgGenShliI64 (k + 2) t0 arg 56 ++
      tcgGenAndiI64 (k + 2) t1 arg 0x0000ff00#64 ++ tcgGenShliI64 (k + 2) t1 t1 40 ++ tcgGenOrI64 t0 t0 t1 ++
      tcgGenAndiI64 (k + 2) t1 arg 0x00ff0000#64 ++ tcgGenShliI64 (k + 2) t1 t1 24 ++ tcgGenOrI64 t0 t0 t1 ++
      tcgGenAndiI64 (k + 2) t1 arg 0xff000000#64 ++ tcgGenShliI64 (k + 2) t1 t1 8 ++ tcgGenOrI64 t0 t0 t1 ++
      tcgGenShriI64 (k + 2) t1 arg 8 ++ tcgGenAndiI64 (k + 2) t1 t1 0xff000000#64 ++ tcgGenOrI64 t0 t0 t1 ++
      tcgGenShriI64 (k + 2) t1 arg 24 ++ tcgGenAndiI64 (k + 2) t1 t1 0x00ff0000#64 ++ tcgGenOrI64 t0 t0 t1 ++
      tcgGenShriI64 (k + 2) t1 arg 40 ++ tcgGenAndiI64 (k + 2) t1 t1 0x0000ff00#64 ++ tcgGenOrI64 t0 t0 t1 ++
      tcgGenShriI64 (k + 2) t1 arg 56 ++ tcgGenOrI64 ret t0 t1

end Gen

/-- The generators of 64-bit operations on a 64-bit host. -/
def prims64 (h : Host) : Prims Op Temp 64 where
  temp := .scratch
  mov := tcgGenMovI64
  movi := tcgGenMoviI64
  and := tcgGenAndI64
  or := tcgGenOrI64
  xor := tcgGenXorI64
  sub ret arg1 arg2 := [.bin .sub ret arg1 arg2]
  shl ret arg1 arg2 := [.bin .shl ret arg1 arg2]
  shr ret arg1 arg2 := [.bin .shr ret arg1 arg2]
  xori := tcgGenXoriI64
  shli := tcgGenShliI64
  shri := tcgGenShriI64
  hasNeg := if h.hasNeg then some .neg else none
  hasNot := if h.hasNot then some .not else none
  hasRotl := if h.hasRot then some (.bin .rotl) else none
  hasRotr := if h.hasRot then some (.bin .rotr) else none

def genI64 (h : Host) (k : ℕ) : OptOp Temp → List Op
  | .ext8s ret arg => tcgGenExt8sI64 k h ret arg
  | .ext16s ret arg => tcgGenExt16sI64 k h ret arg
  | .ext32s ret arg => tcgGenExt32sI64 k h ret arg
  | .bswap16 ret arg => tcgGenBswap16I64 k h ret arg
  | .bswap32 ret arg => tcgGenBswap32I64 k h ret arg
  | .bswap64 ret arg => tcgGenBswap64I64 k h ret arg
  | op => op.gen (prims64 h) ((prims64 h).tcgGenRotrI64 k) k

end Native

end Ar7Qemu.Tcg
