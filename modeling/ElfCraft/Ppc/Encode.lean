/-!
This module contains the PowerPC instruction encoders: the subset needed to build a trampoline. All
of them return a 32 bit instruction word, its byte order is the business of the caller.
-/

namespace ElfCraft
namespace Ppc

abbrev Instruction := BitVec 32

/--
The exception that an encoder throws when an operand does not fit its field.
-/
structure InvalidArgument where
  what : String
  deriving DecidableEq, Repr

def SPR_LR : BitVec 32 := 8
def SPR_CTR : BitVec 32 := 9

namespace detail

def bits (value : BitVec 32) (width : Nat) : BitVec 32 :=
  value &&& (if width ≥ 32 then 0xFFFFFFFF#32 else (1#32 <<< width) - 1#32)

/--
The two 5 bit halves of an SPR number trade places in the instruction.
-/
def encodeSprField (sprNumber : BitVec 32) : BitVec 32 :=
  let lo5 := sprNumber &&& 0x1F#32
  let hi5 := (sprNumber >>> 5) &&& 0x1F#32
  (lo5 <<< 5) ||| hi5

end detail

open detail

def encodeAddi (rd ra : BitVec 32) (simm : BitVec 16) : Instruction :=
  (bits 14 6 <<< 26) ||| (bits rd 5 <<< 21) ||| (bits ra 5 <<< 16) ||| bits (simm.setWidth 32) 16

def encodeLi (rd : BitVec 32) (simm : BitVec 16) : Instruction := encodeAddi rd 0 simm

def encodeAddis (rd ra : BitVec 32) (simm : BitVec 16) : Instruction :=
  (bits 15 6 <<< 26) ||| (bits rd 5 <<< 21) ||| (bits ra 5 <<< 16) ||| bits (simm.setWidth 32) 16

def encodeLis (rd : BitVec 32) (simm : BitVec 16) : Instruction := encodeAddis rd 0 simm

def encodeOri (ra rs : BitVec 32) (uimm : BitVec 16) : Instruction :=
  (bits 24 6 <<< 26) ||| (bits rs 5 <<< 21) ||| (bits ra 5 <<< 16) ||| bits (uimm.setWidth 32) 16

def encodeMtspr (rs sprNumber : BitVec 32) : Instruction :=
  (bits 31 6 <<< 26) ||| (bits rs 5 <<< 21) ||| (bits (encodeSprField sprNumber) 10 <<< 11) |||
    (bits 467 10 <<< 1)

def encodeMfspr (rt sprNumber : BitVec 32) : Instruction :=
  (bits 31 6 <<< 26) ||| (bits rt 5 <<< 21) ||| (bits (encodeSprField sprNumber) 10 <<< 11) |||
    (bits 339 10 <<< 1)

def encodeMtlr (rs : BitVec 32) : Instruction := encodeMtspr rs SPR_LR
def encodeMflr (rt : BitVec 32) : Instruction := encodeMfspr rt SPR_LR
def encodeMfctr (rt : BitVec 32) : Instruction := encodeMfspr rt SPR_CTR

/--
DS-form: `d` is an `int32_t`, the field holds `d / 4` in 14 bits.
-/
def encodeStdForm (primaryOpcode xo rsOrRt ra d : BitVec 32) : Except InvalidArgument Instruction :=
  if d.toInt.tmod 4 ≠ 0 then
    .error ⟨"std/ld displacement must be a multiple of 4"⟩
  else
    let kMax : Int := ((1 <<< 13) - 1) * 4
    let kMin : Int := -(1 <<< 13) * 4
    if d.toInt > kMax ∨ d.toInt < kMin then
      .error ⟨"std/ld displacement out of range for the 14-bit DS field"⟩
    else
      let ds14 := bits (BitVec.ofInt 32 (d.toInt.tdiv 4)) 14
      .ok <| (bits primaryOpcode 6 <<< 26) ||| (bits rsOrRt 5 <<< 21) ||| (bits ra 5 <<< 16) |||
        (ds14 <<< 2) ||| bits xo 2

def encodeStd (rs ra d : BitVec 32) : Except InvalidArgument Instruction := encodeStdForm 62 0 rs ra d
def encodeStdu (rs ra d : BitVec 32) : Except InvalidArgument Instruction := encodeStdForm 62 1 rs ra d
def encodeLd (rt ra d : BitVec 32) : Except InvalidArgument Instruction := encodeStdForm 58 0 rt ra d
def encodeLdu (rt ra d : BitVec 32) : Except InvalidArgument Instruction := encodeStdForm 58 1 rt ra d

/--
MD-form. The six bits of `mb6` are stored as they stand, only `sh6` is split.
-/
def encodeRldicl (ra rs sh6 mb6 : BitVec 32) (rc : Bool) : Instruction :=
  let shLo5 := sh6 &&& 0x1F#32
  let shHi1 := (sh6 >>> 5) &&& 0x1#32
  (bits 30 6 <<< 26) ||| (bits rs 5 <<< 21) ||| (bits ra 5 <<< 16) ||| (bits shLo5 5 <<< 11) |||
    (bits mb6 6 <<< 5) ||| (bits 0 3 <<< 2) ||| (bits shHi1 1 <<< 1) ||| (if rc then 1 else 0)

def encodeClrldi (ra rs n : BitVec 32) : Instruction := encodeRldicl ra rs 0 n false

def encodeMtctr (rs : BitVec 32) : Instruction := encodeMtspr rs SPR_CTR

def encodeBctr : Instruction :=
  let BO_ALWAYS : BitVec 32 := 0b10100
  (bits 19 6 <<< 26) ||| (bits BO_ALWAYS 5 <<< 21) ||| (bits 0 5 <<< 16) ||| (bits 0 5 <<< 11) |||
    (bits 528 10 <<< 1)

/--
I-form: `target` is an `int32_t`, either an absolute address or a displacement.
-/
def encodeBranch (target : BitVec 32) (absolute link : Bool) : Except InvalidArgument Instruction :=
  if target.toInt.tmod 4 ≠ 0 then
    .error ⟨"branch target must be 4-byte aligned"⟩
  else
    let kMaxBytes : Int := (1 <<< 25) - 4
    let kMinBytes : Int := -(1 <<< 25)
    if target.toInt > kMaxBytes ∨ target.toInt < kMinBytes then
      .error ⟨"branch target out of range for a direct b/ba instruction"⟩
    else
      let li := bits target 26 &&& 0xFFFFFFFC#32
      .ok <| (bits 18 6 <<< 26) ||| li ||| (if absolute then 0x2 else 0) ||| (if link then 0x1 else 0)

/--
B-form: the displacement field only has 14 bits, `bo` and `bi` select the condition.
-/
def encodeBranchConditional (bo bi target : BitVec 32) (absolute link : Bool)
    : Except InvalidArgument Instruction :=
  if target.toInt.tmod 4 ≠ 0 then
    .error ⟨"branch target must be 4-byte aligned"⟩
  else
    let kMaxBytes : Int := (1 <<< 15) - 4
    let kMinBytes : Int := -(1 <<< 15)
    if target.toInt > kMaxBytes ∨ target.toInt < kMinBytes then
      .error ⟨"branch target out of range for a bc/bca instruction's 14-bit BD field"⟩
    else
      let bd := bits target 16 &&& 0xFFFC#32
      .ok <| (bits 16 6 <<< 26) ||| (bits bo 5 <<< 21) ||| (bits bi 5 <<< 16) ||| bd |||
        (if absolute then 0x2 else 0) ||| (if link then 0x1 else 0)

/--
The `lis`/`ori`/`clrldi` sequence.
-/
def loadImmediate32 (reg value : BitVec 32) : List Instruction :=
  let hi := ((value >>> 16) &&& 0xFFFF#32).setWidth 16
  let lo := (value &&& 0xFFFF#32).setWidth 16
  [encodeLis reg hi, encodeOri reg reg lo, encodeClrldi reg reg 32]

/--
The long jump: load the target into `scratchReg`, move it to CTR and branch to CTR.
-/
def makeAbsoluteJump (targetAddress scratchReg : BitVec 32) : List Instruction :=
  loadImmediate32 scratchReg targetAddress ++ [encodeMtctr scratchReg, encodeBctr]

example : encodeBctr = 0x4E800420 := by decide
example : encodeMtctr 0 = 0x7C0903A6 := by decide

end Ppc
end ElfCraft
