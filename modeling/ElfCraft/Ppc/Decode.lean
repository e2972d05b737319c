import ElfCraft.Ppc.Encode

/-!
This module contains the branch classifier and the fix up of a relative branch that moves to another
address. It only looks at instruction words and addresses.
-/

namespace ElfCraft
namespace Ppc

inductive BranchKind where
  | NotABranch
  | DirectRelative
  | DirectAbsolute
  | ToLinkRegister
  | ToCountRegister
  deriving DecidableEq, Repr

structure DecodedBranch where
  kind : BranchKind := .NotABranch
  link : Bool := false
  isConditionalForm : Bool := false
  bo : BitVec 32 := 0
  bi : BitVec 32 := 0
  displacement : BitVec 32 := 0
  absoluteTarget : BitVec 32 := 0
  deriving DecidableEq, Repr

namespace detail

def signExtend (value : BitVec 32) (bitWidth : Nat) : BitVec 32 :=
  let signBit := 1#32 <<< (bitWidth - 1)
  (value ^^^ signBit) - signBit

end detail

open detail

def classify (instr : Instruction) : DecodedBranch :=
  let opcode := (instr >>> 26) &&& 0x3F#32
  if opcode = 18 then
    let aa := decide ((instr &&& 0x2#32) ≠ 0)
    let lk := decide ((instr &&& 0x1#32) ≠ 0)
    let liRaw := instr &&& 0x03FFFFFC#32
    let li := signExtend liRaw 26
    if aa then
      { kind := .DirectAbsolute, link := lk, absoluteTarget := li }
    else
      { kind := .DirectRelative, link := lk, displacement := li }
  else if opcode = 16 then
    let aa := decide ((instr &&& 0x2#32) ≠ 0)
    let lk := decide ((instr &&& 0x1#32) ≠ 0)
    let bo := (instr >>> 21) &&& 0x1F#32
    let bi := (instr >>> 16) &&& 0x1F#32
    let bdRaw := instr &&& 0x0000FFFC#32
    let bd := signExtend bdRaw 16
    if aa then
      { kind := .DirectAbsolute, link := lk, isConditionalForm := true, bo, bi, absoluteTarget := bd }
    else
      { kind := .DirectRelative, link := lk, isConditionalForm := true, bo, bi, displacement := bd }
  else if opcode = 19 then
    let xo := (instr >>> 1) &&& 0x3FF#32
    let lk := decide ((instr &&& 0x1#32) ≠ 0)
    if xo = 16 then
      { kind := .ToLinkRegister, link := lk }
    else if xo = 528 then
      { kind := .ToCountRegister, link := lk }
    else
      {}
  else
    {}

/--
Re-encode a relative branch that moves from `originalAddr` to `newAddr` such that it keeps its target.
The exceptions of the encoders are caught here.
-/
def relocateBranch (branch : DecodedBranch) (originalAddr newAddr : BitVec 32) : Option Instruction :=
  if branch.kind ≠ .DirectRelative then
    none
  else
    let originalTarget := originalAddr + branch.displacement
    let newDisplacement : Int := (originalTarget.toNat : Int) - (newAddr.toNat : Int)
    if newDisplacement < -2147483648 ∨ newDisplacement > 2147483647 then
      none
    else
      let target := BitVec.ofInt 32 newDisplacement
      if branch.isConditionalForm then
        (encodeBranchConditional branch.bo branch.bi target false branch.link).toOption
      else
        (encodeBranch target false branch.link).toOption

end Ppc
end ElfCraft
