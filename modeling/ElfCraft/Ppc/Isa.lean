import ElfCraft.Ppc.Encode

/-!
This module contains the meaning of the instruction words: the 64 bit mode of the PowerPC ISA for the
instruction forms the encoders emit. Everything an instruction outside of these forms may depend on
beyond the registers below (XER, the floating point and vector registers, ...) is the `rest`.
-/

namespace ElfCraft
namespace Ppc

/--
The special purpose registers the encoders move from and to.
-/
inductive Spr where
  | lr
  | ctr
  deriving DecidableEq, Repr

inductive Insn where
  | addi (rt ra : BitVec 5) (si : BitVec 16)
  | addis (rt ra : BitVec 5) (si : BitVec 16)
  | ori (ra rs : BitVec 5) (ui : BitVec 16)
  | rldicl (ra rs : BitVec 5) (sh mb : BitVec 6)
  | mtspr (rs : BitVec 5) (spr : Spr)
  | mfspr (rt : BitVec 5) (spr : Spr)
  | std (rs ra : BitVec 5) (ds : BitVec 14)
  | stdu (rs ra : BitVec 5) (ds : BitVec 14)
  | ld (rt ra : BitVec 5) (ds : BitVec 14)
  | ldu (rt ra : BitVec 5) (ds : BitVec 14)
  | b (li : BitVec 24) (aa lk : Bool)
  | bc (bo bi : BitVec 5) (bd : BitVec 14) (aa lk : Bool)
  | bclr (bo bi : BitVec 5) (lk : Bool)
  | bcctr (bo bi : BitVec 5) (lk : Bool)
  | sc
  deriving DecidableEq, Repr

/--
The number of an SPR stands in the word with its 5 bit halves swapped.
-/
def decodeSpr (w : Instruction) : Option Spr :=
  let spr : BitVec 10 := w.extractLsb' 11 5 ++ w.extractLsb' 16 5
  if spr = 8 then
    some .lr
  else if spr = 9 then
    some .ctr
  else
    none

/--
The ISA numbers the bits of a word from the most significant one on, so its field `i:j` starts at bit
`31 - j`. The six bit operands of the MD-form are split: `sh` is `sh5 || sh0:4` with `sh5` at bit 30
and `mb` is `mb5 || mb0:4` with `mb5` at bit 26.
-/
def decode (w : Instruction) : Option Insn :=
  let opcode := w.extractLsb' 26 6
  let rt := w.extractLsb' 21 5
  let ra := w.extractLsb' 16 5
  let imm := w.extractLsb' 0 16
  let aa := w.getLsbD 1
  let lk := w.getLsbD 0
  if opcode = 14 then
    some (.addi rt ra imm)
  else if opcode = 15 then
    some (.addis rt ra imm)
  else if opcode = 24 then
    some (.ori ra rt imm)
  else if opcode = 30 ∧ w.extractLsb' 2 3 = 0 ∧ lk = false then
    some (.rldicl ra rt (w.extractLsb' 1 1 ++ w.extractLsb' 11 5) (w.extractLsb' 5 1 ++ w.extractLsb' 6 5))
  else if opcode = 31 ∧ w.extractLsb' 1 10 = 467 then
    (decodeSpr w).map (.mtspr rt ·)
  else if opcode = 31 ∧ w.extractLsb' 1 10 = 339 then
    (decodeSpr w).map (.mfspr rt ·)
  else if opcode = 62 ∧ w.extractLsb' 0 2 = 0 then
    some (.std rt ra (w.extractLsb' 2 14))
  else if opcode = 62 ∧ w.extractLsb' 0 2 = 1 then
    some (.stdu rt ra (w.extractLsb' 2 14))
  else if opcode = 58 ∧ w.extractLsb' 0 2 = 0 then
    some (.ld rt ra (w.extractLsb' 2 14))
  else if opcode = 58 ∧ w.extractLsb' 0 2 = 1 then
    some (.ldu rt ra (w.extractLsb' 2 14))
  else if opcode = 18 then
    some (.b (w.extractLsb' 2 24) aa lk)
  else if opcode = 16 then
    some (.bc rt ra (w.extractLsb' 2 14) aa lk)
  else if opcode = 19 ∧ w.extractLsb' 1 10 = 16 then
    some (.bclr rt ra lk)
  else if opcode = 19 ∧ w.extractLsb' 1 10 = 528 then
    some (.bcctr rt ra lk)
  else if opcode = 17 ∧ aa = true then
    some .sc
  else
    none

/--
The state of a processor, `cia` is the address of the instruction that executes next.
-/
structure Machine (ρ : Type) where
  gpr : BitVec 5 → BitVec 64
  lr : BitVec 64
  ctr : BitVec 64
  cr : BitVec 32
  mem : BitVec 64 → BitVec 8
  cia : BitVec 64
  rest : ρ

namespace Machine

variable {ρ : Type}

def setGpr (m : Machine ρ) (r : BitVec 5) (v : BitVec 64) : Machine ρ :=
  { m with gpr := fun r' => if r' = r then v else m.gpr r' }

def next (m : Machine ρ) : Machine ρ :=
  { m with cia := m.cia + 4 }

/--
`rA|0`: the register, or zero if the field is zero.
-/
def base (m : Machine ρ) (ra : BitVec 5) : BitVec 64 :=
  if ra = 0 then 0 else m.gpr ra

end Machine

/--
Big endian doubleword at `addr`.
-/
def load64 (mem : BitVec 64 → BitVec 8) (addr : BitVec 64) : BitVec 64 :=
  mem addr ++ mem (addr + 1) ++ mem (addr + 2) ++ mem (addr + 3) ++ mem (addr + 4) ++ mem (addr + 5)
    ++ mem (addr + 6) ++ mem (addr + 7)

def store64 (mem : BitVec 64 → BitVec 8) (addr v : BitVec 64) : BitVec 64 → BitVec 8 :=
  fun a => if (a - addr).toNat < 8 then v.extractLsb' (8 * (7 - (a - addr).toNat)) 8 else mem a

/--
`MASK(b, 63)`
-/
def mask63 (b : BitVec 6) : BitVec 64 := BitVec.allOnes 64 >>> b.toNat

def extsDs (ds : BitVec 14) : BitVec 64 := (ds ++ 0#2).signExtend 64

/--
Counter and condition test of the conditional branches, ISA bit `i` of `BO` is bit `4 - i`.
-/
def ctrOk (bo : BitVec 5) (ctr : BitVec 64) : Bool :=
  bo.getLsbD 2 || (decide (ctr ≠ 0) ^^ bo.getLsbD 1)

def condOk (bo bi : BitVec 5) (cr : BitVec 32) : Bool :=
  bo.getLsbD 4 || (cr.getLsbD (31 - bi.toNat) == bo.getLsbD 3)

section Exec

variable {ρ : Type} (trap : Machine ρ → Machine ρ)

/--
Leave for `target` if `taken`, `LK` stores the address after the branch in LR either way.
-/
def Machine.branch (m : Machine ρ) (taken : Bool) (target : BitVec 64) (lk : Bool) : Machine ρ :=
  { m with
    cia := if taken then target else m.cia + 4
    lr := if lk then m.cia + 4 else m.lr }

/--
The effect of one instruction. What the kernel does on `sc` is the parameter `trap`.
-/
def exec (i : Insn) (m : Machine ρ) : Machine ρ :=
  match i with
  | .addi rt ra si => (m.setGpr rt (m.base ra + si.signExtend 64)).next
  | .addis rt ra si => (m.setGpr rt (m.base ra + (si ++ 0#16).signExtend 64)).next
  | .ori ra rs ui => (m.setGpr ra (m.gpr rs ||| ui.setWidth 64)).next
  | .rldicl ra rs sh mb => (m.setGpr ra ((m.gpr rs).rotateLeft sh.toNat &&& mask63 mb)).next
  | .mtspr rs .lr => { m with lr := m.gpr rs }.next
  | .mtspr rs .ctr => { m with ctr := m.gpr rs }.next
  | .mfspr rt .lr => (m.setGpr rt m.lr).next
  | .mfspr rt .ctr => (m.setGpr rt m.ctr).next
  | .std rs ra ds => { m with mem := store64 m.mem (m.base ra + extsDs ds) (m.gpr rs) }.next
  | .stdu rs ra ds =>
    let ea := m.gpr ra + extsDs ds
    ({ m with mem := store64 m.mem ea (m.gpr rs) }.setGpr ra ea).next
  | .ld rt ra ds => (m.setGpr rt (load64 m.mem (m.base ra + extsDs ds))).next
  | .ldu rt ra ds =>
    let ea := m.gpr ra + extsDs ds
    ((m.setGpr rt (load64 m.mem ea)).setGpr ra ea).next
  | .b li aa lk =>
    let target := (li ++ 0#2).signExtend 64
    m.branch true (if aa then target else m.cia + target) lk
  | .bc bo bi bd aa lk =>
    let ctr := if bo.getLsbD 2 then m.ctr else m.ctr - 1
    let target := (bd ++ 0#2).signExtend 64
    { m with ctr := ctr }.branch (ctrOk bo ctr && condOk bo bi m.cr)
      (if aa then target else m.cia + target) lk
  | .bclr bo bi lk =>
    let ctr := if bo.getLsbD 2 then m.ctr else m.ctr - 1
    { m with ctr := ctr }.branch (ctrOk bo ctr && condOk bo bi m.cr) (m.lr &&& ~~~3) lk
  | .bcctr bo bi lk => m.branch (condOk bo bi m.cr) (m.ctr &&& ~~~3) lk
  | .sc => trap m

/--
Execute a run of words one after the other, `none` if one of them is outside of the decoded forms.
-/
def execWords (words : List Instruction) (m : Machine ρ) : Option (Machine ρ) :=
  match words with
  | [] => some m
  | w :: ws =>
    match decode w with
    | some i => execWords ws (exec trap i m)
    | none => none

end Exec

end Ppc
end ElfCraft
