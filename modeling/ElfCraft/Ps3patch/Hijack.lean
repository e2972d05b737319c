import ElfCraft.Exec.Until
import ElfCraft.Ppc.Isa
import ElfCraft.Ps3patch.Trampoline

/-!
This module contains the patched program as the processor runs it: the jump at the entry point, the
trampoline and the way back, next to a run of the instructions that the jump displaced.
-/

namespace ElfCraft
namespace Ps3patch

open Binary Elf Ppc Exec detail

-- The word at an offset into code in memory.
def wordAt (bytes : List Byte) (offset : BitVec 64) : Option Instruction :=
  if offset.toNat % 4 = 0 ∧ offset.toNat + 4 ≤ bytes.length then
    (readInstructions (slice bytes offset.toNat 4) 1)[0]?
  else
    none

/--
What the processor finds at an address: a word that the tool has emitted, or one of the displaced words
that the trampoline resumes.
-/
inductive Slot where
  | emitted (w : Instruction)
  | displaced (w : Instruction)
  deriving DecidableEq

-- The offset of the resumed words in the blob.
def resumeOffset : Nat := TRAMPOLINE_MAGIC.length + fixedPrefixInstrCount * 4

def slotAt (codeAddress : BitVec 64) (r : TrampolineResult) (addr : BitVec 64) : Option Slot :=
  match wordAt r.entryPatchBytes (addr - codeAddress) with
  | some w => some (.emitted w)
  | none =>
    let offset := addr - r.trampolineAddr.setWidth 64
    (wordAt r.blob offset).map fun w =>
      if resumeOffset ≤ offset.toNat
          ∧ offset.toNat < resumeOffset + r.displacedInstructionCount * 4 then
        .displaced w
      else
        .emitted w

-- The words that the jump at the entry point displaces.
def displacedWindow (file : Ps3ElfFile) (entry : EntryDescriptor) (count : Nat)
    : Result (List Instruction) :=
  match file.vaddrToFileOffset entry.codeAddress with
  | .error e => .error e
  | .ok offset =>
    match file.readAt offset (BitVec.ofNat 64 (count * 4)) with
    | .error e => .error e
    | .ok bytes => .ok (readInstructions bytes count)

section Run

variable {ρ : Type} (trap : Machine ρ → Machine ρ) (sem : Instruction → Machine ρ → Machine ρ)
variable (codeAddress : BitVec 64) (r : TrampolineResult)

/--
One step of the patched program. The emitted words mean what the ISA says, the meaning of the displaced
ones is the parameter `sem`.
-/
def step (m : Machine ρ) : Option (Machine ρ) :=
  match slotAt codeAddress r m.cia with
  | some (.emitted w) => (decode w).map fun i => exec trap i m
  | some (.displaced w) => some (sem w m)
  | none => none

-- The address behind the displaced words.
def remainder : BitVec 64 := codeAddress + BitVec.ofNat 64 (r.displacedInstructionCount * 4)

def atRemainder (m : Machine ρ) : Prop := m.cia = remainder codeAddress r

instance : DecidablePred (atRemainder (ρ := ρ) codeAddress r) := fun m =>
  inferInstanceAs (Decidable (m.cia = remainder codeAddress r))

-- The displaced words where they have been, one after the other.
def runOriginal (originals : List Instruction) (m : Machine ρ) : Machine ρ :=
  after (originals.map sem) m

end Run

/-
What a system call and a displaced instruction may do. The trampoline runs on a frame of 256 bytes that
it pushes below the stack pointer.
-/

def InFrame (base addr : BitVec 64) : Prop := (addr - base).toNat < 256

-- Below the stack pointer, where the frame is even if it wraps around.
def Below (sp addr : BitVec 64) : Prop := addr < sp ∨ InFrame (sp - 256) addr

section Assumptions

variable {ρ : Type}

/--
A system call may change everything but the stack pointer, the non volatile registers, the frame that
it runs on and the memory that is in use above.
-/
structure Keeps (m m' : Machine ρ) : Prop where
  gpr : ∀ (r : BitVec 5), r = 1 ∨ 13 ≤ r → m'.gpr r = m.gpr r
  cr : m'.cr = m.cr
  rest : m'.rest = m.rest
  mem : ∀ addr, InFrame (m.gpr 1) addr ∨ ¬ Below (m.gpr 1 + 256) addr → m'.mem addr = m.mem addr

structure KeepsCallers (trap : Machine ρ → Machine ρ) : Prop where
  returns : ∀ m, (trap m).cia = m.cia + 4
  keeps : ∀ m, Keeps m (trap m)

/--
Two states that only differ in where they execute and in the memory below `sp`.
-/
structure Agree (sp : BitVec 64) (m m' : Machine ρ) : Prop where
  gpr : m.gpr = m'.gpr
  lr : m.lr = m'.lr
  ctr : m.ctr = m'.ctr
  cr : m.cr = m'.cr
  rest : m.rest = m'.rest
  mem : ∀ addr, ¬ Below sp addr → m.mem addr = m'.mem addr

/--
An instruction that is no branch, does the same at every address and has nothing to do with the memory
below `sp`.
-/
structure Displaceable (sp : BitVec 64) (f : Machine ρ → Machine ρ) : Prop where
  next : ∀ m, (f m).cia = m.cia + 4
  agree : ∀ m m', Agree sp m m' → Agree sp (f m) (f m')

/--
The same, but only where the program is in the state `t` up to where it executes and to the memory below `sp`.
-/
structure StepsAlike (sp : BitVec 64) (f : Machine ρ → Machine ρ) (t : Machine ρ) : Prop where
  next : ∀ m, Agree sp m t → (f m).cia = m.cia + 4
  agree : ∀ m, Agree sp m t → Agree sp (f m) (f t)

-- Each of the instructions in the state in which a run of them from `t` gets to it.
def AlikeAlong (sp : BitVec 64) (fs : List (Machine ρ → Machine ρ)) (t : Machine ρ) : Prop :=
  ∀ k f, fs[k]? = some f → StepsAlike sp f (after (fs.take k) t)

-- The registers that the program can tell the hijack by.
structure SameRegisters (m m' : Machine ρ) : Prop where
  gpr : ∀ (r : BitVec 5), r ≠ 2 → m.gpr r = m'.gpr r
  lr : m.lr = m'.lr
  ctr : m.ctr = m'.ctr

end Assumptions

/--
From every state at the entry point the patched program gets behind the displaced words, with the
registers that they leave if they are run with the TOC pointer in `r2`.
-/
def Transparent (entry : EntryDescriptor) (r : TrampolineResult) (originals : List Instruction) : Prop :=
  ∀ (ρ : Type) (trap : Machine ρ → Machine ρ) (sem : Instruction → Machine ρ → Machine ρ)
    (m : Machine ρ),
    KeepsCallers trap → (∀ w ∈ originals, Displaceable (m.gpr 1) (sem w)) →
    m.cia = entry.codeAddress →
    ∃ m', Until (step trap sem entry.codeAddress r) (atRemainder entry.codeAddress r) m m'
      ∧ SameRegisters m' (runOriginal sem originals (m.setGpr 2 entry.tocValue))

end Ps3patch
end ElfCraft
