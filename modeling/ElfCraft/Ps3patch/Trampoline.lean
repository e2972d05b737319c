import ElfCraft.Ppc.Decode
import ElfCraft.Ps3patch.Syscalls
import ElfCraft.Ps3patch.Toc

/-!
This module contains the builder of the trampoline: the payload that is injected into an executable and
the jump to it that overwrites the first instructions of the program.
-/

namespace ElfCraft
namespace Ps3patch

open Binary Elf Ppc

structure TrampolineResult where
  blob : List Byte
  entryPatchBytes : List Byte
  trampolineAddr : BitVec 32
  entryPatchAddr : BitVec 32
  displacedInstructionCount : Nat
  deriving DecidableEq

-- 'S', 'P', '3', 'P', 'A', 'T', 'C', 'H'
def TRAMPOLINE_MAGIC : List Byte := [0x53, 0x50, 0x33, 0x50, 0x41, 0x54, 0x43, 0x48]

def isAlreadyPatched (file : Ps3ElfFile) : Bool :=
  go file.segments
where
  go (phdrs : List (Phdr true .Big)) : Bool :=
    match phdrs with
    | [] => false
    | ph :: phdrs =>
      if ph.p_type ≠ PT_LOAD then
        go phdrs
      else if ph.p_filesz.toNat < TRAMPOLINE_MAGIC.length then
        go phdrs
      else
        match file.readAt ph.p_offset (BitVec.ofNat 64 TRAMPOLINE_MAGIC.length) with
        | .error _ => go phdrs
        | .ok bytes => if bytes = TRAMPOLINE_MAGIC then true else go phdrs

namespace detail

def FRAME_SIZE : BitVec 32 := 256
def SAVE_BASE : BitVec 32 := 128
def PROLOGUE_INSTR_COUNT : Nat := 16
def EPILOGUE_INSTR_COUNT : Nat := 16
def TOC_FIXUP_INSTR_COUNT : Nat := 3

-- The encoders may throw, the list of them throws what the first one does.
def buildPrologue : Except InvalidArgument (List Instruction) :=
  [encodeStdu 1 1 (-FRAME_SIZE),
    encodeStd 0 1 (SAVE_BASE + 0),
    .ok (encodeMflr 0), encodeStd 0 1 (SAVE_BASE + 8),
    .ok (encodeMfctr 0), encodeStd 0 1 (SAVE_BASE + 16),
    encodeStd 3 1 (SAVE_BASE + 24), encodeStd 4 1 (SAVE_BASE + 32),
    encodeStd 5 1 (SAVE_BASE + 40), encodeStd 6 1 (SAVE_BASE + 48),
    encodeStd 7 1 (SAVE_BASE + 56), encodeStd 8 1 (SAVE_BASE + 64),
    encodeStd 9 1 (SAVE_BASE + 72), encodeStd 10 1 (SAVE_BASE + 80),
    encodeStd 11 1 (SAVE_BASE + 88), encodeStd 12 1 (SAVE_BASE + 96)].mapM id

def buildEpilogue : Except InvalidArgument (List Instruction) :=
  [encodeLd 0 1 (SAVE_BASE + 8), .ok (encodeMtlr 0),
    encodeLd 0 1 (SAVE_BASE + 16), .ok (encodeMtctr 0),
    encodeLd 3 1 (SAVE_BASE + 24), encodeLd 4 1 (SAVE_BASE + 32),
    encodeLd 5 1 (SAVE_BASE + 40), encodeLd 6 1 (SAVE_BASE + 48),
    encodeLd 7 1 (SAVE_BASE + 56), encodeLd 8 1 (SAVE_BASE + 64),
    encodeLd 9 1 (SAVE_BASE + 72), encodeLd 10 1 (SAVE_BASE + 80),
    encodeLd 11 1 (SAVE_BASE + 88), encodeLd 12 1 (SAVE_BASE + 96),
    encodeLd 0 1 (SAVE_BASE + 0),
    .ok (encodeAddi 1 1 (FRAME_SIZE.setWidth 16))].mapM id

/--
A direct branch if it reaches, the long jump if not.
-/
def makeMinimalJump (fromAddr toAddr : BitVec 32) : List Instruction :=
  let disp : Int := (toAddr.toNat : Int) - (fromAddr.toNat : Int)
  if disp.tmod 4 = 0 ∧ disp ≥ -33554432 ∧ disp ≤ 33554428 then
    match encodeBranch (BitVec.ofInt 32 disp) false false with
    | .ok w => [w]
    | .error _ => makeAbsoluteJump toAddr 12
  else
    makeAbsoluteJump toAddr 12

def toBigEndianBytes (instrs : List Instruction) : List Byte :=
  instrs.flatMap fun (instr : Instruction) =>
    [(instr >>> 24).setWidth 8, (instr >>> 16).setWidth 8, (instr >>> 8).setWidth 8, instr.setWidth 8]

end detail

open detail

def relocateDisplacedInstructions (original : List Instruction) (originalBaseAddr newBaseAddr : BitVec 32)
    : Result (List Instruction) :=
  go 0 original
where
  go (i : Nat) (original : List Instruction) : Result (List Instruction) :=
    match original with
    | [] => .ok []
    | instr :: rest =>
      let originalAddr := originalBaseAddr + BitVec.ofNat 32 (i * 4)
      let newAddr := newBaseAddr + BitVec.ofNat 32 (i * 4)
      let decoded := classify instr
      if decoded.kind = .DirectRelative then
        match relocateBranch decoded originalAddr newAddr with
        | none =>
          .error <| .make .RelocationFailed <|
            "instruction " ++ toString i ++
              " at the entrypoint is a relative branch whose displacement can't be corrected " ++
              "after relocation -- refusing to patch rather than emit a broken jump"
        | some fixed => (go (i + 1) rest).map (fixed :: ·)
      else
        (go (i + 1) rest).map (instr :: ·)

-- The words at the entry point, `entryBytes` has 4 bytes for each of them.
def readInstructions (entryBytes : List Byte) (count : Nat) : List Instruction :=
  (List.range count).map fun i =>
    ((entryBytes.getD (i * 4 + 0) 0).setWidth 32 <<< 24) |||
      ((entryBytes.getD (i * 4 + 1) 0).setWidth 32 <<< 16) |||
      ((entryBytes.getD (i * 4 + 2) 0).setWidth 32 <<< 8) |||
      (entryBytes.getD (i * 4 + 3) 0).setWidth 32

-- Zeros until the size is a multiple of 4, three rounds always are enough.
def padBlob (blob : List Byte) : List Byte :=
  go 3 blob
where
  go (rounds : Nat) (blob : List Byte) : List Byte :=
    match rounds with
    | 0 => blob
    | rounds + 1 => if blob.length % 4 ≠ 0 then go rounds (blob ++ [0]) else blob

/--
What ends a call early: an `Error` that is returned or an exception of an encoder.
-/
inductive Failure where
  | error (e : Error)
  | exception (e : InvalidArgument)
  deriving DecidableEq

def kMaxPathLength : Nat := 1023

def fixedPrefixInstrCount : Nat :=
  PROLOGUE_INSTR_COUNT + SYSCALL_SEQUENCE_INSTR_COUNT + EPILOGUE_INSTR_COUNT + TOC_FIXUP_INSTR_COUNT

def buildTrampoline (file : Ps3ElfFile) (entry : EntryDescriptor) (trampolineAddr : BitVec 32)
    (sprxPath : List Byte) : Except Failure TrampolineResult :=
  if sprxPath = [] then
    .error <| .error <| .make .InvalidArgument "sprxPath must not be empty"
  else if sprxPath.length > kMaxPathLength then
    .error <| .error <| .make .InvalidArgument <|
      "sprxPath exceeds the maximum supported length (" ++ toString kMaxPathLength ++ " bytes)"
  else if trampolineAddr.toNat % 4 ≠ 0 then
    .error <| .error <| .make .InvalidArgument "trampolineAddr must be 4-byte aligned"
  else if entry.codeAddress.toNat % 4 ≠ 0 then
    .error <| .error <| .make .InvalidArgument "entry.codeAddress must be 4-byte aligned"
  else if isAlreadyPatched file then
    .error <| .error <| .make .AlreadyPatched <|
      "this file already contains a ps3patch trampoline segment -- refusing to patch " ++
        "an already-patched file (use the original, unmodified EBOOT.elf)"
  else
    let codeBaseAddr := trampolineAddr + BitVec.ofNat 32 TRAMPOLINE_MAGIC.length
    let entryAddr : BitVec 32 := entry.codeAddress.setWidth 32
    let jumpIn := makeMinimalJump entryAddr codeBaseAddr
    let displacedCount := jumpIn.length
    match file.vaddrToFileOffset entry.codeAddress with
    | .error e =>
      .error <| .error <| .make .OffsetOutOfBounds <|
        "entry.codeAddress does not resolve to a file-backed segment: " ++ e.message
    | .ok entryOffset =>
      match file.readAt entryOffset (BitVec.ofNat 64 (displacedCount * 4)) with
      | .error e =>
        .error <| .error <| .make .TruncatedFile <|
          "not enough file data at the entrypoint to read " ++ toString displacedCount ++
            " instruction(s): " ++ e.message
      | .ok entryBytes =>
        let displacedInstructions := readInstructions entryBytes displacedCount
        let resumeAddr := codeBaseAddr + BitVec.ofNat 32 (fixedPrefixInstrCount * 4)
        match relocateDisplacedInstructions displacedInstructions entryAddr resumeAddr with
        | .error e => .error (.error e)
        | .ok relocated =>
          let jumpBackAddr := resumeAddr + BitVec.ofNat 32 (displacedCount * 4)
          let remainderAddr := entryAddr + BitVec.ofNat 32 (displacedCount * 4)
          let jumpBack := makeMinimalJump jumpBackAddr remainderAddr
          let totalCodeInstrCount := fixedPrefixInstrCount + displacedCount + jumpBack.length
          let pathAddress := codeBaseAddr + BitVec.ofNat 32 (totalCodeInstrCount * 4)
          let syscallInstrs := makeLoadAndStartModule pathAddress
          if syscallInstrs.length ≠ SYSCALL_SEQUENCE_INSTR_COUNT then
            .error <| .error <| .make .Unsupported
              "internal inconsistency: syscall sequence length changed unexpectedly"
          else
            match buildPrologue with
            | .error e => .error (.exception e)
            | .ok prologue =>
              match buildEpilogue with
              | .error e => .error (.exception e)
              | .ok epilogue =>
                let tocFixup := loadImmediate32 2 (entry.tocValue.setWidth 32)
                let code := prologue ++ syscallInstrs ++ epilogue ++ tocFixup ++ relocated ++ jumpBack
                if code.length ≠ totalCodeInstrCount then
                  .error <| .error <| .make .Unsupported <|
                    "internal inconsistency: assembled code size does not match the planned layout"
                else
                  .ok
                    { blob := padBlob (TRAMPOLINE_MAGIC ++ toBigEndianBytes code ++ sprxPath ++ [0])
                      entryPatchBytes := toBigEndianBytes jumpIn
                      trampolineAddr
                      entryPatchAddr := entryAddr
                      displacedInstructionCount := displacedCount }

end Ps3patch
end ElfCraft
