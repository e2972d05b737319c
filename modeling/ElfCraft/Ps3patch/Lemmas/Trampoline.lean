import ElfCraft.Elf.Lemmas.Lookup
import ElfCraft.Ppc.Lemmas.Branch
import ElfCraft.Ppc.Lemmas.LoadImmediate
import ElfCraft.Ps3patch.Lemmas.Words

/-!
This module contains the layout of the trampoline: which words the builder puts where and which
addresses they refer to.
-/

namespace ElfCraft
namespace Ps3patch

open Binary Elf ElfFile Ppc detail

/-
The two kinds of jumps.
-/

def jumpDisp (fromAddr toAddr : BitVec 32) : Int := (toAddr.toNat : Int) - (fromAddr.toNat : Int)

theorem makeMinimalJump_eq (fromAddr toAddr : BitVec 32)
    : makeMinimalJump fromAddr toAddr
        =
      if Reaches (jumpDisp fromAddr toAddr) then
        [branchWord (jumpDisp fromAddr toAddr)]
      else
        makeAbsoluteJump toAddr 12 := by
  unfold makeMinimalJump
  dsimp only
  rw [← jumpDisp]
  by_cases h : Reaches (jumpDisp fromAddr toAddr)
  . have halign := Int.tmod_eq_zero_of_dvd h.aligned
    have hlower := h.lower
    have hupper := h.upper
    rw [if_pos h, if_pos ⟨halign, hlower, hupper⟩, encodeBranch_of_reaches h]
  . rw [if_neg h, if_neg]
    rintro ⟨halign, hlower, hupper⟩
    exact h ⟨Int.dvd_of_tmod_eq_zero halign, hlower, hupper⟩

theorem length_makeAbsoluteJump (target scratch : BitVec 32)
    : (makeAbsoluteJump target scratch).length = 5 := by
  rfl

theorem length_makeMinimalJump (fromAddr toAddr : BitVec 32)
    : (makeMinimalJump fromAddr toAddr).length = 1 ∨ (makeMinimalJump fromAddr toAddr).length = 5 := by
  rw [makeMinimalJump_eq]
  split
  . exact .inl rfl
  . exact .inr (length_makeAbsoluteJump toAddr 12)

theorem add_ofInt_jumpDisp (fromAddr toAddr : BitVec 32)
    : fromAddr + BitVec.ofInt 32 (jumpDisp fromAddr toAddr) = toAddr := by
  apply add_ofInt_sub

/--
`words` at `fromAddr` are one relative branch that the classifier decodes to `toAddr`, or the long jump
there.
-/
def IsJump (fromAddr toAddr : BitVec 32) (words : List Instruction) : Prop :=
  (∃ w, words = [w] ∧ (classify w).kind = .DirectRelative ∧ (classify w).isConditionalForm = false
    ∧ (classify w).link = false ∧ fromAddr + (classify w).displacement = toAddr)
    ∨
  words = makeAbsoluteJump toAddr 12

theorem IsJump.makeMinimalJump (fromAddr toAddr : BitVec 32)
    : IsJump fromAddr toAddr (makeMinimalJump fromAddr toAddr) := by
  rw [makeMinimalJump_eq]
  split
  . next h =>
    left
    refine ⟨_, rfl, ?_⟩
    rw [classify_branchWord h]
    refine ⟨rfl, rfl, rfl, ?_⟩
    apply add_ofInt_jumpDisp
  . right
    rfl

/-
The fixed parts of the code.
-/

def prologue : List Instruction := buildPrologue.toOption.getD []
def epilogue : List Instruction := buildEpilogue.toOption.getD []

theorem buildPrologue_eq : buildPrologue = .ok prologue := by
  rfl

theorem buildEpilogue_eq : buildEpilogue = .ok epilogue := by
  rfl

theorem length_prologue : prologue.length = 16 := by
  rfl

theorem length_epilogue : epilogue.length = 16 := by
  rfl

theorem length_makeLoadAndStartModule (pathAddress : BitVec 32)
    : (makeLoadAndStartModule pathAddress).length = 14 := by
  rfl

/-
The addresses of the parts of a trampoline at `T`.
-/

def codeBase (T : BitVec 32) : BitVec 32 := T + 8

def resumeBase (T : BitVec 32) : BitVec 32 := codeBase T + BitVec.ofNat 32 (49 * 4)

def entryAddr (entry : EntryDescriptor) : BitVec 32 := entry.codeAddress.setWidth 32

def jumpIn (entry : EntryDescriptor) (T : BitVec 32) : List Instruction :=
  makeMinimalJump (entryAddr entry) (codeBase T)

def displaced (entry : EntryDescriptor) (T : BitVec 32) : Nat := (jumpIn entry T).length

def jumpBack (entry : EntryDescriptor) (T : BitVec 32) : List Instruction :=
  makeMinimalJump (resumeBase T + BitVec.ofNat 32 (displaced entry T * 4))
    (entryAddr entry + BitVec.ofNat 32 (displaced entry T * 4))

def pathBase (entry : EntryDescriptor) (T : BitVec 32) : BitVec 32 :=
  codeBase T + BitVec.ofNat 32 ((49 + displaced entry T + (jumpBack entry T).length) * 4)

def code (entry : EntryDescriptor) (T : BitVec 32) (relocated : List Instruction)
    : List Instruction :=
  prologue ++ makeLoadAndStartModule (pathBase entry T) ++ epilogue ++
    loadImmediate32 2 (entry.tocValue.setWidth 32) ++ relocated ++ jumpBack entry T

theorem relocateDisplacedInstructions.length_go (originalBaseAddr newBaseAddr : BitVec 32) (i : Nat)
    (original relocated : List Instruction)
    (h : go originalBaseAddr newBaseAddr i original = .ok relocated)
    : relocated.length = original.length := by
  induction original generalizing i relocated with
  | nil =>
    simp only [go, Except.ok.injEq] at h
    rw [← h]
  | cons instr rest ih =>
    simp only [go] at h
    have hcons (w : Instruction) (h : (go originalBaseAddr newBaseAddr (i + 1) rest).map (w :: ·)
        = .ok relocated) : relocated.length = (instr :: rest).length := by
      cases hrest : go originalBaseAddr newBaseAddr (i + 1) rest with
      | error e =>
        rw [hrest] at h
        contradiction
      | ok ws =>
        rw [hrest, Except.map, Except.ok.injEq] at h
        rw [← h, List.length_cons, List.length_cons, ih _ _ hrest]
    split at h
    . split at h
      . contradiction
      . exact hcons _ h
    . exact hcons _ h

theorem length_relocateDisplacedInstructions (original relocated : List Instruction)
    (originalBaseAddr newBaseAddr : BitVec 32)
    (h : relocateDisplacedInstructions original originalBaseAddr newBaseAddr = .ok relocated)
    : relocated.length = original.length := by
  apply relocateDisplacedInstructions.length_go originalBaseAddr newBaseAddr 0
  exact h

theorem length_code (entry : EntryDescriptor) (T : BitVec 32) (relocated : List Instruction)
    : (code entry T relocated).length = 49 + relocated.length + (jumpBack entry T).length := by
  unfold code
  have h3 (reg value : BitVec 32) : (loadImmediate32 reg value).length = 3 := by
    rfl
  simp only [List.length_append, length_prologue, length_epilogue, length_makeLoadAndStartModule, h3]

/--
What a successful `buildTrampoline` has found and returned.
-/
structure Built (file : Ps3ElfFile) (entry : EntryDescriptor) (T : BitVec 32) (path : List Byte)
    (r : TrampolineResult) (entryOffset : BitVec 64) (originals resumed : List Instruction) : Prop where
  path_ne : path ≠ []
  path_le : path.length ≤ 1023
  addr_aligned : T.toNat % 4 = 0
  code_aligned : entry.codeAddress.toNat % 4 = 0
  fresh : isAlreadyPatched file = false
  offset : file.vaddrToFileOffset entry.codeAddress = .ok entryOffset
  fits : entryOffset.toNat + displaced entry T * 4 ≤ file.raw.size
  originals_eq : originals = readInstructions
    (slice file.raw.toList entryOffset.toNat (displaced entry T * 4)) (displaced entry T)
  relocated : relocateDisplacedInstructions originals (entryAddr entry) (resumeBase T) = .ok resumed
  result : r =
    { blob := padBlob (TRAMPOLINE_MAGIC ++ toBigEndianBytes (code entry T resumed) ++ path ++ [0])
      entryPatchBytes := toBigEndianBytes (jumpIn entry T)
      trampolineAddr := T
      entryPatchAddr := entryAddr entry
      displacedInstructionCount := displaced entry T }

namespace Built

variable {file : Ps3ElfFile} {entry : EntryDescriptor} {T : BitVec 32} {path : List Byte}
variable {r : TrampolineResult} {entryOffset : BitVec 64} {originals resumed : List Instruction}
variable (b : Built file entry T path r entryOffset originals resumed)
include b

theorem count_eq : r.displacedInstructionCount = displaced entry T := by
  rw [b.result]

theorem addr_eq : r.trampolineAddr = T := by
  rw [b.result]

theorem length_entryPatchBytes : r.entryPatchBytes.length = displaced entry T * 4 := by
  rw [b.result]
  apply length_toBigEndianBytes

theorem length_originals : originals.length = displaced entry T := by
  rw [b.originals_eq, length_readInstructions]

theorem length_resumed : resumed.length = displaced entry T := by
  rw [length_relocateDisplacedInstructions _ _ _ _ b.relocated, b.length_originals]

theorem hasWords_originals
    : HasWords (slice file.raw.toList entryOffset.toNat (4 * displaced entry T)) originals := by
  have hfits := b.fits
  rw [b.originals_eq, Nat.mul_comm 4]
  apply hasWords_readInstructions
  rw [length_slice _ _ _ hfits, Nat.mul_comm]

end Built

theorem displaced_eq (entry : EntryDescriptor) (T : BitVec 32)
    : displaced entry T = 1 ∨ displaced entry T = 5 := by
  apply length_makeMinimalJump

theorem built_of_buildTrampoline (file : Ps3ElfFile) (entry : EntryDescriptor) (T : BitVec 32)
    (path : List Byte) (r : TrampolineResult) (h : buildTrampoline file entry T path = .ok r)
    : ∃ entryOffset originals resumed, Built file entry T path r entryOffset originals resumed := by
  unfold buildTrampoline at h
  simp only [ite_error_eq_ok_iff] at h
  obtain ⟨hne, hle, hT, hcode, hfresh, h⟩ := h
  have hdisp := displaced_eq entry T
  split at h
  . contradiction
  . next entryOffset hoffset =>
    split at h
    . contradiction
    . next entryBytes hread =>
      replace hread : file.readAt entryOffset (BitVec.ofNat 64 (displaced entry T * 4))
          = .ok entryBytes := hread
      rw [readAt_eq_ok_iff _ _ _ _ (by omega)] at hread
      obtain ⟨hfits, hbytes⟩ := hread
      split at h
      . contradiction
      . next resumed hreloc =>
        rw [ite_error_eq_ok_iff, buildPrologue_eq, buildEpilogue_eq] at h
        simp only [ite_error_eq_ok_iff, Except.ok.injEq] at h
        obtain ⟨-, -, hr⟩ := h
        refine ⟨entryOffset, readInstructions entryBytes (displaced entry T), resumed, ?_⟩
        constructor
        . exact hne
        . unfold kMaxPathLength at hle
          omega
        . exact Decidable.not_not.mp hT
        . exact Decidable.not_not.mp hcode
        . exact eq_false_of_ne_true hfresh
        . exact hoffset
        . exact hfits
        . rw [hbytes]
        . exact hreloc
        . exact hr.symm

theorem padBlob_eq (blob : List Byte)
    : ∃ k ≤ 3, padBlob blob = blob ++ List.replicate k 0 ∧ (padBlob blob).length % 4 = 0 := by
  have hround (rounds : Nat) (blob : List Byte) (h : blob.length % 4 = 0 ∨ 4 ≤ blob.length % 4 + rounds)
      : ∃ k ≤ rounds, padBlob.go rounds blob = blob ++ List.replicate k 0
        ∧ (padBlob.go rounds blob).length % 4 = 0 := by
    induction rounds generalizing blob with
    | zero =>
      refine ⟨0, Nat.le_refl 0, (List.append_nil blob).symm, ?_⟩
      simp only [padBlob.go]
      omega
    | succ rounds ih =>
      simp only [padBlob.go]
      split
      . next hpad =>
        obtain ⟨k, hk, heq, hlen⟩ := ih (blob ++ [0]) (by
          rw [List.length_append, List.length_singleton]
          omega)
        refine ⟨k + 1, by omega, ?_, hlen⟩
        rw [heq, List.append_assoc, List.replicate_succ, List.singleton_append]
      . next hpad =>
        exact ⟨0, by omega, (List.append_nil blob).symm, by omega⟩
  apply hround 3 blob
  omega

/-
Slices of the code.
-/

theorem length_fixed (entry : EntryDescriptor) (T : BitVec 32)
    : (prologue ++ makeLoadAndStartModule (pathBase entry T) ++ epilogue ++
        loadImmediate32 2 (entry.tocValue.setWidth 32)).length = 49 := by
  rfl

theorem slice_code_resumed (entry : EntryDescriptor) (T : BitVec 32) (resumed : List Instruction)
    : slice (code entry T resumed) 49 resumed.length = resumed := by
  unfold code
  rw [← length_fixed entry T, slice_append_middle]

theorem getElem?_code_resumed (entry : EntryDescriptor) (T : BitVec 32) (resumed : List Instruction)
    (i : Nat) (w : Instruction) (h : resumed[i]? = some w)
    : (code entry T resumed)[49 + i]? = some w := by
  have hi := (List.getElem?_eq_some_iff.mp h).choose
  have hword := congrArg (fun l => l[i]?) (slice_code_resumed entry T resumed)
  simp only [getElem?_slice, hi, ↓reduceIte, h] at hword
  exact hword

theorem slice_code_jumpBack (entry : EntryDescriptor) (T : BitVec 32) (resumed : List Instruction)
    : slice (code entry T resumed) (49 + resumed.length) (jumpBack entry T).length
        =
      jumpBack entry T := by
  unfold code
  rw [← length_fixed entry T, ← List.length_append]
  apply slice_append_right
  rfl

-- The immediates that `loadImmediate32` splits a value over.
def hi (value : BitVec 32) : BitVec 16 := ((value >>> 16) &&& 0xFFFF#32).setWidth 16
def lo (value : BitVec 32) : BitVec 16 := (value &&& 0xFFFF#32).setWidth 16

theorem hi_append_lo (value : BitVec 32) : hi value ++ lo value = value := by
  unfold hi lo
  rw [setWidth_and_0xFFFF, setWidth_and_0xFFFF]
  apply BitVec.eq_of_getLsbD_eq
  intro i hi
  rw [BitVec.getLsbD_append, BitVec.getLsbD_setWidth, BitVec.getLsbD_setWidth,
    BitVec.getLsbD_ushiftRight]
  rcases Nat.lt_or_ge i 16 with hlow | hhigh
  . simp [hlow]
  . simp [show ¬ i < 16 by omega, show i - 16 < 16 by omega, show 16 + (i - 16) = i by omega]

theorem getElem?_code_16 (entry : EntryDescriptor) (T : BitVec 32) (resumed : List Instruction)
    : (code entry T resumed)[16]?
        =
      some (encodeLis 3 (hi (pathBase entry T))) := by
  rfl

theorem getElem?_code_17 (entry : EntryDescriptor) (T : BitVec 32) (resumed : List Instruction)
    : (code entry T resumed)[17]?
        =
      some (encodeOri 3 3 (lo (pathBase entry T))) := by
  rfl

/--
The layout of the trampoline at `T` for `n` displaced words and `m` words that jump back.
-/
structure BlobLayout (file : Ps3ElfFile) (entry : EntryDescriptor) (T : BitVec 32) (path : List Byte)
    (r : TrampolineResult) (n m : Nat) (words : List Instruction) : Prop where
  displaced : n = r.displacedInstructionCount
  displaced_count : n = 1 ∨ n = 5
  jumpBack_count : m = 1 ∨ m = 5
  entryPatch_length : r.entryPatchBytes.length = 4 * n
  entryPatch : ∃ jump, HasWords r.entryPatchBytes jump
    ∧ IsJump (entry.codeAddress.setWidth 32) (T + 8) jump
  blob : ∃ coded, HasWords coded words
    ∧ ∃ k ≤ 3, r.blob = TRAMPOLINE_MAGIC ++ coded ++ path ++ [0] ++ List.replicate k 0
  blob_aligned : r.blob.length % 4 = 0
  words_length : words.length = 49 + n + m
  resumed : ∃ offset originals, file.vaddrToFileOffset entry.codeAddress = .ok offset
    ∧ offset.toNat + 4 * n ≤ file.raw.size ∧ originals.length = n
    ∧ HasWords (slice file.raw.toList offset.toNat (4 * n)) originals
    ∧ relocateDisplacedInstructions originals (entry.codeAddress.setWidth 32)
        (T + 8 + BitVec.ofNat 32 (4 * 49)) = .ok (slice words 49 n)
  jumpBack : IsJump (T + 8 + BitVec.ofNat 32 (4 * (49 + n)))
    (entry.codeAddress.setWidth 32 + BitVec.ofNat 32 (4 * n)) (slice words (49 + n) m)
  pathPointer : ∃ hi lo, words[16]?.bind decode = some (.addis 3 0 hi)
    ∧ words[17]?.bind decode = some (.ori 3 3 lo)
    ∧ hi ++ lo = T + 8 + BitVec.ofNat 32 (4 * (49 + n + m))
  path : slice r.blob (T + 8 + BitVec.ofNat 32 (4 * (49 + n + m)) - T).toNat path.length = path

theorem Built.blobLayout {file : Ps3ElfFile} {entry : EntryDescriptor} {T : BitVec 32}
    {path : List Byte} {r : TrampolineResult} {entryOffset : BitVec 64}
    {originals resumed : List Instruction} (b : Built file entry T path r entryOffset originals resumed)
    : BlobLayout file entry T path r (displaced entry T) (jumpBack entry T).length
        (code entry T resumed) := by
  have hn := displaced_eq entry T
  have hm : (jumpBack entry T).length = 1 ∨ (jumpBack entry T).length = 5 := by
    apply length_makeMinimalJump
  have hresumed := b.length_resumed
  have hcode := length_code entry T resumed
  rw [hresumed] at hcode
  obtain ⟨k, hk, hpad, halign⟩ :=
    padBlob_eq (TRAMPOLINE_MAGIC ++ toBigEndianBytes (code entry T resumed) ++ path ++ [0])
  constructor
  . rw [b.result]
  . exact hn
  . exact hm
  . rw [b.result, length_toBigEndianBytes, Nat.mul_comm]
    rfl
  . refine ⟨jumpIn entry T, ?_, ?_⟩
    . rw [b.result]
      apply hasWords_toBigEndianBytes
    . apply IsJump.makeMinimalJump
  . refine ⟨toBigEndianBytes (code entry T resumed), hasWords_toBigEndianBytes _, k, hk, ?_⟩
    rw [b.result, hpad]
  . rw [b.result]
    exact halign
  . exact hcode
  . refine ⟨entryOffset, originals, b.offset, by rw [Nat.mul_comm]; exact b.fits,
      b.length_originals, b.hasWords_originals, ?_⟩
    rw [← hresumed, slice_code_resumed]
    exact b.relocated
  . rw [← hresumed, slice_code_jumpBack, hresumed, Nat.mul_add, BitVec.ofNat_add, ← BitVec.add_assoc,
      Nat.mul_comm 4 (Ps3patch.displaced entry T)]
    apply IsJump.makeMinimalJump
  . refine ⟨hi (pathBase entry T), lo (pathBase entry T), ?_, ?_, ?_⟩
    . rw [getElem?_code_16, Option.bind_some]
      apply decode_encodeLis 3
    . rw [getElem?_code_17, Option.bind_some]
      apply decode_encodeOri 3 3
    . rw [hi_append_lo, pathBase, Nat.mul_comm]
      rfl
  . have haddr : (T + 8 + BitVec.ofNat 32 (4 * (49 + displaced entry T + (jumpBack entry T).length)) - T).toNat
        = (TRAMPOLINE_MAGIC ++ toBigEndianBytes (code entry T resumed)).length := by
      rw [List.length_append, length_toBigEndianBytes, hcode]
      show _ = 8 + _
      rw [BitVec.add_assoc, BitVec.add_comm, BitVec.add_sub_cancel, BitVec.toNat_add,
        BitVec.toNat_ofNat]
      show (8 + _) % _ = _
      omega
    rw [haddr, b.result]
    dsimp only
    rw [hpad, List.append_assoc _ [0], slice_append_middle]

theorem BlobLayout.blob_eq {file : Ps3ElfFile} {entry : EntryDescriptor} {T : BitVec 32}
    {path : List Byte} {r : TrampolineResult} {n m : Nat} {words : List Instruction}
    (h : BlobLayout file entry T path r n m words)
    : ∃ k ≤ 3, r.blob = TRAMPOLINE_MAGIC ++ toBigEndianBytes words ++ path ++ [0] ++ List.replicate k 0 := by
  have ⟨coded, hcoded, hblob⟩ := h.blob
  rw [← hcoded.eq]
  exact hblob

theorem Built.slice_blob_resumed {file : Ps3ElfFile} {entry : EntryDescriptor} {T : BitVec 32}
    {path : List Byte} {r : TrampolineResult} {offset : BitVec 64} {originals resumed : List Instruction}
    (b : Built file entry T path r offset originals resumed)
    : 8 + 49 * 4 + resumed.length * 4 ≤ r.blob.length
        ∧ slice r.blob (8 + 49 * 4) (resumed.length * 4) = toBigEndianBytes resumed := by
  obtain ⟨pad, -, hblob⟩ := b.blobLayout.blob_eq
  have hfixed := length_fixed entry T
  unfold code at hblob
  rw [toBigEndianBytes_eq, Codec.encodeAll_append, Codec.encodeAll_append, ← toBigEndianBytes_eq,
    ← toBigEndianBytes_eq, ← toBigEndianBytes_eq, List.append_assoc, List.append_assoc,
    ← List.append_assoc TRAMPOLINE_MAGIC, ← List.append_assoc TRAMPOLINE_MAGIC, List.append_assoc] at hblob
  have hfront : (TRAMPOLINE_MAGIC ++ toBigEndianBytes (prologue ++
      makeLoadAndStartModule (pathBase entry T) ++ epilogue ++
        loadImmediate32 2 (entry.tocValue.setWidth 32))).length = 8 + 49 * 4 := by
    rw [List.length_append, length_toBigEndianBytes, hfixed]
    rfl
  rw [hblob, ← hfront, ← length_toBigEndianBytes]
  constructor
  . simp only [List.length_append]
    omega
  . apply slice_append_middle

/--
The builder lays the trampoline out as the addresses in its own code say.
-/
theorem buildTrampoline_layout (file : Ps3ElfFile) (entry : EntryDescriptor) (T : BitVec 32)
    (path : List Byte) (r : TrampolineResult) (h : buildTrampoline file entry T path = .ok r)
    : ∃ m words, BlobLayout file entry T path r r.displacedInstructionCount m words := by
  obtain ⟨entryOffset, originals, resumed, b⟩ := built_of_buildTrampoline file entry T path r h
  refine ⟨(jumpBack entry T).length, code entry T resumed, ?_⟩
  rw [b.count_eq]
  exact b.blobLayout

section Examples

/--
An executable of a header, one PT_LOAD header per entry of `loads` (the virtual address and the size in
memory, the first one is backed by the file), a descriptor of the entry point and six `nop` behind it.
-/
def sample (loads : List (BitVec 64 × BitVec 64)) (shnum : BitVec 16) : List Byte :=
  let size : BitVec 64 := 96 + BitVec.ofNat 64 (loads.length * 56)
  let start := (loads.getD 0 (0, 0)).1
  let header : Elf64_Ehdr .Big :=
    { e_ident := fun i => [0x7F, 0x45, 0x4C, 0x46, 0x02, 0x02, 0x01].getD i.val 0
      e_type := .set 2, e_machine := .set EM_PPC64, e_version := .set 1
      e_entry := .set (start + size - 32), e_phoff := .set 64, e_shoff := .set 0, e_flags := .set 0
      e_ehsize := .set 64, e_phentsize := .set 56, e_phnum := .set (BitVec.ofNat 16 loads.length)
      e_shentsize := .set 64, e_shnum := .set shnum, e_shstrndx := .set 0 }
  let phdrs := loads.mapIdx fun i (vaddr, memsz) =>
    ({ p_type := .set PT_LOAD, p_flags := .set (PF_R ||| PF_X), p_offset := .set 0
       p_vaddr := .set vaddr, p_paddr := .set vaddr, p_filesz := .set (if i = 0 then size else 0)
       p_memsz := .set memsz, p_align := .set 0x10000 } : Elf64_Phdr .Big)
  let code : BitVec 32 := (start + size - 24).setWidth 32
  (Elf64_Ehdr.codec .Big).encode header ++ (Elf64_Phdr.codec .Big).encodeAll phdrs ++
    toBigEndianBytes [code, 0x30000] ++ toBigEndianBytes (List.replicate 6 0x60000000)

def plainSample : Bytes := ⟨sample [(0x10000, 0x1000)] 0, by decide +kernel⟩

theorem exists_ok_of_isOk {ε α : Type} {x : Except ε α} (h : x.isOk = true) : ∃ v, x = .ok v := by
  cases x with
  | error e => contradiction
  | ok v => exact ⟨v, rfl⟩

theorem buildTrampoline_layout_plainSample
    : ∃ r m words,
        buildTrampoline (ElfFile.fileOf true .Big plainSample) ⟨0x10080, 0x30000, 0⟩ 0x20000 [0x61]
            = .ok r
          ∧ BlobLayout (ElfFile.fileOf true .Big plainSample) ⟨0x10080, 0x30000, 0⟩ 0x20000 [0x61] r
              r.displacedInstructionCount m words := by
  have hok : (buildTrampoline (ElfFile.fileOf true .Big plainSample) ⟨0x10080, 0x30000, 0⟩ 0x20000
      [0x61]).isOk = true := by
    decide +kernel
  obtain ⟨r, hr⟩ := exists_ok_of_isOk hok
  obtain ⟨m, words, hlayout⟩ := buildTrampoline_layout _ _ _ _ r hr
  exact ⟨r, m, words, hr, hlayout⟩

end Examples

end Ps3patch
end ElfCraft
